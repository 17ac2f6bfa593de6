import NexusErebus.Async.Pool

/-!
# Observed runs

Some properties of a run speak of what happened earlier.  An *observer* watches the commands of
a machine and their answers and keeps a memo of them.  The observed machine has the memo in its
state, next to the state proper, so an invariant and a guard can speak of it.

Observing must not change what a machine can do.  A `Refinement` maps the states of one machine
to those of another and keeps events, programs and answers.  It maps reachable worlds to
reachable worlds (`Refinement.reach`).  Guarding a machine is a refinement, and so is observing
it.
-/

namespace Async

variable {S : Sig} {ε : Type}

/-! ## Refinements -/

/-- A machine is seen as another one, by a map of its states. -/
structure Refinement (M' M : Machine S ε) where
  st : M'.St → M.St
  pid : M'.Pid → M.Pid
  ev : M'.Ev → M.Ev
  ans : (c : S.Cmd) → M'.Ans c → M.Ans c
  pid_injective : Function.Injective pid
  pid_ev : ∀ ev', M.pid (ev ev') = pid (M'.pid ev')
  body_ev : ∀ ev', M.body (ev ev') = M'.body ev'
  sync_eq : ∀ c, M.sync c = M'.sync c
  step : ∀ {p c st₁ a r st₂}, M'.step p c st₁ a = some (r, st₂) →
    M.step (pid p) c (st st₁) (ans c a) = some (r, st st₂)
  enter : ∀ {ev' st₁ st₂}, M'.enter ev' st₁ = some st₂ →
    M.enter (ev ev') (st st₁) = some (st st₂)
  crash : ∀ p st₁, M.crash (pid p) (st st₁) = st (M'.crash p st₁)

namespace Refinement

variable {M₁ M₂ M₃ : Machine S ε}

/-- Refinements compose. -/
def comp (R : Refinement M₁ M₂) (R' : Refinement M₂ M₃) : Refinement M₁ M₃ where
  st := R'.st ∘ R.st
  pid := R'.pid ∘ R.pid
  ev := R'.ev ∘ R.ev
  ans c a := R'.ans c (R.ans c a)
  pid_injective := R'.pid_injective.comp R.pid_injective
  pid_ev ev' := (R'.pid_ev _).trans (congrArg R'.pid (R.pid_ev ev'))
  body_ev ev' := (R'.body_ev _).trans (R.body_ev ev')
  sync_eq c := (R'.sync_eq c).trans (R.sync_eq c)
  step h := R'.step (R.step h)
  enter h := R'.enter (R.enter h)
  crash p st₁ := (R'.crash _ _).trans (congrArg R'.st (R.crash p st₁))

variable {M' M : Machine S ε} (R : Refinement M' M)

/-- A task, seen by the other machine. -/
def task (t : Task M') : Task M := ⟨R.ev t.ev, t.prog, t.ready⟩

/-- A world, seen by the other machine. -/
def world (w : World M') : World M where
  st := R.st w.st
  pool := w.pool.map R.task
  trace := w.trace.map fun x => (R.ev x.1, x.2)

/-- What a segment leaves behind, seen by the other machine. -/
def seg {α : Type} (s : M'.Seg α) : M.Seg α := ⟨s.rest, R.st s.st, s.forked, s.issued⟩

/-- A segment of the one is a segment of the other. -/
theorem seg_eq {p : M'.Pid} {ans : Nat → (c : S.Cmd) → M'.Ans c} :
    ∀ {α : Type} {q : Prog S ε α} {st : M'.St} {out : List S.Cmd} {s : M'.Seg α},
      M'.seg p ans q st out = some s →
      M.seg (R.pid p) (fun n c => R.ans c (ans n c)) q (R.st st) out = some (R.seg s)
  | _, .ret a, st, out, s, hs => by
      cases hs
      rfl
  | _, .throw e, st, out, s, hs => by
      cases hs
      rfl
  | _, .call c k, st, out, s, hs => by
      simp only [Machine.seg, R.sync_eq] at hs ⊢
      split at hs
      next hsync =>
        rw [if_pos hsync]
        split at hs
        next => cases hs
        next r st' hstep =>
          rw [R.step hstep]
          exact seg_eq hs
      next hsync =>
        rw [if_neg hsync]
        cases hs
        rfl
  | _, .fork q r, st, out, s, hs => by
      simp only [Machine.seg] at hs ⊢
      split at hs
      next => cases hs
      next s₁ hs₁ =>
        split at hs
        next => cases hs
        next s₂ hs₂ =>
          cases hs
          have hs₂' : M.seg (R.pid p) (fun n c => R.ans c (ans n c)) r (R.seg s₁).st
              (R.seg s₁).issued = some (R.seg s₂) := seg_eq hs₂
          simp only [seg_eq hs₁, hs₂']
          rfl

/-- A choice, seen by the other machine. -/
def choice : M'.Choice → M.Choice
  | .start ev => .start (R.ev ev)
  | .resume i ans => .resume i fun n c => R.ans c (ans n c)
  | .reply i ans => .reply i fun c => R.ans c (ans c)
  | .crash p => .crash (R.pid p)

theorem pool_world {w : World M'} {i : Nat} {t : Task M'} (h : w.pool[i]? = some t) :
    (R.world w).pool[i]? = some (R.task t) := by
  simp only [world, List.getElem?_map, h, Option.map_some]

/-- A step of the one is a step of the other. -/
theorem next {w w' : World M'} {ch : M'.Choice} (h : Machine.next w ch = some w') :
    Machine.next (R.world w) (R.choice ch) = some (R.world w') := by
  cases ch with
  | start ev =>
      obtain ⟨st, hent, rfl⟩ := Option.map_eq_some_iff.mp h
      simp only [choice, Machine.next]
      rw [show M.enter (R.ev ev) (R.world w).st = some (R.st st) from R.enter hent]
      simp [Machine.afterStart, world, task, R.body_ev]
  | resume i ans =>
      simp only [Machine.next] at h
      split at h
      next ev q hq =>
        obtain ⟨s, hs, rfl⟩ := Option.map_eq_some_iff.mp h
        simp only [choice, Machine.next, R.pool_world hq, task, R.pid_ev]
        rw [show M.seg (R.pid (M'.pid ev)) _ q (R.world w).st [] = _ from R.seg_eq hs]
        simp [Machine.afterResume, world, task, seg, Function.comp_def]
      next => cases h
  | reply i ans =>
      simp only [Machine.next] at h
      split at h
      next ev c k hq =>
        split at h
        next => cases h
        next hsync =>
          obtain ⟨⟨r, st⟩, hs, rfl⟩ := Option.map_eq_some_iff.mp h
          simp only [choice, Machine.next, R.pool_world hq, task, R.pid_ev, R.sync_eq, hsync]
          rw [show M.step (R.pid (M'.pid ev)) c (R.world w).st _ = _ from R.step hs]
          simp [Machine.afterReply, world, task]
      next => cases h
  | crash p =>
      cases Option.some.inj h
      simp only [choice, Machine.next, Machine.afterCrash, world, R.crash, Option.some.injEq,
        World.mk.injEq, true_and, and_true, List.filter_map]
      refine congrArg _ (List.filter_congr fun t _ => ?_)
      simp [task, R.pid_ev, R.pid_injective.eq_iff]

/-- Every run of the one is a run of the other. -/
theorem reach {init' : M'.St → Prop} {init : M.St → Prop} (hinit : ∀ st, init' st → init (R.st st))
    {w : World M'} (hw : M'.Reach init' w) : M.Reach init (R.world w) := by
  induction hw with
  | start h => exact .start (hinit _ h)
  | step _ hn ih => exact .step ih (R.next hn)

end Refinement

/-- The guarded machine takes some of the steps of the machine. -/
def Machine.guardedRefinement (M : Machine S ε) (onEnter : M.Ev → M.St → Bool)
    (onStep : M.Pid → S.Cmd → M.St → Bool) : Refinement (M.guarded onEnter onStep) M where
  st := id
  pid := id
  ev := id
  ans _ := id
  pid_injective := Function.injective_id
  pid_ev _ := rfl
  body_ev _ := rfl
  sync_eq _ := rfl
  step h := (Option.ite_none_right_eq_some.mp h).2
  enter h := (Option.ite_none_right_eq_some.mp h).2
  crash _ _ := rfl

/-! ## Observers -/

/-- Something that watches the commands of a machine and keeps a memo. -/
structure Observer (M : Machine S ε) where
  /-- What it keeps. -/
  Memo : Type
  /-- What it notes of a command: who issued it, the state before it and its answer. -/
  note : M.Pid → (c : S.Cmd) → M.St → S.Res c → Memo → Memo
  /-- What it notes when a process stops. -/
  noteCrash : M.Pid → M.St → Memo → Memo

namespace Machine

variable (M : Machine S ε)

/-- The machine with an observer. -/
def observed (O : Observer M) : Machine S ε where
  Pid := M.Pid
  St := M.St × O.Memo
  Ev := M.Ev
  pid := M.pid
  body := M.body
  sync := M.sync
  Ans := M.Ans
  step p c st a := (M.step p c st.1 a).map fun x => (x.1, (x.2, O.note p c st.1 x.1 st.2))
  enter ev st := (M.enter ev st.1).map fun st' => (st', st.2)
  crash p st := (M.crash p st.1, O.noteCrash p st.1 st.2)
  decPid := M.decPid

/-- Without its memo the observed machine is the machine. -/
def observedRefinement (O : Observer M) : Refinement (M.observed O) M where
  st := Prod.fst
  pid := id
  ev := id
  ans _ := id
  pid_injective := Function.injective_id
  pid_ev _ := rfl
  body_ev _ := rfl
  sync_eq _ := rfl
  step h := by
    obtain ⟨x, hx, he⟩ := Option.map_eq_some_iff.mp h
    cases he
    exact hx
  enter h := by
    obtain ⟨st', hst', he⟩ := Option.map_eq_some_iff.mp h
    cases he
    exact hst'
  crash _ _ := rfl

/-- The runs of the machine with an observer in which every step meets a condition on the state and
the memo. -/
def monitored (O : Observer M) (onEnter : M.Ev → M.St × O.Memo → Bool)
    (onStep : M.Pid → S.Cmd → M.St × O.Memo → Bool) : Machine S ε :=
  (M.observed O).guarded onEnter onStep

/-- They are runs of the machine. -/
def monitoredRefinement (O : Observer M) (onEnter : M.Ev → M.St × O.Memo → Bool)
    (onStep : M.Pid → S.Cmd → M.St × O.Memo → Bool) :
    Refinement (M.monitored O onEnter onStep) M :=
  ((M.observed O).guardedRefinement onEnter onStep).comp (M.observedRefinement O)

end Machine

end Async
