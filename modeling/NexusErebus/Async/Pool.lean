import NexusErebus.Async.Prog

/-!
# Many programs at once

A machine runs the programs of several processes over one state.  A process runs
one program at a time and gives it up only where the program waits, so the stretch
from one wait to the next, a *segment*, is one step.  A command that waits takes
two steps.  First the environment carries it out and the answer is on its way,
then the program that asked is resumed.  Between the two anything else may happen.

The four kinds of step are these.

* `start`: an event enters the system and its program joins the pool.
* `resume`: a program whose answer has arrived runs one segment.
* `reply`: the command a program waits for is carried out.
* `crash`: a process stops.  Its programs are gone, and the state forgets what
  lived in its memory.

Commands are answered by `Machine.step`, which is given what the environment
decides, and may refuse it.  So a run is fixed by its list of choices, and a world
is reachable if some list of choices leads to it.
-/

namespace Async

/-- A family of processes, the events that start their programs and the meaning
of their commands. -/
structure Machine (S : Sig) (ε : Type) where
  /-- The processes. -/
  Pid : Type
  /-- What they share, and what each keeps in memory. -/
  St : Type
  /-- What starts a program. -/
  Ev : Type
  /-- The process an event belongs to. -/
  pid : Ev → Pid
  /-- The program an event starts. -/
  body : Ev → Prog S ε Unit
  /-- The commands that are answered on the spot. -/
  sync : S.Cmd → Bool
  /-- What the environment decides about a command. -/
  Ans : S.Cmd → Type
  /-- Carry out a command, given the decision of the environment. -/
  step : Pid → (c : S.Cmd) → St → Ans c → Option (S.Res c × St)
  /-- Let an event in. -/
  enter : Ev → St → Option St
  /-- What is left of the state when a process stops. -/
  crash : Pid → St → St
  /-- Processes can be told apart. -/
  decPid : DecidableEq Pid

attribute [instance] Machine.decPid

variable {S : Sig} {ε : Type}

/-- A program in flight. -/
structure Task (M : Machine S ε) where
  /-- The event that started it. -/
  ev : M.Ev
  /-- What is left of it. -/
  prog : Prog S ε Unit
  /-- It may run.  Otherwise it waits for its command. -/
  ready : Bool

/-- The state, the programs in flight and the commands carried out so far. -/
structure World (M : Machine S ε) where
  st : M.St
  pool : List (Task M)
  trace : List (M.Ev × S.Cmd)

namespace Machine

variable (M : Machine S ε)

/-! ## Segments -/

/-- What a segment leaves behind. -/
structure Seg (α : Type) where
  /-- The rest of the program, which waits or is at its end. -/
  rest : Prog S ε α
  /-- The state. -/
  st : M.St
  /-- What is left of the programs it forked. -/
  forked : List (Prog S ε Unit)
  /-- The commands carried out. -/
  issued : List S.Cmd

/-- Run one segment.  `ans n` is the environment's decision about the command
number `n`.  A forked program runs its own first segment on the spot. -/
def seg (p : M.Pid) (ans : Nat → (c : S.Cmd) → M.Ans c) :
    {α : Type} → Prog S ε α → M.St → List S.Cmd → Option (M.Seg α)
  | _, .ret a, st, out => some ⟨.ret a, st, [], out⟩
  | _, .throw e, st, out => some ⟨.throw e, st, [], out⟩
  | _, .call c k, st, out =>
      if M.sync c then
        match M.step p c st (ans out.length c) with
        | none => none
        | some (r, st') => seg p ans (k r) st' (out ++ [c])
      else some ⟨.call c k, st, [], out⟩
  | _, .fork q r, st, out =>
      match seg p ans q st out with
      | none => none
      | some s =>
          match seg p ans r s.st s.issued with
          | none => none
          | some s' => some { s' with forked := s.forked ++ s.rest :: s'.forked }

variable {M} in
/-- A command that is answered on the spot. -/
theorem seg_ask_bind {p : M.Pid} {ans : Nat → (c : S.Cmd) → M.Ans c} {α : Type} {c : S.Cmd}
    {f : S.Res c → Prog S ε α} {st st' : M.St} {out : List S.Cmd} {r : S.Res c}
    (hc : M.sync c = true) (hs : M.step p c st (ans out.length c) = some (r, st')) :
    M.seg p ans ((Prog.ask c).bind f) st out = M.seg p ans (f r) st' (out ++ [c]) := by
  simp only [Prog.ask, Prog.call_bind, Prog.ret_bind, seg, hc, if_true, hs]

variable {M} in
/-- A segment that starts with a command that is answered on the spot. -/
theorem seg_call_sync {p : M.Pid} {ans : Nat → (c : S.Cmd) → M.Ans c} {α : Type} {c : S.Cmd}
    {k : S.Res c → Prog S ε α} {st : M.St} {out : List S.Cmd} {s : M.Seg α} (hc : M.sync c = true)
    (hs : M.seg p ans (.call c k) st out = some s) :
    ∃ r st', M.step p c st (ans out.length c) = some (r, st') ∧
      M.seg p ans (k r) st' (out ++ [c]) = some s := by
  simp only [seg, if_pos hc] at hs
  split at hs
  next => cases hs
  next r st' hstep => exact ⟨r, st', hstep, hs⟩

variable {M} in
/-- Two programs that start with a command that is answered on the spot, and then do the same. -/
theorem seg_call_congr {p : M.Pid} {ans : Nat → (c : S.Cmd) → M.Ans c} {α : Type} {c : S.Cmd}
    {k k' : S.Res c → Prog S ε α} {st : M.St} {out : List S.Cmd} (hc : M.sync c = true)
    (hk : ∀ r st', M.step p c st (ans out.length c) = some (r, st') →
      M.seg p ans (k r) st' (out ++ [c]) = M.seg p ans (k' r) st' (out ++ [c])) :
    M.seg p ans (.call c k) st out = M.seg p ans (.call c k') st out := by
  simp only [seg, if_pos hc]
  split
  next => rfl
  next r st' hstep => exact hk r st' hstep

variable {M} in
/-- A program that waits is left as it is. -/
theorem seg_call_wait {p : M.Pid} {ans : Nat → (c : S.Cmd) → M.Ans c} {α : Type} {c : S.Cmd}
    {k : S.Res c → Prog S ε α} {st : M.St} {out : List S.Cmd} (hc : M.sync c = false) :
    M.seg p ans (.call c k) st out = some ⟨.call c k, st, [], out⟩ := by
  simp [seg, hc]

variable {M} in
/-- A segment that starts with a fork. -/
theorem seg_fork {p : M.Pid} {ans : Nat → (c : S.Cmd) → M.Ans c} {α : Type} {q : Prog S ε Unit}
    {r : Prog S ε α} {st : M.St} {out : List S.Cmd} {s : M.Seg α}
    (hs : M.seg p ans (.fork q r) st out = some s) :
    ∃ s₁ s₂, M.seg p ans q st out = some s₁ ∧ M.seg p ans r s₁.st s₁.issued = some s₂ ∧
      s = { s₂ with forked := s₁.forked ++ s₁.rest :: s₂.forked } := by
  simp only [seg] at hs
  split at hs
  next => cases hs
  next s₁ hs₁ =>
    split at hs
    next => cases hs
    next s₂ hs₂ => exact ⟨s₁, s₂, hs₁, hs₂, (Option.some.inj hs).symm⟩

variable {M} in
/-- A program that is started runs to where it waits. -/
theorem seg_spawn {p : M.Pid} {ans : Nat → (c : S.Cmd) → M.Ans c} {q : Prog S ε Unit} {st : M.St}
    {out : List S.Cmd} {s : M.Seg Unit} (hs : M.seg p ans q st out = some s) :
    M.seg p ans (Prog.spawn q) st out = some ⟨.ret (), s.st, s.forked ++ [s.rest], s.issued⟩ := by
  simp only [Prog.spawn, seg, hs]

/-! ## Steps -/

/-- The environment's choice of a step. -/
inductive Choice where
  | start (ev : M.Ev)
  | resume (i : Nat) (ans : Nat → (c : S.Cmd) → M.Ans c)
  | reply (i : Nat) (ans : (c : S.Cmd) → M.Ans c)
  | crash (p : M.Pid)

variable {M}

/-- The world after `start`. -/
def afterStart (w : World M) (ev : M.Ev) (st : M.St) : World M :=
  { w with st := st, pool := w.pool ++ [⟨ev, M.body ev, true⟩] }

/-- The world after `resume` of the task number `i`. -/
def afterResume (w : World M) (i : Nat) (ev : M.Ev) (s : M.Seg Unit) : World M where
  st := s.st
  pool := w.pool.set i ⟨ev, s.rest, false⟩ ++ s.forked.map (⟨ev, ·, false⟩)
  trace := w.trace ++ s.issued.map (ev, ·)

/-- The world after `reply` to the task number `i`. -/
def afterReply (w : World M) (i : Nat) (ev : M.Ev) (c : S.Cmd) (q : Prog S ε Unit)
    (st : M.St) : World M where
  st := st
  pool := w.pool.set i ⟨ev, q, true⟩
  trace := w.trace ++ [(ev, c)]

/-- The world after `crash`. -/
def afterCrash (w : World M) (p : M.Pid) : World M :=
  { w with st := M.crash p w.st, pool := w.pool.filter fun t => M.pid t.ev ≠ p }

/-- One step. -/
def next (w : World M) : M.Choice → Option (World M)
  | .start ev => (M.enter ev w.st).map (afterStart w ev)
  | .resume i ans =>
      match w.pool[i]? with
      | some ⟨ev, q, true⟩ => (M.seg (M.pid ev) ans q w.st []).map (afterResume w i ev)
      | _ => none
  | .reply i ans =>
      match w.pool[i]? with
      | some ⟨ev, .call c k, false⟩ =>
          if M.sync c then none
          else (M.step (M.pid ev) c w.st (ans c)).map fun x => afterReply w i ev c (k x.1) x.2
      | _ => none
  | .crash p => some (afterCrash w p)

/-- Several steps. -/
def nexts (w : World M) : List M.Choice → Option (World M)
  | [] => some w
  | ch :: chs => (next w ch).bind (nexts · chs)

variable (M)

/-- The worlds some run reaches from a state of `init`. -/
inductive Reach (init : M.St → Prop) : World M → Prop where
  | start {st : M.St} : init st → Reach init ⟨st, [], []⟩
  | step {w w' : World M} {ch : M.Choice} :
      Reach init w → next w ch = some w' → Reach init w'

variable {M}

theorem Reach.nexts {init : M.St → Prop} : ∀ {chs : List M.Choice} {w w' : World M},
    M.Reach init w → Machine.nexts w chs = some w' → M.Reach init w'
  | [], _, _, hw, h => by
      cases h
      exact hw
  | ch :: chs, w, w', hw, h => by
      cases hn : Machine.next w ch with
      | none => simp [Machine.nexts, hn] at h
      | some w₁ =>
          simp only [Machine.nexts, hn, Option.bind_some] at h
          exact Reach.nexts (.step hw hn) h

/-- A run that can be carried out, and ends as it should, gives a reachable world. -/
theorem Reach.of_run {I : M.St → Prop} {st : M.St} (hst : I st) {chs : List M.Choice}
    {ends : World M → Bool} (h : (Machine.nexts ⟨st, [], []⟩ chs).any ends = true) :
    ∃ w, M.Reach I w ∧ ends w = true := by
  cases hw : Machine.nexts ⟨st, [], []⟩ chs with
  | none => simp [hw] at h
  | some w => exact ⟨w, .nexts (.start hst) hw, by simpa [hw] using h⟩

/-- Everything a step can do. -/
theorem next_cases {w w' : World M} {ch : M.Choice} (h : next w ch = some w') :
    (∃ ev st, M.enter ev w.st = some st ∧ w' = afterStart w ev st) ∨
    (∃ i ev q ans s, w.pool[i]? = some ⟨ev, q, true⟩ ∧
      M.seg (M.pid ev) ans q w.st [] = some s ∧ w' = afterResume w i ev s) ∨
    (∃ i ev c k a r st, w.pool[i]? = some ⟨ev, .call c k, false⟩ ∧ M.sync c = false ∧
      M.step (M.pid ev) c w.st a = some (r, st) ∧ w' = afterReply w i ev c (k r) st) ∨
    (∃ p, w' = afterCrash w p) := by
  cases ch with
  | start ev =>
      obtain ⟨st, hst, hw⟩ := Option.map_eq_some_iff.mp h
      exact .inl ⟨ev, st, hst, hw.symm⟩
  | resume i ans =>
      simp only [next] at h
      split at h
      next ev q hq =>
        obtain ⟨s, hs, hw⟩ := Option.map_eq_some_iff.mp h
        exact .inr (.inl ⟨i, ev, q, ans, s, hq, hs, hw.symm⟩)
      next => cases h
  | reply i ans =>
      simp only [next] at h
      split at h
      next ev c k hq =>
        split at h
        next => cases h
        next hsync =>
          obtain ⟨⟨r, st⟩, hs, hw⟩ := Option.map_eq_some_iff.mp h
          exact .inr (.inr (.inl
            ⟨i, ev, c, k, _, r, st, hq, Bool.eq_false_iff.mpr hsync, hs, hw.symm⟩))
      next => cases h
  | crash p => exact .inr (.inr (.inr ⟨p, (Option.some.inj h).symm⟩))

/-- What a reply does to the task it is for. -/
theorem next_reply {w w' : World M} {i : Nat} {ev : M.Ev} {c : S.Cmd} {k : S.Res c → Prog S ε Unit}
    {ans : (c : S.Cmd) → M.Ans c} (ht : w.pool[i]? = some ⟨ev, .call c k, false⟩)
    (h : next w (.reply i ans) = some w') :
    ∃ r st, M.step (M.pid ev) c w.st (ans c) = some (r, st) ∧
      w'.pool[i]? = some ⟨ev, k r, true⟩ := by
  simp only [next, ht, Option.ite_none_left_eq_some] at h
  obtain ⟨-, h⟩ := h
  obtain ⟨⟨r, st⟩, hs, rfl⟩ := Option.map_eq_some_iff.mp h
  exact ⟨r, st, hs, List.getElem?_set_self (List.getElem?_eq_some_iff.mp ht).1⟩

/-! ## Runs whose steps all meet a condition -/

variable (M)

/-- The machine that only takes the steps that meet a condition.  `onEnter` is
asked before an event is let in, `onStep` before a command is carried out. -/
def guarded (onEnter : M.Ev → M.St → Bool) (onStep : M.Pid → S.Cmd → M.St → Bool) :
    Machine S ε where
  Pid := M.Pid
  St := M.St
  Ev := M.Ev
  pid := M.pid
  body := M.body
  sync := M.sync
  Ans := M.Ans
  step p c st a := if onStep p c st then M.step p c st a else none
  enter ev st := if onEnter ev st then M.enter ev st else none
  crash := M.crash
  decPid := M.decPid

variable {M}

/-! ## What every command of a run satisfies -/

/-- The contract of a segment: what it carries out satisfies `pre`, and so does
what is left of it and of its forks. -/
theorem seg_issues {pre : S.Cmd → Prop} {p : M.Pid} {ans : Nat → (c : S.Cmd) → M.Ans c} :
    ∀ {α : Type} {q : Prog S ε α} {st : M.St} {out : List S.Cmd} {s : M.Seg α},
      q.Issues pre → (∀ c ∈ out, pre c) → M.seg p ans q st out = some s →
      s.rest.Issues pre ∧ (∀ f ∈ s.forked, f.Issues pre) ∧ ∀ c ∈ s.issued, pre c
  | _, .ret a, st, out, s, h, hout, hs => by
      cases hs
      exact ⟨h, by simp, hout⟩
  | _, .throw e, st, out, s, h, hout, hs => by
      cases hs
      exact ⟨h, by simp, hout⟩
  | _, .call c k, st, out, s, .call hc hk, hout, hs => by
      simp only [seg] at hs
      split at hs
      next hsync =>
        split at hs
        next => cases hs
        next r st' hstep =>
          refine seg_issues (hk r) ?_ hs
          intro c' hc'
          cases List.mem_append.mp hc' with
          | inl hc'' => exact hout c' hc''
          | inr hc'' => exact List.mem_singleton.mp hc'' ▸ hc
      next =>
        cases hs
        exact ⟨.call hc hk, by simp, hout⟩
  | _, .fork q r, st, out, s, .fork hq hr, hout, hs => by
      simp only [seg] at hs
      split at hs
      next => cases hs
      next s₁ hs₁ =>
        split at hs
        next => cases hs
        next s₂ hs₂ =>
          cases hs
          obtain ⟨hr₁, hf₁, hi₁⟩ := seg_issues hq hout hs₁
          obtain ⟨hr₂, hf₂, hi₂⟩ := seg_issues hr hi₁ hs₂
          refine ⟨hr₂, ?_, hi₂⟩
          intro f hf
          rcases List.mem_append.mp hf with hf | hf
          · exact hf₁ f hf
          · cases List.mem_cons.mp hf with
            | inl he => exact he ▸ hr₁
            | inr hf => exact hf₂ f hf

/-- If the program of every event meets the contract of that event, then so does
every command of every run. -/
theorem Reach.trace_issues {init : M.St → Prop} {pre : M.Ev → S.Cmd → Prop}
    (hbody : ∀ ev st st', M.enter ev st = some st' → (M.body ev).Issues (pre ev))
    {w : World M} (hw : M.Reach init w) :
    (∀ t ∈ w.pool, t.prog.Issues (pre t.ev)) ∧ ∀ x ∈ w.trace, pre x.1 x.2 := by
  induction hw with
  | start _ => exact ⟨by simp, by simp⟩
  | @step w w' ch _ hn ih =>
      obtain ⟨hpool, htrace⟩ := ih
      rcases next_cases hn with ⟨ev, st, hent, rfl⟩ | ⟨i, ev, q, ans, s, hq, hs, rfl⟩ |
        ⟨i, ev, c, k, a, r, st, hq, _, _, rfl⟩ | ⟨p, rfl⟩
      · refine ⟨?_, htrace⟩
        intro t ht
        cases List.mem_append.mp ht with
        | inl ht' => exact hpool t ht'
        | inr ht' => exact List.mem_singleton.mp ht' ▸ hbody ev _ _ hent
      · have hm := hpool _ (List.mem_of_getElem? hq)
        obtain ⟨hr, hf, hi⟩ := seg_issues hm (by simp) hs
        refine ⟨?_, ?_⟩
        · intro t ht
          rcases List.mem_append.mp ht with ht | ht
          · rcases List.mem_or_eq_of_mem_set ht with ht | rfl
            · exact hpool t ht
            · exact hr
          · obtain ⟨f, hf', rfl⟩ := List.mem_map.mp ht
            exact hf f hf'
        · intro x hx
          rcases List.mem_append.mp hx with hx | hx
          · exact htrace x hx
          · obtain ⟨c, hc, rfl⟩ := List.mem_map.mp hx
            exact hi c hc
      · obtain _ | _ | ⟨hc, hk⟩ := hpool _ (List.mem_of_getElem? hq)
        refine ⟨?_, ?_⟩
        · intro t ht
          rcases List.mem_or_eq_of_mem_set ht with ht | rfl
          · exact hpool t ht
          · exact hk r
        · intro x hx
          rcases List.mem_append.mp hx with hx | hx
          · exact htrace x hx
          · rw [List.mem_singleton.mp hx]
            exact hc
      · exact ⟨fun t ht => hpool t (List.mem_of_mem_filter ht), htrace⟩

/-! ## What the programs in flight look like -/

/-- A property of programs in flight that holds of every body, and that a segment and an answer
keep, holds throughout a run. -/
theorem Reach.pool_shape {init : M.St → Prop} {P : M.Ev → Prog S ε Unit → Bool → Prop}
    (hbody : ∀ ev, P ev (M.body ev) true)
    (hseg : ∀ ev q ans st s, P ev q true → M.seg (M.pid ev) ans q st [] = some s →
      P ev s.rest false ∧ ∀ f ∈ s.forked, P ev f false)
    (hreply : ∀ ev c k r, P ev (.call c k) false → M.sync c = false → P ev (k r) true)
    {w : World M} (hw : M.Reach init w) : ∀ t ∈ w.pool, P t.ev t.prog t.ready := by
  induction hw with
  | start _ => simp
  | @step w w' ch _ hn ih =>
      intro t ht
      rcases next_cases hn with ⟨ev, st, _, rfl⟩ | ⟨i, ev, q, ans, s, hq, hs, rfl⟩ |
        ⟨i, ev, c, k, a, r, st, hq, hc, _, rfl⟩ | ⟨p, rfl⟩
      · cases List.mem_append.mp ht with
        | inl ht' => exact ih t ht'
        | inr ht' => exact List.mem_singleton.mp ht' ▸ hbody ev
      · obtain ⟨hr, hf⟩ := hseg ev q ans w.st s (ih _ (List.mem_of_getElem? hq)) hs
        rcases List.mem_append.mp ht with ht | ht
        · rcases List.mem_or_eq_of_mem_set ht with ht | rfl
          · exact ih t ht
          · exact hr
        · obtain ⟨f, hf', rfl⟩ := List.mem_map.mp ht
          exact hf f hf'
      · rcases List.mem_or_eq_of_mem_set ht with ht | rfl
        · exact ih t ht
        · exact hreply ev c k r (ih _ (List.mem_of_getElem? hq)) hc
      · exact ih t (List.mem_of_mem_filter ht)

end Machine

end Async
