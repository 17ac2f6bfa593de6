import NexusErebus.Async.Pool

/-!
# A process that starts up

A process is down, then loads, then serves.  While it is down it has no programs.  An event
starts it up, and while it loads the program of that event is the only one of the process, so
what it finds is what it has left itself, but for what the other processes do.  Its last command
brings the process up.  Only then events let other programs of the process in.  When the
process stops, it is down again.

`Kept` are the conditions on the commands of the programs, and `reach_phase` is the invariant
rule: every world is in one of the three phases.
-/

namespace Async

variable {S : Sig} {ε : Type}

/-- A process with its phases. -/
structure Startup (M : Machine S ε) where
  proc : M.Pid
  /-- The events that start the process up. -/
  boots : M.Ev → Prop
  down : M.St → Prop
  loading : M.St → Prop
  up : M.St → Prop
  /-- The commands of the programs of an event that starts nothing up. -/
  pre : M.Ev → S.Cmd → Prop

namespace Startup

variable {M : Machine S ε} (U : Startup M)

/-- The state may change, but the phase does not. -/
def Same (st st' : M.St) : Prop :=
  (U.down st → U.down st') ∧ (U.loading st → U.loading st') ∧ (U.up st → U.up st')

/-- The program loads, and what it returns satisfies `Q`. -/
inductive Loads : {α : Type} → Prog S ε α → (α → Prop) → Prop
  | ret {α : Type} {a : α} {Q : α → Prop} (h : Q a) : Loads (.ret a) Q
  | throw {α : Type} {Q : α → Prop} (e : ε) : Loads (.throw e) Q
  | call {α : Type} {c : S.Cmd} {k : S.Res c → Prog S ε α} {Q : α → Prop}
      (hl : ∀ st a r st', U.loading st → M.step U.proc c st a = some (r, st') → U.loading st')
      (hk : ∀ st a r st', U.loading st → M.step U.proc c st a = some (r, st') → Loads (k r) Q) :
      Loads (.call c k) Q

/-- What is left of the program that starts the process up. -/
inductive Boots : Prog S ε Unit → Prop
  | ended {q : Prog S ε Unit} (h : q.ended = true) : Boots q
  | load {c : S.Cmd} {k : S.Res c → Prog S ε Unit}
      (hl : ∀ st a r st', U.loading st → M.step U.proc c st a = some (r, st') → U.loading st')
      (hk : ∀ st a r st', U.loading st → M.step U.proc c st a = some (r, st') → Boots (k r)) :
      Boots (.call c k)
  | last {c : S.Cmd} {k : S.Res c → Prog S ε Unit}
      (hl : ∀ st a r st', U.loading st → M.step U.proc c st a = some (r, st') → U.up st')
      (hk : ∀ r, (k r).ended = true) : Boots (.call c k)

variable {U}

/-! ## Rules -/

theorem loads_bind {β : Type} {Q : β → Prop} :
    ∀ {α : Type} {q : Prog S ε α} {f : α → Prog S ε β} {P : α → Prop}, U.Loads q P →
      (∀ a, P a → U.Loads (f a) Q) → U.Loads (q.bind f) Q
  | _, _, _, _, .ret h, hf => hf _ h
  | _, _, _, _, .throw e, _ => .throw e
  | _, _, _, _, .call hl hk, hf =>
      .call hl fun st a r st' hst hs => loads_bind (hk st a r st' hst hs) hf

theorem boots_bind :
    ∀ {α : Type} {q : Prog S ε α} {f : α → Prog S ε Unit} {P : α → Prop}, U.Loads q P →
      (∀ a, P a → U.Boots (f a)) → U.Boots (q.bind f)
  | _, _, _, _, .ret h, hf => hf _ h
  | _, _, _, _, .throw e, _ => .ended rfl
  | _, _, _, _, .call hl hk, hf =>
      .load hl fun st a r st' hst hs => boots_bind (hk st a r st' hst hs) hf

theorem loads_ask {c : S.Cmd} {Q : S.Res c → Prop}
    (h : ∀ st a r st', U.loading st → M.step U.proc c st a = some (r, st') → U.loading st' ∧ Q r) :
    U.Loads (Prog.ask (ε := ε) c) Q :=
  .call (fun st a r st' hst hs => (h st a r st' hst hs).1)
    fun st a r st' hst hs => .ret (h st a r st' hst hs).2

theorem loads_forEach {α : Type} {f : α → Prog S ε Unit} (hf : ∀ a, U.Loads (f a) fun _ => True) :
    ∀ as : List α, U.Loads (Prog.forEach f as) fun _ => True
  | [] => .ret trivial
  | a :: as => loads_bind (hf a) fun _ _ => loads_forEach hf as

/-! ## Segments -/

/-- A segment keeps what its commands keep. -/
theorem seg_keeps {p : M.Pid} {pre : S.Cmd → Prop} {P : M.St → Prop}
    (hstep : ∀ c st a r st', pre c → P st → M.step p c st a = some (r, st') → P st')
    {ans : Nat → (c : S.Cmd) → M.Ans c} :
    ∀ {α : Type} {q : Prog S ε α} {st : M.St} {out : List S.Cmd} {s : M.Seg α},
      q.Issues pre → P st → M.seg p ans q st out = some s → P s.st
  | _, .ret a, _, _, _, _, hp, hs => by
      cases hs
      exact hp
  | _, .throw e, _, _, _, _, hp, hs => by
      cases hs
      exact hp
  | _, .call c k, st, out, s, .call hc hk, hp, hs => by
      cases hsync : M.sync c with
      | true =>
          obtain ⟨r, st', hst', hs⟩ := Machine.seg_call_sync hsync hs
          exact seg_keeps hstep (hk r) (hstep c st _ r st' hc hp hst') hs
      | false =>
          rw [Machine.seg_call_wait hsync] at hs
          cases hs
          exact hp
  | _, .fork q r, st, out, s, .fork hq hr, hp, hs => by
      obtain ⟨s₁, s₂, hs₁, hs₂, rfl⟩ := Machine.seg_fork hs
      have hp₂ : P s₂.st := seg_keeps hstep hr (seg_keeps hstep hq hp hs₁) hs₂
      exact hp₂

/-- A segment of a program at its end. -/
theorem seg_ended {p : M.Pid} {ans : Nat → (c : S.Cmd) → M.Ans c} {q : Prog S ε Unit} {st : M.St}
    {out : List S.Cmd} {s : M.Seg Unit} (he : q.ended = true) (hs : M.seg p ans q st out = some s) :
    s.forked = [] ∧ s.st = st ∧ s.rest.ended = true := by
  cases q with
  | ret a => cases hs; exact ⟨rfl, rfl, rfl⟩
  | throw e => cases hs; exact ⟨rfl, rfl, rfl⟩
  | call | fork => cases he

/-- A segment of the program that starts the process up.  It forks nothing. -/
theorem seg_boots {ans : Nat → (c : S.Cmd) → M.Ans c} {q : Prog S ε Unit} (hq : U.Boots q) :
    ∀ {st : M.St} {out : List S.Cmd} {s : M.Seg Unit}, U.loading st →
      M.seg U.proc ans q st out = some s →
      s.forked = [] ∧ ((U.loading s.st ∧ U.Boots s.rest) ∨ (U.up s.st ∧ s.rest.ended = true)) := by
  induction hq with
  | ended he =>
      intro st out s hst hs
      obtain ⟨hf, rfl, hr⟩ := seg_ended he hs
      exact ⟨hf, .inl ⟨hst, .ended hr⟩⟩
  | @load c k hl hk ih =>
      intro st out s hst hs
      cases hsync : M.sync c with
      | true =>
          obtain ⟨r, st', hst', hs⟩ := Machine.seg_call_sync hsync hs
          exact ih st _ r st' hst hst' (hl st _ r st' hst hst') hs
      | false =>
          rw [Machine.seg_call_wait hsync] at hs
          cases hs
          exact ⟨rfl, .inl ⟨hst, .load hl hk⟩⟩
  | @last c k hl hk =>
      intro st out s hst hs
      cases hsync : M.sync c with
      | true =>
          obtain ⟨r, st', hst', hs⟩ := Machine.seg_call_sync hsync hs
          obtain ⟨hf, hst'', hr⟩ := seg_ended (hk r) hs
          exact ⟨hf, .inr ⟨hst'' ▸ hl st _ r st' hst hst', hr⟩⟩
      | false =>
          rw [Machine.seg_call_wait hsync] at hs
          cases hs
          exact ⟨rfl, .inl ⟨hst, .last hl hk⟩⟩

/-! ## Runs -/

variable (U)

/-- What has to be shown of the events and the commands. -/
structure Kept : Prop where
  enter_boot : ∀ ev st st', U.boots ev → M.enter ev st = some st' →
    ¬ U.loading st ∧ ¬ U.up st ∧ (U.down st → U.loading st')
  enter_own : ∀ ev st st', M.pid ev = U.proc → ¬ U.boots ev → M.enter ev st = some st' →
    ¬ U.down st ∧ ¬ U.loading st ∧ (U.up st → U.up st')
  enter_other : ∀ ev st st', M.pid ev ≠ U.proc → M.enter ev st = some st' → U.Same st st'
  body_boot : ∀ ev, U.boots ev → M.pid ev = U.proc ∧ U.Boots (M.body ev)
  body : ∀ ev, ¬ U.boots ev → (M.body ev).Issues (U.pre ev)
  step_own : ∀ ev c st a r st', M.pid ev = U.proc → U.pre ev c → U.up st →
    M.step (M.pid ev) c st a = some (r, st') → U.up st'
  step_other : ∀ ev c st a r st', M.pid ev ≠ U.proc → U.pre ev c →
    M.step (M.pid ev) c st a = some (r, st') → U.Same st st'
  crash_own : ∀ st, U.down st ∨ U.loading st ∨ U.up st → U.down (M.crash U.proc st)
  crash_other : ∀ p st, p ≠ U.proc → U.Same st (M.crash p st)

/-- A program of the process that serves, or is at its end. -/
def Serves (t : Task M) : Prop := t.prog.ended = true ∨ t.prog.Issues (U.pre t.ev)

/-- At most one task is of the process. -/
def Alone (pool : List (Task M)) : Prop :=
  (pool.map Task.ev).Pairwise fun ev ev' => M.pid ev = U.proc → M.pid ev' ≠ U.proc

/-- The phase of a world. -/
inductive Phase (w : World M) : Prop
  | down (hst : U.down w.st) (hnone : ∀ t ∈ w.pool, M.pid t.ev ≠ U.proc)
  | loading (hst : U.loading w.st)
      (hboot : ∀ t ∈ w.pool, M.pid t.ev = U.proc → U.boots t.ev ∧ U.Boots t.prog)
      (halone : U.Alone w.pool)
  | up (hst : U.up w.st) (hserve : ∀ t ∈ w.pool, M.pid t.ev = U.proc → U.Serves t)

variable {U}

/-- The tasks of the other processes go by their contracts. -/
def OthersServe (U : Startup M) (w : World M) : Prop :=
  ∀ t ∈ w.pool, M.pid t.ev ≠ U.proc → t.prog.Issues (U.pre t.ev)

theorem mem_set_cases {l : List (Task M)} {i : Nat} {t t' : Task M} (h : t ∈ l.set i t') :
    t = t' ∨ ∃ j, j ≠ i ∧ l[j]? = some t := by
  obtain ⟨j, hj⟩ := List.mem_iff_getElem?.mp h
  rw [List.getElem?_set] at hj
  split at hj
  · split at hj
    · exact .inl (Option.some.inj hj).symm
    · cases hj
  next hne => exact .inr ⟨j, fun he => hne he.symm, hj⟩

theorem Alone.eq {pool : List (Task M)} (h : U.Alone pool) {i j : Nat} {t t' : Task M}
    (hi : pool[i]? = some t) (hj : pool[j]? = some t') (ht : M.pid t.ev = U.proc)
    (ht' : M.pid t'.ev = U.proc) : i = j := by
  rw [Alone, List.pairwise_map] at h
  obtain ⟨hi', rfl⟩ := List.getElem?_eq_some_iff.mp hi
  obtain ⟨hj', rfl⟩ := List.getElem?_eq_some_iff.mp hj
  rcases Nat.lt_trichotomy i j with hlt | he | hlt
  · exact absurd ht' (List.pairwise_iff_getElem.mp h i j hi' hj' hlt ht)
  · exact he
  · exact absurd ht (List.pairwise_iff_getElem.mp h j i hj' hi' hlt ht')

theorem Alone.append {pool new : List (Task M)} (h : U.Alone pool)
    (hnew : ∀ t ∈ new, M.pid t.ev ≠ U.proc) : U.Alone (pool ++ new) := by
  have hev : ∀ ev ∈ new.map Task.ev, M.pid ev ≠ U.proc := by
    intro ev hev
    obtain ⟨t, ht, rfl⟩ := List.mem_map.mp hev
    exact hnew t ht
  rw [Alone, List.map_append]
  refine List.pairwise_append.mpr ⟨h, ?_, fun _ _ ev hev' _ => hev ev hev'⟩
  exact List.pairwise_of_forall_mem_list fun _ _ ev hev' _ => hev ev hev'

/-- A task takes a step. -/
theorem Alone.set {pool : List (Task M)} (h : U.Alone pool) {i : Nat} {t t' : Task M}
    (hi : pool[i]? = some t) (hev : t'.ev = t.ev) : U.Alone (pool.set i t') := by
  obtain ⟨hlt, rfl⟩ := List.getElem?_eq_some_iff.mp hi
  have hmap : (pool.set i t').map Task.ev = pool.map Task.ev := by
    rw [List.map_set, hev, ← List.getElem_map Task.ev (h := by simpa using hlt),
      List.set_getElem_self]
  rwa [Alone, hmap]

/-- A change of state that leaves the phase, with tasks of other processes that come and go. -/
theorem Phase.of_same {w w' : World M} (hp : U.Phase w) (hs : U.Same w.st w'.st)
    (hmem : ∀ t ∈ w'.pool, M.pid t.ev = U.proc → t ∈ w.pool)
    (halone : U.Alone w.pool → U.Alone w'.pool) : U.Phase w' := by
  cases hp with
  | down hst hnone =>
      exact .down (hs.1 hst) fun t ht hev => hnone t (hmem t ht hev) hev
  | loading hst hboot hone =>
      exact .loading (hs.2.1 hst) (fun t ht hev => hboot t (hmem t ht hev) hev) (halone hone)
  | up hst hserve => exact .up (hs.2.2 hst) fun t ht hev => hserve t (hmem t ht hev) hev

theorem Same.refl (st : M.St) : U.Same st st := ⟨id, id, id⟩

theorem Same.trans {st st₁ st₂ : M.St} (h : U.Same st st₁) (h' : U.Same st₁ st₂) :
    U.Same st st₂ :=
  ⟨h'.1 ∘ h.1, h'.2.1 ∘ h.2.1, h'.2.2 ∘ h.2.2⟩

theorem Phase.any {w : World M} (hp : U.Phase w) : U.down w.st ∨ U.loading w.st ∨ U.up w.st := by
  cases hp with
  | down hst _ => exact .inl hst
  | loading hst _ _ => exact .inr (.inl hst)
  | up hst _ => exact .inr (.inr hst)

theorem Phase.enter (hU : U.Kept) {w : World M} {ev : M.Ev} {st : M.St} (hp : U.Phase w)
    (he : M.enter ev w.st = some st) :
    U.Phase (Machine.afterStart w ev st) := by
  have hmem : ∀ t ∈ (Machine.afterStart w ev st).pool, t ∈ w.pool ∨ t = ⟨ev, M.body ev, true⟩ := by
    intro t ht
    exact (List.mem_append.mp ht).imp id List.mem_singleton.mp
  by_cases hb : U.boots ev
  · obtain ⟨hl, hup, hd⟩ := hU.enter_boot ev w.st st hb he
    cases hp with
    | down hst hnone =>
        refine .loading (hd hst) (fun t ht hev => ?_) ?_
        · rcases hmem t ht with ht | rfl
          · exact absurd hev (hnone t ht)
          · exact ⟨hb, (hU.body_boot ev hb).2⟩
        · rw [Alone, Machine.afterStart, List.map_append, List.map_singleton]
          refine List.pairwise_append.mpr ⟨?_, by simp, ?_⟩
          · exact List.pairwise_map.mpr (List.pairwise_of_forall_mem_list fun t ht _ _ hev =>
              absurd hev (hnone t ht))
          · intro ev' hev' _ _ hev
            obtain ⟨t, ht, rfl⟩ := List.mem_map.mp hev'
            exact absurd hev (hnone t ht)
    | loading hst _ _ => exact absurd hst hl
    | up hst _ => exact absurd hst hup
  · by_cases hev : M.pid ev = U.proc
    · obtain ⟨hd, hl, hup⟩ := hU.enter_own ev w.st st hev hb he
      cases hp with
      | down hst _ => exact absurd hst hd
      | loading hst _ _ => exact absurd hst hl
      | up hst hserve =>
          refine .up (hup hst) fun t ht hev' => ?_
          rcases hmem t ht with ht | rfl
          · exact hserve t ht hev'
          · exact .inr (hU.body ev hb)
    · refine hp.of_same (hU.enter_other ev w.st st hev he) (fun t ht hev' => ?_) fun h =>
        h.append (by simpa using hev)
      rcases hmem t ht with ht | rfl
      · exact ht
      · exact absurd hev' hev

/-- A task of another process takes a step. -/
theorem Phase.other {w : World M} {i : Nat} {t t' : Task M} {new : List (Task M)} {st : M.St}
    {trace : List (M.Ev × S.Cmd)} (hp : U.Phase w) (hi : w.pool[i]? = some t)
    (hev : M.pid t.ev ≠ U.proc) (hev' : t'.ev = t.ev) (hnew : ∀ u ∈ new, u.ev = t.ev)
    (hs : U.Same w.st st) : U.Phase ⟨st, w.pool.set i t' ++ new, trace⟩ := by
  refine hp.of_same hs (fun u hu hown => ?_) fun h =>
    (h.set hi hev').append fun u hu => hnew u hu ▸ hev
  rcases List.mem_append.mp hu with hu | hu
  · rcases List.mem_or_eq_of_mem_set hu with hu | rfl
    · exact hu
    · exact absurd (hev' ▸ hown) hev
  · exact absurd (hnew u hu ▸ hown) hev

/-- The task that starts the process up takes a step. -/
theorem Phase.boot {w : World M} {i : Nat} {t t' : Task M} {st : M.St}
    {trace : List (M.Ev × S.Cmd)}
    (hboot : ∀ t ∈ w.pool, M.pid t.ev = U.proc → U.boots t.ev ∧ U.Boots t.prog)
    (halone : U.Alone w.pool) (hi : w.pool[i]? = some t) (hev : M.pid t.ev = U.proc)
    (hev' : t'.ev = t.ev)
    (hnext : (U.loading st ∧ U.Boots t'.prog) ∨ (U.up st ∧ t'.prog.ended = true)) :
    U.Phase ⟨st, w.pool.set i t', trace⟩ := by
  have hother : ∀ u ∈ w.pool.set i t', M.pid u.ev = U.proc → u = t' := by
    intro u hu hown
    rcases mem_set_cases hu with he | ⟨j, hj, hu⟩
    · exact he
    · exact absurd (halone.eq hu hi hown hev) hj
  have hb := (hboot t (List.mem_of_getElem? hi) hev).1
  rcases hnext with ⟨hl, hq⟩ | ⟨hup, he⟩
  · refine .loading hl (fun u hu hown => ?_) (halone.set hi hev')
    rw [hother u hu hown]
    exact ⟨hev' ▸ hb, hq⟩
  · refine .up hup fun u hu hown => ?_
    rw [hother u hu hown]
    exact .inl he

/-- A task of the process takes a step while the process serves. -/
theorem Phase.serve {w : World M} {i : Nat} {t' : Task M} {new : List (Task M)} {st : M.St}
    {trace : List (M.Ev × S.Cmd)} (hserve : ∀ t ∈ w.pool, M.pid t.ev = U.proc → U.Serves t)
    (hst : U.up st) (ht' : U.Serves t') (hnew : ∀ u ∈ new, U.Serves u) :
    U.Phase ⟨st, w.pool.set i t' ++ new, trace⟩ := by
  refine .up hst fun u hu hown => ?_
  rcases List.mem_append.mp hu with hu | hu
  · rcases List.mem_or_eq_of_mem_set hu with hu | rfl
    · exact hserve u hu hown
    · exact ht'
  · exact hnew u hu

theorem OthersServe.set {w : World M} (h : U.OthersServe w) {i : Nat} {t' : Task M}
    {new : List (Task M)} {st : M.St} {trace : List (M.Ev × S.Cmd)}
    (hnew : ∀ u, u = t' ∨ u ∈ new → M.pid u.ev ≠ U.proc → u.prog.Issues (U.pre u.ev)) :
    U.OthersServe ⟨st, w.pool.set i t' ++ new, trace⟩ := by
  intro u hu hev
  rcases List.mem_append.mp hu with hu | hu
  · rcases List.mem_or_eq_of_mem_set hu with hu | rfl
    · exact h u hu hev
    · exact hnew _ (.inl rfl) hev
  · exact hnew u (.inr hu) hev

/-- A segment of a task. -/
theorem Phase.resume (hU : U.Kept) {w : World M} {i : Nat} {ev : M.Ev} {q : Prog S ε Unit}
    {ans : Nat → (c : S.Cmd) → M.Ans c} {s : M.Seg Unit} (hp : U.Phase w)
    (hothers : U.OthersServe w) (hi : w.pool[i]? = some ⟨ev, q, true⟩)
    (hs : M.seg (M.pid ev) ans q w.st [] = some s) :
    U.Phase (Machine.afterResume w i ev s) ∧ U.OthersServe (Machine.afterResume w i ev s) := by
  have hmem := List.mem_of_getElem? hi
  have hforked : ∀ u ∈ s.forked.map (fun f => (⟨ev, f, false⟩ : Task M)), u.ev = ev := by
    intro u hu
    obtain ⟨f, -, rfl⟩ := List.mem_map.mp hu
    rfl
  by_cases hev : M.pid ev = U.proc
  · refine ⟨?_, hothers.set fun u hu hne => ?_⟩
    · cases hp with
      | down _ hnone => exact absurd hev (hnone _ hmem)
      | loading hst hboot halone =>
          obtain ⟨-, hb⟩ := hboot _ hmem hev
          rw [hev] at hs
          obtain ⟨hnil, hnext⟩ := seg_boots hb hst hs
          rw [Machine.afterResume, hnil, List.map_nil, List.append_nil]
          exact Phase.boot hboot halone hi hev rfl hnext
      | up hst hserve =>
          rcases hserve _ hmem hev with he | hq
          · obtain ⟨hnil, hst', hr⟩ := seg_ended he hs
            exact Phase.serve hserve (hst' ▸ hst) (.inl hr) (by simp [hnil])
          · have hup := seg_keeps (fun c st a r st' hc hst hs =>
              hU.step_own ev c st a r st' hev hc hst hs) hq hst hs
            obtain ⟨hr, hf, -⟩ := Machine.seg_issues hq (by simp) hs
            refine Phase.serve hserve hup (.inr hr) fun u hu => ?_
            obtain ⟨f, hf', rfl⟩ := List.mem_map.mp hu
            exact .inr (hf f hf')
    · rcases hu with rfl | hu
      · exact absurd hev hne
      · exact absurd (hforked u hu ▸ hev) hne
  · have hq := hothers _ hmem hev
    have hsame : U.Same w.st s.st := seg_keeps (P := U.Same w.st)
      (fun c st a r st' hc hst hs => hst.trans (hU.step_other ev c st a r st' hev hc hs)) hq
      (.refl _) hs
    obtain ⟨hr, hf, -⟩ := Machine.seg_issues hq (by simp) hs
    refine ⟨hp.other hi hev rfl hforked hsame, hothers.set fun u hu _ => ?_⟩
    rcases hu with rfl | hu
    · exact hr
    · obtain ⟨f, hf', rfl⟩ := List.mem_map.mp hu
      exact hf f hf'

/-- An answer to a task. -/
theorem Phase.reply (hU : U.Kept) {w : World M} {i : Nat} {ev : M.Ev} {c : S.Cmd}
    {k : S.Res c → Prog S ε Unit} {a : M.Ans c} {r : S.Res c} {st : M.St} (hp : U.Phase w)
    (hothers : U.OthersServe w) (hi : w.pool[i]? = some ⟨ev, .call c k, false⟩)
    (hs : M.step (M.pid ev) c w.st a = some (r, st)) :
    U.Phase (Machine.afterReply w i ev c (k r) st) ∧
      U.OthersServe (Machine.afterReply w i ev c (k r) st) := by
  have hmem := List.mem_of_getElem? hi
  have hw : Machine.afterReply w i ev c (k r) st =
      ⟨st, w.pool.set i ⟨ev, k r, true⟩ ++ [], w.trace ++ [(ev, c)]⟩ := by
    simp [Machine.afterReply]
  by_cases hev : M.pid ev = U.proc
  · refine ⟨?_, ?_⟩
    · cases hp with
      | down _ hnone => exact absurd hev (hnone _ hmem)
      | loading hst hboot halone =>
          obtain ⟨-, hb⟩ := hboot _ hmem hev
          rw [hev] at hs
          refine Phase.boot hboot halone hi hev rfl ?_
          cases hb with
          | ended he => cases he
          | load hl hk => exact .inl ⟨hl w.st a r st hst hs, hk w.st a r st hst hs⟩
          | last hl hk => exact .inr ⟨hl w.st a r st hst hs, hk r⟩
      | up hst hserve =>
          rw [hw]
          rcases hserve _ hmem hev with he | hq
          · cases he
          · obtain ⟨hc, hk⟩ := hq.of_call
            exact Phase.serve hserve (hU.step_own ev c w.st a r st hev hc hst hs) (.inr (hk r))
              (by simp)
    · rw [hw]
      refine hothers.set fun u hu hne => ?_
      rcases hu with rfl | hu
      · exact absurd hev hne
      · cases hu
  · obtain ⟨hc, hk⟩ := (hothers _ hmem hev).of_call
    rw [hw]
    refine ⟨hp.other hi hev rfl (by simp) (hU.step_other ev c w.st a r st hev hc hs), ?_⟩
    refine hothers.set fun u hu _ => ?_
    rcases hu with rfl | hu
    · exact hk r
    · cases hu

/-- The invariant rule. -/
theorem reach_phase (hU : U.Kept) {init : M.St → Prop} (hinit : ∀ st, init st → U.down st)
    {w : World M} (hw : M.Reach init w) : U.Phase w ∧ U.OthersServe w := by
  induction hw with
  | start h => exact ⟨.down (hinit _ h) (by simp), by simp [OthersServe]⟩
  | @step w w' ch _ hn ih =>
      obtain ⟨hphase, hothers⟩ := ih
      rcases Machine.next_cases hn with ⟨ev, st, hent, rfl⟩ | ⟨i, ev, q, ans, s, hq, hs, rfl⟩ |
        ⟨i, ev, c, k, a, r, st, hq, hc, hs, rfl⟩ | ⟨p, rfl⟩
      · refine ⟨hphase.enter hU hent, fun t ht hev => ?_⟩
        rcases List.mem_append.mp ht with ht | ht
        · exact hothers t ht hev
        · cases List.mem_singleton.mp ht
          exact hU.body ev fun hb => hev (hU.body_boot ev hb).1
      · exact hphase.resume hU hothers hq hs
      · exact hphase.reply hU hothers hq hs
      · have hmem : ∀ t ∈ (Machine.afterCrash w p).pool, t ∈ w.pool ∧ M.pid t.ev ≠ p := by
          intro t ht
          exact ⟨List.mem_of_mem_filter ht, by simpa using (List.mem_filter.mp ht).2⟩
        refine ⟨?_, fun t ht => hothers t (hmem t ht).1⟩
        by_cases hp : p = U.proc
        · subst hp
          exact .down (hU.crash_own w.st hphase.any) fun t ht => (hmem t ht).2
        · refine hphase.of_same (hU.crash_other p w.st hp) (fun t ht _ => (hmem t ht).1) fun h => ?_
          exact h.sublist (List.filter_sublist.map _)

end Startup

end Async
