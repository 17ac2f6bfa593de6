import NexusErebus.Async.Pool

/-!
# Invariants of interleaved programs

A rely and guarantee argument for the machines of `Pool`.  It is about three
things.

* `inv` is an invariant of the state.  Every command keeps it.
* `rel p` is what a program of process `p` may rely on while it waits: however the
  state changes meanwhile, it goes up in this preorder.  Every command, of any
  process, moves every such preorder up.
* `Safe p q Q st` says that the program `q` of process `p`, resumed in `st`, does
  its part from there to its end, and that `Q` holds of what it returns.
  `SafeUpTo E` says besides that it throws only errors of `E`.

A command that is answered on the spot is carried out in the state the program
stands in.  A command that waits is carried out in any later state, and the
program goes on from any state later still.  `reach_inv` is the invariant rule:
if the programs of all events are safe and a crash keeps `inv`, then `inv` holds
in every reachable world, and no program has thrown an error it must not throw.
-/

namespace Async

variable {S : Sig} {ε : Type}

/-- What the invariant argument is about. -/
structure Rely (M : Machine S ε) where
  /-- The invariant. -/
  inv : M.St → Prop
  /-- What the programs of a process rely on. -/
  rel : M.Pid → M.St → M.St → Prop
  rel_refl : ∀ p st, rel p st st
  rel_trans : ∀ {p st₁ st₂ st₃}, rel p st₁ st₂ → rel p st₂ st₃ → rel p st₁ st₃

namespace Rely

variable {M : Machine S ε} (R : Rely M)

/-- A change of state that keeps the invariant and that every process allows. -/
def Moves (st st' : M.St) : Prop := R.inv st' ∧ ∀ p, R.rel p st st'

/-- The program does its part when it is resumed in `st`, and throws only errors of `E`. -/
inductive SafeUpTo (E : ε → Prop) (p : M.Pid) :
    {α : Type} → Prog S ε α → (α → M.St → Prop) → M.St → Prop
  | ret {α : Type} {a : α} {Q : α → M.St → Prop} {st : M.St} (h : Q a st) :
      SafeUpTo E p (.ret a) Q st
  | throw {α : Type} {e : ε} {Q : α → M.St → Prop} {st : M.St} (h : E e := by trivial) :
      SafeUpTo E p (.throw (α := α) e) Q st
  | sync {α : Type} {c : S.Cmd} {k : S.Res c → Prog S ε α} {Q : α → M.St → Prop} {st : M.St}
      (hc : M.sync c = true)
      (hm : ∀ a r st', M.step p c st a = some (r, st') → R.Moves st st')
      (hk : ∀ a r st', M.step p c st a = some (r, st') → SafeUpTo E p (k r) Q st') :
      SafeUpTo E p (.call c k) Q st
  | wait {α : Type} {c : S.Cmd} {k : S.Res c → Prog S ε α} {Q : α → M.St → Prop} {st : M.St}
      (hc : M.sync c = false)
      (hm : ∀ st₁, R.rel p st st₁ → R.inv st₁ → ∀ a r st₂, M.step p c st₁ a = some (r, st₂) →
        R.Moves st₁ st₂)
      (hk : ∀ st₁, R.rel p st st₁ → R.inv st₁ → ∀ a r st₂, M.step p c st₁ a = some (r, st₂) →
        ∀ st₃, R.rel p st₂ st₃ → R.inv st₃ → SafeUpTo E p (k r) Q st₃) :
      SafeUpTo E p (.call c k) Q st
  | fork {α : Type} {q : Prog S ε Unit} {r : Prog S ε α} {Q : α → M.St → Prop} {st : M.St}
      (hq : SafeUpTo E p q (fun _ _ => True) st)
      (hr : ∀ st', R.rel p st st' → R.inv st' → SafeUpTo E p r Q st') :
      SafeUpTo E p (.fork q r) Q st

/-- The program does its part when it is resumed in `st`. -/
abbrev Safe (p : M.Pid) {α : Type} (q : Prog S ε α) (Q : α → M.St → Prop) (st : M.St) : Prop :=
  R.SafeUpTo (fun _ => True) p q Q st

variable {R} {p : M.Pid} {E : ε → Prop}

/-! ## Rules -/

theorem safe_mono : ∀ {α : Type} {q : Prog S ε α} {Q Q' : α → M.St → Prop} {st : M.St},
    R.SafeUpTo E p q Q st → (∀ a st', Q a st' → Q' a st') → R.SafeUpTo E p q Q' st
  | _, _, _, _, _, .ret h, hQ => .ret (hQ _ _ h)
  | _, _, _, _, _, .throw h, _ => .throw h
  | _, _, _, _, _, .sync hc hm hk, hQ =>
      .sync hc hm fun a r st' hs => safe_mono (hk a r st' hs) hQ
  | _, _, _, _, _, .wait hc hm hk, hQ =>
      .wait hc hm fun st₁ h₁ hi₁ a r st₂ hs st₃ h₃ hi₃ =>
        safe_mono (hk st₁ h₁ hi₁ a r st₂ hs st₃ h₃ hi₃) hQ
  | _, _, _, _, _, .fork hq hr, hQ => .fork hq fun st' h' hi' => safe_mono (hr st' h' hi') hQ

/-- The rule of sequencing. -/
theorem safe_bind {β : Type} {Q : β → M.St → Prop} :
    ∀ {α : Type} {q : Prog S ε α} {f : α → Prog S ε β} {P : α → M.St → Prop} {st : M.St},
      R.inv st → R.SafeUpTo E p q P st → (∀ a st', R.inv st' → P a st' → R.SafeUpTo E p (f a) Q st') →
      R.SafeUpTo E p (q.bind f) Q st
  | _, _, _, _, _, hi, .ret h, hf => hf _ _ hi h
  | _, _, _, _, _, _, .throw h, _ => .throw h
  | _, _, _, _, _, _, .sync hc hm hk, hf =>
      .sync hc hm fun a r st' hs => safe_bind (hm a r st' hs).1 (hk a r st' hs) hf
  | _, _, _, _, _, _, .wait hc hm hk, hf =>
      .wait hc hm fun st₁ h₁ hi₁ a r st₂ hs st₃ h₃ hi₃ =>
        safe_bind hi₃ (hk st₁ h₁ hi₁ a r st₂ hs st₃ h₃ hi₃) hf
  | _, _, _, _, _, _, .fork hq hr, hf =>
      .fork hq fun st' h' hi' => safe_bind hi' (hr st' h' hi') hf

/-- The rule of error handling.  The handler may start in any later state of the
invariant. -/
theorem safe_tryCatch_rel :
    ∀ {α : Type} {q : Prog S ε α} {h : ε → Prog S ε α} {Q : α → M.St → Prop} {st : M.St},
      R.inv st → R.SafeUpTo E p q Q st →
      (∀ e st', R.rel p st st' → R.inv st' → R.SafeUpTo E p (h e) Q st') →
      R.SafeUpTo E p (q.tryCatch h) Q st
  | _, _, _, _, _, _, .ret h, _ => .ret h
  | _, _, _, _, st, hi, .throw _, hh => hh _ _ (R.rel_refl p st) hi
  | _, _, _, _, _, _, .sync hc hm hk, hh =>
      .sync hc hm fun a r st' hs => safe_tryCatch_rel (hm a r st' hs).1 (hk a r st' hs)
        fun e st'' h'' => hh e st'' (R.rel_trans ((hm a r st' hs).2 p) h'')
  | _, _, _, _, _, _, .wait hc hm hk, hh =>
      .wait hc hm fun st₁ h₁ hi₁ a r st₂ hs st₃ h₃ hi₃ =>
        safe_tryCatch_rel hi₃ (hk st₁ h₁ hi₁ a r st₂ hs st₃ h₃ hi₃) fun e st'' h'' =>
          hh e st'' (R.rel_trans h₁ (R.rel_trans ((hm st₁ h₁ hi₁ a r st₂ hs).2 p)
            (R.rel_trans h₃ h'')))
  | _, _, _, _, _, _, .fork hq hr, hh =>
      .fork hq fun st' h' hi' => safe_tryCatch_rel hi' (hr st' h' hi') fun e st'' h'' =>
        hh e st'' (R.rel_trans h' h'')

theorem safe_tryCatch {α : Type} {q : Prog S ε α} {h : ε → Prog S ε α} {Q : α → M.St → Prop}
    {st : M.St} (hi : R.inv st) (hq : R.SafeUpTo E p q Q st)
    (hh : ∀ e st', R.inv st' → R.SafeUpTo E p (h e) Q st') :
    R.SafeUpTo E p (q.tryCatch h) Q st :=
  safe_tryCatch_rel hi hq fun e st' _ => hh e st'

/-- What a process relies on also holds from the start of its program to the end. -/
theorem safe_rel : ∀ {α : Type} {q : Prog S ε α} {Q : α → M.St → Prop} {st : M.St},
    R.SafeUpTo E p q Q st → R.SafeUpTo E p q (fun a st' => Q a st' ∧ R.rel p st st') st
  | _, _, _, st, .ret h => .ret ⟨h, R.rel_refl p st⟩
  | _, _, _, _, .throw h => .throw h
  | _, _, _, _, .sync hc hm hk =>
      .sync hc hm fun a r st' hs => safe_mono (safe_rel (hk a r st' hs)) fun _ _ h =>
        ⟨h.1, R.rel_trans ((hm a r st' hs).2 p) h.2⟩
  | _, _, _, _, .wait hc hm hk =>
      .wait hc hm fun st₁ h₁ hi₁ a r st₂ hs st₃ h₃ hi₃ =>
        safe_mono (safe_rel (hk st₁ h₁ hi₁ a r st₂ hs st₃ h₃ hi₃)) fun _ _ h =>
          ⟨h.1, R.rel_trans h₁ (R.rel_trans ((hm st₁ h₁ hi₁ a r st₂ hs).2 p)
            (R.rel_trans h₃ h.2))⟩
  | _, _, _, _, .fork hq hr =>
      .fork hq fun st' h' hi' => safe_mono (safe_rel (hr st' h' hi')) fun _ _ h =>
        ⟨h.1, R.rel_trans h' h.2⟩

/-- A program does its part if its commands do, given a fact that outlasts what the others do. -/
theorem safe_of_issues {pre : S.Cmd → Prop} {F : M.St → Prop}
    (hF : ∀ st st', R.rel p st st' → F st → F st')
    (hstep : ∀ c st a r st', pre c → R.inv st → F st → M.step p c st a = some (r, st') →
      R.Moves st st') :
    ∀ {α : Type} {q : Prog S ε α} {st : M.St}, q.Issues pre → R.inv st → F st →
      R.Safe p q (fun _ _ => True) st
  | _, _, _, .ret _, _, _ => .ret trivial
  | _, _, _, .throw _, _, _ => .throw
  | _, .call c _, _, .call hc hk, hi, hf => by
      cases hsync : M.sync c with
      | true =>
          refine .sync hsync (fun a r st' => hstep c _ a r st' hc hi hf) fun a r st' hs => ?_
          have hm := hstep c _ a r st' hc hi hf hs
          exact safe_of_issues hF hstep (hk r) hm.1 (hF _ _ (hm.2 p) hf)
      | false =>
          refine .wait hsync (fun st₁ h₁ hi₁ a r st₂ => hstep c _ a r st₂ hc hi₁ (hF _ _ h₁ hf))
            fun st₁ h₁ hi₁ a r st₂ hs st₃ h₃ hi₃ => ?_
          have hf₁ := hF _ _ h₁ hf
          have hm := hstep c _ a r st₂ hc hi₁ hf₁ hs
          exact safe_of_issues hF hstep (hk r) hi₃ (hF _ _ (R.rel_trans (hm.2 p) h₃) hf₁)
  | _, _, _, .fork hq hr, hi, hf =>
      .fork (safe_of_issues hF hstep hq hi hf) fun _ h' hi' =>
        safe_of_issues hF hstep hr hi' (hF _ _ h' hf)

/-- The program does its part from every state of the invariant. -/
def Tame (R : Rely M) (p : M.Pid) {α : Type} (q : Prog S ε α) : Prop :=
  ∀ st, R.inv st → R.Safe p q (fun _ _ => True) st

theorem closed_tame : Prog.Closed (S := S) (ε := ε) fun q => R.Tame p q where
  ret _ _ _ := .ret trivial
  throw _ _ _ := .throw
  bind hq hf st hi := safe_bind hi (hq st hi) fun a st' hi' _ => hf a st' hi'
  tryCatch hq hh st hi := safe_tryCatch hi (hq st hi) hh
  spawn hq st hi := .fork (hq st hi) fun _ _ _ => .ret trivial

/-- A command that moves the state in every state of the invariant. -/
theorem safe_ask {c : S.Cmd} {st : M.St} (hi : R.inv st)
    (hc : ∀ st a r st', R.inv st → M.step p c st a = some (r, st') → R.Moves st st') :
    R.SafeUpTo E p (Prog.ask c) (fun _ _ => True) st := by
  cases hsync : M.sync c with
  | true => exact .sync hsync (fun a r st' => hc st a r st' hi) fun _ _ _ _ => .ret trivial
  | false =>
      exact .wait hsync (fun st₁ _ hi₁ a r st₂ => hc st₁ a r st₂ hi₁)
        fun _ _ _ _ _ _ _ _ _ _ => .ret trivial

theorem tame_ask {c : S.Cmd} (hc : ∀ st a r st', R.inv st → M.step p c st a = some (r, st') →
    R.Moves st st') : R.Tame p (Prog.ask c) :=
  fun _ hi => safe_ask hi hc

/-- A command that is answered on the spot. -/
theorem safe_sync {c : S.Cmd} {Q : S.Res c → M.St → Prop} {st : M.St} (hc : M.sync c = true)
    (h : ∀ a r st', M.step p c st a = some (r, st') → R.Moves st st' ∧ Q r st') :
    R.SafeUpTo E p (Prog.ask c) Q st :=
  .sync hc (fun a r st' hs => (h a r st' hs).1) fun a r st' hs => .ret (h a r st' hs).2

/-- A command that waits.  The postcondition has to outlast what the others do. -/
theorem safe_wait {c : S.Cmd} {Q : S.Res c → M.St → Prop} {st : M.St} (hc : M.sync c = false)
    (hQ : ∀ r st₁ st₂, R.rel p st₁ st₂ → Q r st₁ → Q r st₂)
    (h : ∀ st₁, R.rel p st st₁ → R.inv st₁ → ∀ a r st₂, M.step p c st₁ a = some (r, st₂) →
      R.Moves st₁ st₂ ∧ Q r st₂) : R.SafeUpTo E p (Prog.ask c) Q st :=
  .wait hc (fun st₁ h₁ hi₁ a r st₂ hs => (h st₁ h₁ hi₁ a r st₂ hs).1)
    fun st₁ h₁ hi₁ a r st₂ hs _ h₃ _ => .ret (hQ _ _ _ h₃ (h st₁ h₁ hi₁ a r st₂ hs).2)

/-! ## The invariant rule -/

/-- A task does its part whenever it is its turn. -/
def TaskSafe (R : Rely M) (E : M.Ev → ε → Prop) (t : Task M) (st : M.St) : Prop :=
  ∀ st', R.rel (M.pid t.ev) st st' → R.inv st' →
    R.SafeUpTo (E t.ev) (M.pid t.ev) t.prog (fun _ _ => True) st'

theorem TaskSafe.mono {E : M.Ev → ε → Prop} {t : Task M} {st st' : M.St} (h : TaskSafe R E t st)
    (hm : R.Moves st st') : TaskSafe R E t st' :=
  fun st'' h'' hi => h st'' (R.rel_trans (hm.2 _) h'') hi

/-- A segment moves the state, and what is left of the program and of its forks
is safe from there on. -/
theorem seg_safe {ans : Nat → (c : S.Cmd) → M.Ans c} :
    ∀ {α : Type} {q : Prog S ε α} {st : M.St} {out : List S.Cmd} {s : M.Seg α},
      R.inv st → R.SafeUpTo E p q (fun _ _ => True) st → M.seg p ans q st out = some s →
      R.Moves st s.st ∧
        (∀ st', R.rel p s.st st' → R.inv st' → R.SafeUpTo E p s.rest (fun _ _ => True) st') ∧
        ∀ f ∈ s.forked, ∀ st', R.rel p s.st st' → R.inv st' →
          R.SafeUpTo E p f (fun _ _ => True) st'
  | _, .ret a, st, out, s, hi, _, hs => by
      cases hs
      exact ⟨⟨hi, fun q => R.rel_refl q st⟩, fun _ _ _ => .ret trivial, by simp⟩
  | _, .throw e, st, out, s, hi, hsafe, hs => by
      cases hs
      cases hsafe with
      | throw he => exact ⟨⟨hi, fun q => R.rel_refl q st⟩, fun _ _ _ => .throw he, by simp⟩
  | _, .call c k, st, out, s, hi, .sync hc hm hk, hs => by
      simp only [Machine.seg, if_pos hc] at hs
      split at hs
      next => cases hs
      next r st' hstep =>
        have hm' := hm _ r st' hstep
        obtain ⟨hm'', hr, hf⟩ := seg_safe hm'.1 (hk _ r st' hstep) hs
        exact ⟨⟨hm''.1, fun q => R.rel_trans (hm'.2 q) (hm''.2 q)⟩, hr, hf⟩
  | _, .call c k, st, out, s, hi, .wait hc hm hk, hs => by
      simp only [Machine.seg, hc] at hs
      cases hs
      refine ⟨⟨hi, fun q => R.rel_refl q st⟩, ?_, by simp⟩
      -- a program that waits is as safe in every later state
      intro st' hst' _
      exact .wait hc (fun st₁ h₁ => hm st₁ (R.rel_trans hst' h₁))
        fun st₁ h₁ => hk st₁ (R.rel_trans hst' h₁)
  | _, .fork q r, st, out, s, hi, .fork hq hr, hs => by
      simp only [Machine.seg] at hs
      split at hs
      next => cases hs
      next s₁ hs₁ =>
        split at hs
        next => cases hs
        next s₂ hs₂ =>
          cases hs
          obtain ⟨hm₁, hr₁, hf₁⟩ := seg_safe hi hq hs₁
          obtain ⟨hm₂, hr₂, hf₂⟩ := seg_safe hm₁.1 (hr _ (hm₁.2 p) hm₁.1) hs₂
          refine ⟨⟨hm₂.1, fun q => R.rel_trans (hm₁.2 q) (hm₂.2 q)⟩, hr₂, ?_⟩
          intro f hf st' hst' hi'
          have hst₁ := R.rel_trans (hm₂.2 p) hst'
          rcases List.mem_append.mp hf with hf | hf
          · exact hf₁ f hf st' hst₁ hi'
          · cases List.mem_cons.mp hf with
            | inl he => exact he ▸ hr₁ st' hst₁ hi'
            | inr hf => exact hf₂ f hf st' hst' hi'

/-- The invariant rule.  The hypotheses are about the start, the events that
enter, their programs, and crashes. -/
theorem reach_tasks {init : M.St → Prop} {E : M.Ev → ε → Prop} (hinit : ∀ st, init st → R.inv st)
    (henter : ∀ ev st st', R.inv st → M.enter ev st = some st' → R.Moves st st')
    (hbody : ∀ ev st st', M.enter ev st = some st' → R.inv st' →
      TaskSafe R E ⟨ev, M.body ev, true⟩ st')
    (hcrash : ∀ p st, R.inv st → R.inv (M.crash p st) ∧ ∀ q, q ≠ p → R.rel q st (M.crash p st))
    {w : World M} (hw : M.Reach init w) :
    R.inv w.st ∧ ∀ t ∈ w.pool, TaskSafe R E t w.st := by
  induction hw with
  | start h => exact ⟨hinit _ h, by simp⟩
  | @step w w' ch _ hn ih =>
      obtain ⟨hi, hpool⟩ := ih
      rcases Machine.next_cases hn with ⟨ev, st, hent, rfl⟩ | ⟨i, ev, q, ans, s, hq, hs, rfl⟩ |
        ⟨i, ev, c, k, a, r, st, hq, hc, hs, rfl⟩ | ⟨p, rfl⟩
      · have hm := henter ev w.st st hi hent
        refine ⟨hm.1, ?_⟩
        intro t ht
        cases List.mem_append.mp ht with
        | inl ht' => exact (hpool t ht').mono hm
        | inr ht' => exact List.mem_singleton.mp ht' ▸ hbody ev w.st st hent hm.1
      · have hq' := hpool _ (List.mem_of_getElem? hq) w.st (R.rel_refl _ _) hi
        obtain ⟨hm, hr, hf⟩ := seg_safe hi hq' hs
        refine ⟨hm.1, ?_⟩
        intro t ht
        rcases List.mem_append.mp ht with ht | ht
        · rcases List.mem_or_eq_of_mem_set ht with ht | rfl
          · exact (hpool t ht).mono hm
          · exact hr
        · obtain ⟨f, hf', rfl⟩ := List.mem_map.mp ht
          exact hf f hf'
      · have hq' := hpool _ (List.mem_of_getElem? hq) w.st (R.rel_refl _ _) hi
        cases hq' with
        | sync hc' _ _ => simp [hc'] at hc
        | wait _ hm hk =>
            have hm' := hm w.st (R.rel_refl _ _) hi a r st hs
            refine ⟨hm'.1, ?_⟩
            intro t ht
            rcases List.mem_or_eq_of_mem_set ht with ht | rfl
            · exact (hpool t ht).mono hm'
            · exact hk w.st (R.rel_refl _ _) hi a r st hs
      · obtain ⟨hi', hrel⟩ := hcrash p w.st hi
        refine ⟨hi', ?_⟩
        intro t ht
        obtain ⟨ht', hp⟩ := List.mem_filter.mp ht
        intro st' hst' hi''
        exact hpool t ht' st' (R.rel_trans (hrel _ (by simpa using hp)) hst') hi''

/-- The invariant rule where any error may be thrown. -/
theorem reach_inv {init : M.St → Prop} (hinit : ∀ st, init st → R.inv st)
    (henter : ∀ ev st st', R.inv st → M.enter ev st = some st' → R.Moves st st')
    (hbody : ∀ ev st st', M.enter ev st = some st' → R.inv st' →
      TaskSafe R (fun _ _ => True) ⟨ev, M.body ev, true⟩ st')
    (hcrash : ∀ p st, R.inv st → R.inv (M.crash p st) ∧ ∀ q, q ≠ p → R.rel q st (M.crash p st))
    {w : World M} (hw : M.Reach init w) : R.inv w.st :=
  (reach_tasks hinit henter hbody hcrash hw).1

/-- A program that is safe up to some errors has thrown no other. -/
theorem TaskSafe.not_thrown {E : M.Ev → ε → Prop} {t : Task M} {st : M.St} (h : TaskSafe R E t st)
    (hi : R.inv st) {e : ε} (he : ¬ E t.ev e) : t.prog ≠ .throw e := by
  intro ht
  have hsafe := h st (R.rel_refl _ st) hi
  rw [ht] at hsafe
  cases hsafe with
  | throw h => exact he h

end Rely

/-- An invariant that every command keeps, whoever issues it and why.  Nothing needs to be known
of the programs. -/
theorem Machine.Reach.of_steps {M : Machine S ε} {I init : M.St → Prop}
    (hinit : ∀ st, init st → I st) (henter : ∀ ev st st', I st → M.enter ev st = some st' → I st')
    (hstep : ∀ p c st a r st', I st → M.step p c st a = some (r, st') → I st')
    (hcrash : ∀ p st, I st → I (M.crash p st)) {w : World M} (hw : M.Reach init w) : I w.st := by
  let R : Rely M := ⟨I, fun _ _ _ => True, fun _ _ => trivial, fun _ _ => trivial⟩
  have htame : ∀ (p : M.Pid) (q : Prog S ε Unit), R.Tame p q := by
    intro p q
    have hany : q.Issues fun _ => True := Prog.issues_of_forall (fun _ => trivial) q
    refine Rely.closed_tame.of_issues (fun c _ => Rely.tame_ask fun st a r st' hi hs => ?_) hany
    exact ⟨hstep p c st a r st' hi hs, fun _ => trivial⟩
  exact Rely.reach_inv (R := R) hinit
    (fun ev st st' hi he => ⟨henter ev st st' hi he, fun _ => trivial⟩)
    (fun ev _ _ _ _ st' _ hi => htame _ _ st' hi)
    (fun p st hi => ⟨hcrash p st hi, fun _ _ => trivial⟩) hw

end Async
