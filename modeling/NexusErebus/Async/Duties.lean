import Mathlib.Data.List.Perm.Basic
import NexusErebus.Async.Pool

/-!
# Things a program does once

An invariant may depend on how far the programs in flight have come: a program has a command before
it that it carries out once, and the state tells whether that has happened.  `Rely` knows nothing of
this, since what a process relies on must outlast the commands of the process itself.

A *duty* is a command with the rest of its program.  Up to its duty a program issues only commands
that concern nobody's duties (`pre`).  When the duty is carried out the program may have another one
before it, or none.  `owes ev c k st` says that the duty of the event `ev`, the command `c` with the
rest `k`, is still to be carried out in `st`.  Only one of the programs of an event has a duty.

`reach_inv` is the invariant rule.  Each event is let in once (`known`).
-/

namespace Async

variable {S : Sig} {ε : Type}

/-- Induction over programs that return nothing. -/
theorem Prog.unitInduction {P : Prog S ε Unit → Prop} (ret : P (.ret ()))
    (throw : ∀ e, P (.throw e)) (call : ∀ c k, (∀ r, P (k r)) → P (.call c k))
    (fork : ∀ q r, P q → P r → P (.fork q r)) (q : Prog S ε Unit) : P q := by
  have key : ∀ {α : Type} (q : Prog S ε α) (h : α = Unit), P (h ▸ q) := by
    intro α q
    induction q with
    | ret a => rintro rfl; exact ret
    | throw e => rintro rfl; exact throw e
    | call c k ih => rintro rfl; exact call c k fun r => ih r rfl
    | fork q r ihq ihr => rintro rfl; exact fork q r (ihq rfl) (ihr rfl)
  exact key q rfl

/-- What the argument is about. -/
structure Duties (M : Machine S ε) where
  /-- The invariant. -/
  inv : M.St → Prop
  /-- The event has been let in. -/
  known : M.Ev → M.St → Prop
  /-- The commands that are nobody's duty. -/
  pre : M.Ev → S.Cmd → Prop
  /-- The command is still to be carried out, and then the rest. -/
  owes : M.Ev → (c : S.Cmd) → (S.Res c → Prog S ε Unit) → M.St → Prop

namespace Duties

variable {M : Machine S ε} (D : Duties M)

/-- A change of state that leaves the duties as they are, but for those of some events. -/
structure Later (but : M.Ev → Prop) (st st' : M.St) : Prop where
  inv : D.inv st'
  known : ∀ ev, D.known ev st → D.known ev st'
  owes : ∀ ev c k, ¬ but ev → D.known ev st → D.owes ev c k st → D.owes ev c k st'

/-- The program has a duty before it. -/
inductive Holds (ev : M.Ev) (st : M.St) : Prog S ε Unit → Prop
  | intro {α : Type} {q : Prog S ε α} {c : S.Cmd} {k : S.Res c → Prog S ε Unit}
      (hq : q.Issues (D.pre ev)) (h : D.owes ev c k st) : Holds ev st (q.bind fun _ => .call c k)

/-- The program has no duty before it, or one. -/
def Does (ev : M.Ev) (q : Prog S ε Unit) (st : M.St) : Prop :=
  q.Issues (D.pre ev) ∨ D.Holds ev st q

/-- What has to be shown of the events and the commands. -/
structure Kept : Prop where
  enter : ∀ ev st st', D.inv st → M.enter ev st = some st' →
    ¬ D.known ev st ∧ D.known ev st' ∧ D.Later (fun _ => False) st st' ∧ D.Does ev (M.body ev) st'
  plain : ∀ ev c st a r st', D.inv st → D.known ev st → D.pre ev c →
    M.step (M.pid ev) c st a = some (r, st') → D.Later (fun _ => False) st st'
  act : ∀ ev c k st a r st', D.inv st → D.known ev st → D.owes ev c k st →
    M.step (M.pid ev) c st a = some (r, st') → D.Later (· = ev) st st' ∧ D.Does ev (k r) st'
  crash : ∀ p st, D.inv st → D.Later (fun _ => False) st (M.crash p st)

variable {D}

theorem Later.refl {but : M.Ev → Prop} {st : M.St} (hi : D.inv st) : D.Later but st st :=
  ⟨hi, fun _ h => h, fun _ _ _ _ _ h => h⟩

theorem Later.trans {but : M.Ev → Prop} {st st₁ st₂ : M.St} (h : D.Later but st st₁)
    (h' : D.Later but st₁ st₂) : D.Later but st st₂ :=
  ⟨h'.inv, fun ev hk => h'.known ev (h.known ev hk),
    fun ev c k hb hkn ho => h'.owes ev c k hb (h.known ev hkn) (h.owes ev c k hb hkn ho)⟩

theorem Later.mono {but but' : M.Ev → Prop} {st st' : M.St} (h : D.Later but st st')
    (hb : ∀ ev, but ev → but' ev) : D.Later but' st st' :=
  ⟨h.inv, h.known, fun ev c k hn => h.owes ev c k fun hbut => hn (hb ev hbut)⟩

theorem Does.mono {but : M.Ev → Prop} {ev : M.Ev} {q : Prog S ε Unit} {st st' : M.St}
    (h : D.Does ev q st) (hkn : D.known ev st) (hl : D.Later but st st') (hev : ¬ but ev) :
    D.Does ev q st' := by
  rcases h with hp | ⟨hq, ho⟩
  · exact .inl hp
  · exact .inr ⟨hq, hl.owes _ _ _ hev hkn ho⟩

theorem Does.of_fork {ev : M.Ev} {q r : Prog S ε Unit} {st : M.St} (h : D.Does ev (.fork q r) st) :
    q.Issues (D.pre ev) ∧ D.Does ev r st := by
  rcases h with h | h
  · cases h with
    | fork hq hr => exact ⟨hq, .inl hr⟩
  · generalize he : Prog.fork q r = p at h
    obtain @⟨_, q₀, c, k, hq₀, ho⟩ := h
    cases hq₀ with
    | fork hq hr =>
        cases he
        exact ⟨hq, .inr ⟨hr, ho⟩⟩
    | ret | throw | call => cases he

/-- The command of a program with a duty is none, or it is the duty. -/
theorem Does.of_call {ev : M.Ev} {c : S.Cmd} {k : S.Res c → Prog S ε Unit} {st : M.St}
    (h : D.Does ev (.call c k) st) :
    (D.pre ev c ∧ ∀ r st', (∀ c k, D.owes ev c k st → D.owes ev c k st') → D.Does ev (k r) st') ∨
      D.owes ev c k st := by
  rcases h with h | h
  · exact .inl ⟨h.of_call.1, fun r _ _ => .inl (h.of_call.2 r)⟩
  · generalize he : Prog.call c k = p at h
    obtain @⟨_, q₀, c', k', hq₀, ho⟩ := h
    cases hq₀ with
    | ret =>
        cases he
        exact .inr ho
    | call hc hk =>
        cases he
        exact .inl ⟨hc, fun r st' howes => .inr ⟨hk r, howes _ _ ho⟩⟩
    | throw | fork => cases he

/-! ## Commands and segments -/

section

variable (hD : D.Kept) {ev : M.Ev} {ans : Nat → (c : S.Cmd) → M.Ans c}
include hD

/-- A command, be it a duty or not. -/
theorem step_does {c : S.Cmd} {k : S.Res c → Prog S ε Unit} {st st' : M.St} {a : M.Ans c}
    {r : S.Res c} (hi : D.inv st) (hkn : D.known ev st) (h : D.Does ev (.call c k) st)
    (hs : M.step (M.pid ev) c st a = some (r, st')) :
    D.Later (· = ev) st st' ∧ D.Does ev (k r) st' := by
  rcases h.of_call with ⟨hc, hnext⟩ | ho
  · have hl := hD.plain ev c st a r st' hi hkn hc hs
    exact ⟨hl.mono nofun, hnext r st' fun c k => hl.owes ev c k nofun hkn⟩
  · exact hD.act ev c k st a r st' hi hkn ho hs

/-- A segment without a duty leaves none. -/
theorem seg_plain : ∀ {α : Type} {q : Prog S ε α} {st : M.St} {out : List S.Cmd} {s : M.Seg α},
    D.inv st → D.known ev st → q.Issues (D.pre ev) → M.seg (M.pid ev) ans q st out = some s →
      D.Later (fun _ => False) st s.st ∧ s.rest.Issues (D.pre ev) ∧
        ∀ f ∈ s.forked, f.Issues (D.pre ev)
  | _, .ret a, st, out, s, hi, _, hq, hs => by
      cases hs
      exact ⟨.refl hi, hq, by simp⟩
  | _, .throw e, st, out, s, hi, _, hq, hs => by
      cases hs
      exact ⟨.refl hi, hq, by simp⟩
  | _, .call c k, st, out, s, hi, hkn, .call hc hk, hs => by
      cases hsync : M.sync c with
      | true =>
          obtain ⟨r, st', hstep, hs⟩ := Machine.seg_call_sync hsync hs
          have hl := hD.plain ev c st _ r st' hi hkn hc hstep
          obtain ⟨hl', hrest⟩ := seg_plain hl.inv (hl.known ev hkn) (hk r) hs
          exact ⟨hl.trans hl', hrest⟩
      | false =>
          rw [Machine.seg_call_wait hsync] at hs
          cases hs
          exact ⟨.refl hi, .call hc hk, by simp⟩
  | _, .fork q r, st, out, s, hi, hkn, .fork hq hr, hs => by
      obtain ⟨s₁, s₂, hs₁, hs₂, rfl⟩ := Machine.seg_fork hs
      obtain ⟨hl₁, hr₁, hf₁⟩ := seg_plain hi hkn hq hs₁
      obtain ⟨hl₂, hr₂, hf₂⟩ := seg_plain hl₁.inv (hl₁.known ev hkn) hr hs₂
      refine ⟨hl₁.trans hl₂, hr₂, fun f hf => ?_⟩
      rcases List.mem_append.mp hf with hf | hf
      · exact hf₁ f hf
      · exact List.forall_mem_cons.mpr ⟨hr₁, hf₂⟩ f hf

/-- A segment may come to a duty.  What it forks has none. -/
theorem seg_does {q : Prog S ε Unit} : ∀ {st : M.St} {out : List S.Cmd} {s : M.Seg Unit},
    D.inv st → D.known ev st → D.Does ev q st → M.seg (M.pid ev) ans q st out = some s →
      D.Later (· = ev) st s.st ∧ D.Does ev s.rest s.st ∧ ∀ f ∈ s.forked, f.Issues (D.pre ev) := by
  induction q using Prog.unitInduction with
  | ret =>
      intro st out s hi _ _ hs
      cases hs
      exact ⟨.refl hi, .inl (.ret ()), by simp⟩
  | throw e =>
      intro st out s hi _ _ hs
      cases hs
      exact ⟨.refl hi, .inl (.throw e), by simp⟩
  | call c k ih =>
      intro st out s hi hkn hdoes hs
      cases hsync : M.sync c with
      | false =>
          rw [Machine.seg_call_wait hsync] at hs
          cases hs
          exact ⟨.refl hi, hdoes, by simp⟩
      | true =>
          obtain ⟨r, st', hstep, hs⟩ := Machine.seg_call_sync hsync hs
          obtain ⟨hl, hnext⟩ := step_does hD hi hkn hdoes hstep
          obtain ⟨hl', hrest⟩ := ih r hl.inv (hl.known ev hkn) hnext hs
          exact ⟨hl.trans hl', hrest⟩
  | fork q r ihq ihr =>
      intro st out s hi hkn hdoes hs
      obtain ⟨s₁, s₂, hs₁, hs₂, rfl⟩ := Machine.seg_fork hs
      obtain ⟨hq, hr⟩ := hdoes.of_fork
      obtain ⟨hl₁, hr₁, hf₁⟩ := seg_plain hD hi hkn hq hs₁
      have hr' : D.Does ev r s₁.st := hr.mono hkn hl₁ nofun
      obtain ⟨hl₂, hr₂, hf₂⟩ := ihr hl₁.inv (hl₁.known ev hkn) hr' hs₂
      refine ⟨(hl₁.mono nofun).trans hl₂, hr₂, fun f hf => ?_⟩
      rcases List.mem_append.mp hf with hf | hf
      · exact hf₁ f hf
      · exact List.forall_mem_cons.mpr ⟨hr₁, hf₂⟩ f hf

end

/-! ## Runs -/

/-- Every program in flight has at most one duty before it, and of two programs of an event one has
none. -/
structure PoolDoes (D : Duties M) (pool : List (Task M)) (st : M.St) : Prop where
  known : ∀ t ∈ pool, D.known t.ev st
  does : ∀ t ∈ pool, D.Does t.ev t.prog st
  one : pool.Pairwise fun t t' =>
    t.ev = t'.ev → t.prog.Issues (D.pre t.ev) ∨ t'.prog.Issues (D.pre t'.ev)

theorem PoolDoes.perm {pool pool' : List (Task M)} {st : M.St} (h : PoolDoes D pool st)
    (hp : pool.Perm pool') : PoolDoes D pool' st := by
  refine ⟨fun t ht => h.known t (hp.mem_iff.mpr ht), fun t ht => h.does t (hp.mem_iff.mpr ht), ?_⟩
  refine (hp.pairwise_iff ?_).mp h.one
  intro t t' ht he
  exact (ht he.symm).symm

/-- A program takes a step, and others do not. -/
theorem PoolDoes.step {t t' : Task M} {forked pool : List (Task M)} {st st' : M.St}
    (h : PoolDoes D (t :: pool) st) (hev : t'.ev = t.ev)
    (hl : D.Later (· = t.ev) st st') (hplain : t.prog.Issues (D.pre t.ev) →
      D.Later (fun _ => False) st st' ∧ t'.prog.Issues (D.pre t'.ev))
    (hdoes : D.Does t'.ev t'.prog st')
    (hf : ∀ f ∈ forked, f.ev = t.ev ∧ f.prog.Issues (D.pre f.ev)) :
    PoolDoes D (t' :: (forked ++ pool)) st' := by
  obtain ⟨hfirst, hrest⟩ := List.pairwise_cons.mp h.one
  -- a program of the same event has no duty, unless the one that steps has none
  have hother : ∀ u ∈ pool, D.Does u.ev u.prog st' := by
    intro u hu
    have hu' := h.does u (List.mem_cons_of_mem _ hu)
    have hkn := h.known u (List.mem_cons_of_mem _ hu)
    by_cases he : t.ev = u.ev
    · rcases hfirst u hu he with hp | hp
      · exact hu'.mono hkn (hplain hp).1 nofun
      · exact .inl hp
    · exact hu'.mono hkn hl fun he' => he he'.symm
  have hknown : ∀ u ∈ t :: pool, D.known u.ev st' := fun u hu => hl.known _ (h.known u hu)
  obtain ⟨hkt, hkpool⟩ := List.forall_mem_cons.mp hknown
  refine ⟨?_, ?_, ?_⟩
  · simp only [List.forall_mem_cons, List.forall_mem_append]
    exact ⟨hev ▸ hkt, fun f hf' => (hf f hf').1 ▸ hkt, hkpool⟩
  · simp only [List.forall_mem_cons, List.forall_mem_append]
    exact ⟨hdoes, fun f hf' => .inl (hf f hf').2, hother⟩
  · refine List.pairwise_cons.mpr ⟨?_, List.pairwise_append.mpr ⟨?_, hrest, ?_⟩⟩
    · simp only [List.forall_mem_append]
      refine ⟨fun f hf' _ => .inr (hf f hf').2, fun u hu he => ?_⟩
      rcases hfirst u hu (hev ▸ he) with hp | hp
      · exact .inl (hplain hp).2
      · exact .inr hp
    · exact List.pairwise_of_forall_mem_list fun f hf' _ _ _ => .inl (hf f hf').2
    · exact fun f hf' _ _ _ => .inl (hf f hf').2

/-- The program number `i` takes a step. -/
theorem PoolDoes.set {pool forked : List (Task M)} {i : Nat} {t t' : Task M} {st st' : M.St}
    (h : PoolDoes D pool st) (ht : pool[i]? = some t) (hev : t'.ev = t.ev)
    (hl : D.Later (· = t.ev) st st') (hplain : t.prog.Issues (D.pre t.ev) →
      D.Later (fun _ => False) st st' ∧ t'.prog.Issues (D.pre t'.ev))
    (hdoes : D.Does t'.ev t'.prog st')
    (hf : ∀ f ∈ forked, f.ev = t.ev ∧ f.prog.Issues (D.pre f.ev)) :
    PoolDoes D (pool.set i t' ++ forked) st' := by
  obtain ⟨hlt, rfl⟩ := List.getElem?_eq_some_iff.mp ht
  have hold := h.perm (List.getElem_cons_eraseIdx_perm hlt).symm
  refine (hold.step hev hl hplain hdoes hf).perm ?_
  exact (List.perm_append_comm.cons t').trans
    ((List.set_perm_cons_eraseIdx hlt t').symm.append_right forked)

/-- The invariant rule. -/
theorem reach_inv (hD : D.Kept) {init : M.St → Prop} (hinit : ∀ st, init st → D.inv st)
    {w : World M} (hw : M.Reach init w) : D.inv w.st ∧ PoolDoes D w.pool w.st := by
  induction hw with
  | start h => exact ⟨hinit _ h, by simp, by simp, .nil⟩
  | @step w w' ch _ hn ih =>
      obtain ⟨hi, hpool⟩ := ih
      rcases Machine.next_cases hn with ⟨ev, st, hent, rfl⟩ | ⟨i, ev, q, ans, s, hq, hs, rfl⟩ |
        ⟨i, ev, c, k, a, r, st, hq, hc, hs, rfl⟩ | ⟨p, rfl⟩
      · obtain ⟨hnew, hkn, hl, hdoes⟩ := hD.enter ev w.st st hi hent
        refine ⟨hl.inv, ?_⟩
        have hfresh : ∀ t ∈ w.pool, t.ev ≠ ev := fun t ht he => hnew (he ▸ hpool.known t ht)
        refine ⟨?_, ?_, List.pairwise_append.mpr ⟨hpool.one, by simp, ?_⟩⟩
        · simp only [Machine.afterStart, List.forall_mem_append, List.forall_mem_singleton]
          exact ⟨fun t ht => hl.known _ (hpool.known t ht), hkn⟩
        · simp only [Machine.afterStart, List.forall_mem_append, List.forall_mem_singleton]
          exact ⟨fun t ht => (hpool.does t ht).mono (hpool.known t ht) hl nofun, hdoes⟩
        · simp only [List.forall_mem_singleton]
          exact fun t ht he => absurd he (hfresh t ht)
      · have hmem := List.mem_of_getElem? hq
        obtain ⟨hl, hrest, hforked⟩ :=
          seg_does hD hi (hpool.known _ hmem) (hpool.does _ hmem) hs
        refine ⟨hl.inv, hpool.set hq rfl hl (fun hp => ?_) hrest ?_⟩
        · obtain ⟨hl', hr', -⟩ := seg_plain hD hi (hpool.known _ hmem) hp hs
          exact ⟨hl', hr'⟩
        · intro f hf
          obtain ⟨q', hq', rfl⟩ := List.mem_map.mp hf
          exact ⟨rfl, hforked q' hq'⟩
      · have hmem := List.mem_of_getElem? hq
        obtain ⟨hl, hnext⟩ := step_does hD hi (hpool.known _ hmem) (hpool.does _ hmem) hs
        have hset : PoolDoes D (w.pool.set i ⟨ev, k r, true⟩ ++ []) st := by
          refine hpool.set hq rfl hl (fun hp => ?_) hnext (by simp)
          exact ⟨hD.plain ev c w.st a r st hi (hpool.known _ hmem) hp.of_call.1 hs, hp.of_call.2 r⟩
        rw [List.append_nil] at hset
        exact ⟨hl.inv, hset⟩
      · have hl := hD.crash p w.st hi
        refine ⟨hl.inv, ?_, ?_, hpool.one.filter _⟩
        · exact fun t ht => hl.known _ (hpool.known t (List.mem_of_mem_filter ht))
        · exact fun t ht => (hpool.does t (List.mem_of_mem_filter ht)).mono
            (hpool.known t (List.mem_of_mem_filter ht)) hl nofun

end Duties

end Async
