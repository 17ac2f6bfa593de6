import NexusErebus.Async.Fifo
import Mathlib.Logic.Function.Basic

/-!
# Writing behind

A process keeps values in memory and writes them to a store.  Nobody waits for the writes, so
the store lags behind.  It catches up if every program follows one rule: after a value has been
changed, and before the program waits, the program reads the value and is about to write what
it read.  It may do one command first, whose answer comes in order.

`Tidy p md q` says that the program `q` follows the rule.  The mode `md` says where in the
rule it stands.

* `clean`: the store will have every value.
* `dirty x`: the value under `x` may have changed.
* `announced w`: the program waits, and then writes `w`.
* `sends w`: the program writes `w`.

The writes that are due are those under way, and after them those announced, both in the order
of the line.  In every run in order the store after the due writes has what the memory has
(`reach_behind`).  So it has it once none is due (`Behind.caught_up`).
-/

namespace Async

variable {S : Sig} {ε : Type}

/-- What is kept in memory and in the store. -/
structure WriteBehind (M : Machine S ε) where
  Key : Type
  Val : Type
  decKey : DecidableEq Key
  memory : M.St → Key → Option Val
  store : M.St → Key → Option Val
  /-- The commands whose answers come in order. -/
  ordered : S.Cmd → Bool
  waits : ∀ c, ordered c = true → M.sync c = false

attribute [instance] WriteBehind.decKey

namespace WriteBehind

variable {M : Machine S ε} (W : WriteBehind M)

/-- Where in the rule a program stands. -/
inductive Mode where
  | clean
  | dirty (x : W.Key)
  | announced (w : W.Key × W.Val)
  | sends (w : W.Key × W.Val)

variable {W}

/-- Carry out writes. -/
def after (ws : List (W.Key × W.Val)) (s : W.Key → Option W.Val) : W.Key → Option W.Val :=
  ws.foldl (fun s w => Function.update s w.1 (some w.2)) s

/-- What `m` has, `s` has too. -/
def Reflects (m s : W.Key → Option W.Val) : Prop := ∀ x v, m x = some v → s x = some v

variable (W)

/-- Neither memory nor store has changed. -/
def Keeps (st st' : M.St) : Prop := W.memory st' = W.memory st ∧ W.store st' = W.store st

/-- A command that changes neither memory nor store. -/
def Quiet (p : M.Pid) (c : S.Cmd) : Prop :=
  ∀ st a r st', M.step p c st a = some (r, st') → W.Keeps st st'

variable {W}

/-- The value under `x` may be dirty, and no other. -/
def Mode.within (x : W.Key) (md : W.Mode) : Prop := md = .clean ∨ md = .dirty x

/-- The modes inside a segment. -/
def Mode.inside : W.Mode → Bool
  | .clean | .dirty _ => true
  | _ => false

/-- What is known of the value under `x` after it has been read. -/
def Mode.seen (x : W.Key) : Option W.Val → W.Mode → Prop
  | none, md => md = .clean
  | some v, md => md = .announced (x, v) ∨ md = .dirty x

variable (W)

/-- The program follows the rule. -/
inductive Tidy (p : M.Pid) : {α : Type} → W.Mode → Prog S ε α → Prop
  | ret {α : Type} (a : α) : Tidy p .clean (.ret a)
  | throw {α : Type} (e : ε) : Tidy p .clean (.throw (α := α) e)
  | wait {α : Type} {c : S.Cmd} {k : S.Res c → Prog S ε α} (hc : M.sync c = false)
      (hq : W.Quiet p c) (hk : ∀ r, Tidy p .clean (k r)) : Tidy p .clean (.call c k)
  | keep {α : Type} {c : S.Cmd} {k : S.Res c → Prog S ε α} (hc : M.sync c = true)
      (hq : W.Quiet p c) (hk : ∀ r, Tidy p .clean (k r)) : Tidy p .clean (.call c k)
  /-- The value under `x` is changed. -/
  | touch {α : Type} {c : S.Cmd} {k : S.Res c → Prog S ε α} {md : W.Mode} (x : W.Key)
      (hc : M.sync c = true) (hx : md.within x)
      (hs : ∀ st a r st', M.step p c st a = some (r, st') →
        W.store st' = W.store st ∧ ∀ y, y ≠ x → W.memory st' y = W.memory st y)
      (hk : ∀ r, Tidy p (.dirty x) (k r)) : Tidy p md (.call c k)
  /-- The value under `x` is read, and `v r` is what the answer `r` tells of it. -/
  | look {α : Type} {c : S.Cmd} {k : S.Res c → Prog S ε α} {md : W.Mode} (x : W.Key)
      (v : S.Res c → Option W.Val) (md' : S.Res c → W.Mode) (hc : M.sync c = true)
      (hx : md.within x) (hq : W.Quiet p c)
      (hs : ∀ st a r st', M.step p c st a = some (r, st') → W.memory st x = v r)
      (hv : ∀ r, (md' r).seen x (v r)) (hk : ∀ r, Tidy p (md' r) (k r)) : Tidy p md (.call c k)
  | announce {α : Type} {c : S.Cmd} {k : S.Res c → Prog S ε α} {w : W.Key × W.Val}
      (hc : W.ordered c = true) (hq : W.Quiet p c) (hk : ∀ r, Tidy p (.sends w) (k r)) :
      Tidy p (.announced w) (.call c k)
  | send {α : Type} {c : S.Cmd} {k : S.Res c → Prog S ε α} {w : W.Key × W.Val}
      (hc : W.ordered c = true)
      (hs : ∀ st a r st', M.step p c st a = some (r, st') →
        W.memory st' = W.memory st ∧ W.store st' = Function.update (W.store st) w.1 (some w.2))
      (hk : ∀ r, Tidy p .clean (k r)) : Tidy p (.sends w) (.call c k)
  | fork {α : Type} {q : Prog S ε Unit} {r : Prog S ε α} {md : W.Mode} (hm : md.inside = true)
      (hq : Tidy p md q) (hr : Tidy p .clean r) : Tidy p md (.fork q r)

variable {W} {p : M.Pid}

/-! ## Rules -/

theorem tidy_bind {β : Type} : ∀ {α : Type} {q : Prog S ε α} {f : α → Prog S ε β} {md : W.Mode},
    W.Tidy p md q → (∀ a, W.Tidy p .clean (f a)) → W.Tidy p md (q.bind f)
  | _, _, _, _, .ret a, hf => hf a
  | _, _, _, _, .throw e, _ => .throw e
  | _, _, _, _, .wait hc hq hk, hf => .wait hc hq fun r => tidy_bind (hk r) hf
  | _, _, _, _, .keep hc hq hk, hf => .keep hc hq fun r => tidy_bind (hk r) hf
  | _, _, _, _, .touch x hc hx hs hk, hf => .touch x hc hx hs fun r => tidy_bind (hk r) hf
  | _, _, _, _, .look x v md' hc hx hq hs hv hk, hf =>
      .look x v md' hc hx hq hs hv fun r => tidy_bind (hk r) hf
  | _, _, _, _, .announce hc hq hk, hf => .announce hc hq fun r => tidy_bind (hk r) hf
  | _, _, _, _, .send hc hs hk, hf => .send hc hs fun r => tidy_bind (hk r) hf
  | _, _, _, _, .fork hm hq hr, hf => .fork hm hq (tidy_bind hr hf)

theorem tidy_tryCatch : ∀ {α : Type} {q : Prog S ε α} {h : ε → Prog S ε α} {md : W.Mode},
    W.Tidy p md q → (∀ e, W.Tidy p .clean (h e)) → W.Tidy p md (q.tryCatch h)
  | _, _, _, _, .ret a, _ => .ret a
  | _, _, _, _, .throw e, hh => hh e
  | _, _, _, _, .wait hc hq hk, hh => .wait hc hq fun r => tidy_tryCatch (hk r) hh
  | _, _, _, _, .keep hc hq hk, hh => .keep hc hq fun r => tidy_tryCatch (hk r) hh
  | _, _, _, _, .touch x hc hx hs hk, hh => .touch x hc hx hs fun r => tidy_tryCatch (hk r) hh
  | _, _, _, _, .look x v md' hc hx hq hs hv hk, hh =>
      .look x v md' hc hx hq hs hv fun r => tidy_tryCatch (hk r) hh
  | _, _, _, _, .announce hc hq hk, hh => .announce hc hq fun r => tidy_tryCatch (hk r) hh
  | _, _, _, _, .send hc hs hk, hh => .send hc hs fun r => tidy_tryCatch (hk r) hh
  | _, _, _, _, .fork hm hq hr, hh => .fork hm hq (tidy_tryCatch hr hh)

/-- The programs that start and end clean are closed under the ways to build programs. -/
theorem closed_tidy : Prog.Closed (S := S) (ε := ε) fun q => W.Tidy p .clean q where
  ret := .ret
  throw := .throw
  bind := tidy_bind
  tryCatch := tidy_tryCatch
  spawn hq := .fork rfl hq (.ret ())

theorem tidy_ask {c : S.Cmd} (hq : W.Quiet p c) : W.Tidy p .clean (Prog.ask (ε := ε) c) := by
  cases hc : M.sync c with
  | true => exact .keep hc hq fun r => .ret r
  | false => exact .wait hc hq fun r => .ret r

/-! ## Segments -/

/-- What holds before a program in a mode is resumed: the store will have what the memory has,
but for what the mode excepts.  A write that is announced is of the value in memory. -/
def Mode.Before (s : W.Key → Option W.Val) (st : M.St) : W.Mode → Prop
  | .clean => Reflects (W.memory st) s
  | .dirty x => ∀ y v, y ≠ x → W.memory st y = some v → s y = some v
  | .announced w => W.memory st w.1 = some w.2 ∧
      ∀ y v, y ≠ w.1 → W.memory st y = some v → s y = some v
  | .sends _ => False

theorem Mode.Before.dirty {md : W.Mode} {x : W.Key} {s : W.Key → Option W.Val} {st : M.St}
    (hx : md.within x) (h : md.Before s st) (y : W.Key) (v : W.Val) (hy : y ≠ x)
    (hv : W.memory st y = some v) : s y = some v := by
  cases hx with
  | inl hx => subst hx; exact h y v hv
  | inr hx => subst hx; exact h y v hy hv

/-- After the value under `x` has been read. -/
theorem Mode.Before.seen {md : W.Mode} {x : W.Key} {o : Option W.Val}
    {s : W.Key → Option W.Val} {st : M.St} (hv : md.seen x o) (ho : W.memory st x = o)
    (h : ∀ y v, y ≠ x → W.memory st y = some v → s y = some v) : md.Before s st := by
  cases o with
  | none =>
      cases hv
      intro y v hy
      by_cases hyx : y = x
      · rw [hyx, ho] at hy
        cases hy
      · exact h y v hyx hy
  | some v =>
      cases hv with
      | inl hv => subst hv; exact ⟨ho, h⟩
      | inr hv => subst hv; exact h

theorem Mode.Before.of_keeps {md : W.Mode} {s : W.Key → Option W.Val} {st st' : M.St}
    (hk : W.Keeps st st') (h : md.Before s st) : md.Before s st' := by
  cases md with
  | clean => simpa only [Mode.Before, hk.1] using h
  | dirty x => simpa only [Mode.Before, hk.1] using h
  | announced w => simpa only [Mode.Before, hk.1] using h
  | sends w => exact h

/-- The write a program that waits has announced. -/
def Mode.write : W.Mode → Option (W.Key × W.Val)
  | .announced w => some w
  | _ => none

/-- The modes in which a program may wait. -/
def Mode.settled (md : W.Mode) : Prop := md = .clean ∨ ∃ w, md = .announced w

/-- What a segment leaves behind: the programs it forked, each with its mode, and the mode of the
rest. -/
structure Leaves (p : M.Pid) (s : W.Key → Option W.Val) (st : M.St) {α : Type} (g : M.Seg α)
    (forks : List (Prog S ε Unit × W.Mode)) (md : W.Mode) : Prop where
  forked : forks.map Prod.fst = g.forked
  tidy_forks : ∀ x ∈ forks, x.2.settled ∧ W.Tidy p x.2 x.1
  tidy_rest : md.settled ∧ W.Tidy p md g.rest
  store : W.store g.st = W.store st
  reflects : Reflects (W.memory g.st) (after (forks.filterMap (·.2.write) ++ md.write.toList) s)

theorem after_append (ws ws' : List (W.Key × W.Val)) (s : W.Key → Option W.Val) :
    after (ws ++ ws') s = after ws' (after ws s) := List.foldl_append

theorem Leaves.of_keeps {s : W.Key → Option W.Val} {st st' : M.St} {α : Type} {g : M.Seg α}
    {forks : List (Prog S ε Unit × W.Mode)} {md : W.Mode} (hs : W.store st' = W.store st)
    (h : Leaves p s st' g forks md) : Leaves p s st g forks md :=
  { h with store := h.store.trans hs }

/-- A segment announces what it has changed. -/
theorem seg_tidy {ans : Nat → (c : S.Cmd) → M.Ans c} :
    ∀ {α : Type} {q : Prog S ε α} {md : W.Mode} {s : W.Key → Option W.Val} {st : M.St}
      {out : List S.Cmd} {g : M.Seg α}, W.Tidy p md q → md.Before s st →
      M.seg p ans q st out = some g → ∃ forks md', Leaves p s st g forks md'
  | _, _, _, s, st, _, g, .ret a, hb, hs => by
      cases hs
      exact ⟨[], .clean, rfl, by simp, ⟨.inl rfl, .ret a⟩, rfl, hb⟩
  | _, _, _, s, st, _, g, .throw e, hb, hs => by
      cases hs
      exact ⟨[], .clean, rfl, by simp, ⟨.inl rfl, .throw e⟩, rfl, hb⟩
  | _, _, _, s, st, _, g, .wait hc hq hk, hb, hs => by
      rw [Machine.seg_call_wait hc] at hs
      cases hs
      exact ⟨[], .clean, rfl, by simp, ⟨.inl rfl, .wait hc hq hk⟩, rfl, hb⟩
  | _, _, _, s, st, _, g, .keep hc hq hk, hb, hs => by
      obtain ⟨r, st', hstep, hs⟩ := Machine.seg_call_sync hc hs
      have hkeeps := hq st _ r st' hstep
      obtain ⟨forks, md', hl⟩ := seg_tidy (hk r) (Mode.Before.of_keeps hkeeps hb) hs
      exact ⟨forks, md', hl.of_keeps hkeeps.2⟩
  | _, _, md, s, st, _, g, .touch x hc hx hstep hk, hb, hs => by
      obtain ⟨r, st', hst', hs⟩ := Machine.seg_call_sync hc hs
      obtain ⟨hstore, hmem⟩ := hstep st _ r st' hst'
      have hb' : Mode.Before s st' (.dirty x) := by
        intro y v hy hv
        exact hb.dirty hx y v hy (hmem y hy ▸ hv)
      obtain ⟨forks, md', hl⟩ := seg_tidy (hk r) hb' hs
      exact ⟨forks, md', hl.of_keeps hstore⟩
  | _, _, md, s, st, _, g, .look x v md' hc hx hq hstep hv hk, hb, hs => by
      obtain ⟨r, st', hst', hs⟩ := Machine.seg_call_sync hc hs
      have hkeeps := hq st _ r st' hst'
      have hb' := Mode.Before.seen (hv r) (hstep st _ r st' hst') (hb.dirty hx)
      obtain ⟨forks, md'', hl⟩ := seg_tidy (hk r) (hb'.of_keeps hkeeps) hs
      exact ⟨forks, md'', hl.of_keeps hkeeps.2⟩
  | _, _, _, s, st, _, g, .announce (w := w) hc hq hk, hb, hs => by
      rw [Machine.seg_call_wait (W.waits _ hc)] at hs
      cases hs
      refine ⟨[], .announced w, rfl, by simp, ⟨.inr ⟨w, rfl⟩, .announce hc hq hk⟩, rfl, ?_⟩
      intro y v hv
      by_cases hy : y = w.1
      · subst hy
        rw [hb.1] at hv
        cases hv
        simp [Mode.write, after]
      · simpa [Mode.write, after, hy] using hb.2 y v hy hv
  | _, _, _, s, st, _, g, .fork _ hq hr, hb, hs => by
      obtain ⟨g₁, g₂, hs₁, hs₂, rfl⟩ := Machine.seg_fork hs
      obtain ⟨forks₁, md₁, hl₁⟩ := seg_tidy hq hb hs₁
      obtain ⟨forks₂, md₂, hl₂⟩ := seg_tidy hr
        (show Mode.Before (after _ s) g₁.st .clean from hl₁.reflects) hs₂
      refine ⟨forks₁ ++ (g₁.rest, md₁) :: forks₂, md₂, ?_, ?_, hl₂.tidy_rest,
        hl₂.store.trans hl₁.store, ?_⟩
      · simp [hl₁.forked, hl₂.forked]
      · intro x hx
        rcases List.mem_append.mp hx with hx | hx
        · exact hl₁.tidy_forks x hx
        · cases List.mem_cons.mp hx with
          | inl he => subst he; exact hl₁.tidy_rest
          | inr hx => exact hl₂.tidy_forks x hx
      · have h := hl₂.reflects
        rw [← after_append] at h
        convert h using 2
        cases md₁ with
        | announced w => simp [Mode.write]
        | clean | dirty | sends => simp [Mode.write]

/-! ## Runs -/

/-- The write of a task in line that is under way. -/
def sent : Task M × W.Mode → Option (W.Key × W.Val)
  | (t, .sends w) => if t.ready then none else some w
  | _ => none

/-- The write of a task in line that is still to be sent. -/
def ahead : Task M × W.Mode → Option (W.Key × W.Val)
  | (t, .sends w) => if t.ready then some w else none
  | (_, .announced w) => some w
  | _ => none

/-- The writes that are due. -/
def due (l : List (Task M × W.Mode)) : List (W.Key × W.Val) := l.filterMap sent ++ l.filterMap ahead

/-- A task in line, with its mode.  It has a write to announce only while it waits. -/
structure InLine (x : Task M × W.Mode) : Prop where
  tidy : W.Tidy (M.pid x.1.ev) x.2 x.1.prog
  fits : x.2 = .clean ∨ (∃ w, x.2 = .announced w ∧ x.1.ready = false) ∨ ∃ w, x.2 = .sends w

/-- The due writes of the line `l` bring the store up to the memory. -/
structure Behind (w : Lined M) (l : List (Task M × W.Mode)) : Prop where
  line : l.map Prod.fst = w.line
  inLine : ∀ x ∈ l, InLine x
  loose : ∀ t ∈ w.loose, W.Tidy (M.pid t.ev) .clean t.prog
  reflects : Reflects (W.memory w.st) (after (due l) (W.store w.st))

/-- Tasks that send nothing are due after all others. -/
theorem due_append {l l' : List (Task M × W.Mode)} (h : ∀ x ∈ l', sent x = none) :
    due (l ++ l') = due l ++ l'.filterMap ahead := by
  have hnil : l'.filterMap sent = [] := List.filterMap_eq_nil_iff.mpr h
  simp [due, hnil]

theorem Mode.settled.sent {x : Task M × W.Mode} (h : x.2.settled) : sent x = none := by
  obtain ⟨t, md⟩ := x
  rcases h with rfl | ⟨w, rfl⟩
  · rfl
  · rfl

theorem Mode.settled.ahead {x : Task M × W.Mode} (h : x.2.settled) :
    WriteBehind.ahead x = x.2.write := by
  obtain ⟨t, md⟩ := x
  rcases h with rfl | ⟨w, rfl⟩
  · rfl
  · rfl

/-- A program with a write to announce waits for an ordered command. -/
theorem tidy_announced {q : Prog S ε Unit} {w : W.Key × W.Val} (h : W.Tidy p (.announced w) q) :
    ∃ c k, q = .call c k ∧ W.ordered c = true ∧ W.Quiet p c ∧ ∀ r, W.Tidy p (.sends w) (k r) := by
  cases h with
  | touch x hc hx hs hk => rcases hx with hx | hx <;> cases hx
  | look x v md' hc hx hq hs hv hk => rcases hx with hx | hx <;> cases hx
  | announce hc hq hk => exact ⟨_, _, rfl, hc, hq, hk⟩
  | fork hm hq hr => cases hm

theorem tidy_sends {q : Prog S ε Unit} {w : W.Key × W.Val} (h : W.Tidy p (.sends w) q) :
    ∃ c k, q = .call c k ∧ W.ordered c = true ∧
      (∀ st a r st', M.step p c st a = some (r, st') →
        W.memory st' = W.memory st ∧ W.store st' = Function.update (W.store st) w.1 (some w.2)) ∧
      ∀ r, W.Tidy p .clean (k r) := by
  cases h with
  | touch x hc hx hs hk => rcases hx with hx | hx <;> cases hx
  | look x v md' hc hx hq hs hv hk => rcases hx with hx | hx <;> cases hx
  | send hc hs hk => exact ⟨_, _, rfl, hc, hs, hk⟩
  | fork hm hq hr => cases hm

/-- A clean program that waits. -/
theorem tidy_wait {c : S.Cmd} {k : S.Res c → Prog S ε Unit} (hc : M.sync c = false)
    (h : W.Tidy p .clean (.call c k)) : W.Quiet p c ∧ ∀ r, W.Tidy p .clean (k r) := by
  cases h with
  | wait _ hq hk => exact ⟨hq, hk⟩
  | keep hc' => simp [hc] at hc'
  | touch _ hc' => simp [hc] at hc'
  | look _ _ _ hc' => simp [hc] at hc'

/-- The tasks a segment leaves, with their modes. -/
def Leaves.tasks (ev : M.Ev) {g : M.Seg Unit} (forks : List (Prog S ε Unit × W.Mode))
    (md : W.Mode) : List (Task M × W.Mode) :=
  (forks ++ [(g.rest, md)]).map fun x => (⟨ev, x.1, false⟩, x.2)

/-- The world after a segment of a loose task, or of the first in line. -/
theorem Behind.settle {st : M.St} {line loose : List (Task M)} {ev : M.Ev} {g : M.Seg Unit}
    {l : List (Task M × W.Mode)} {forks : List (Prog S ε Unit × W.Mode)} {md : W.Mode}
    (hline : l.map Prod.fst = line) (hin : ∀ x ∈ l, InLine x)
    (hloose : ∀ t ∈ loose, W.Tidy (M.pid t.ev) .clean t.prog)
    (h : Leaves (M.pid ev) (after (due l) (W.store st)) st g forks md) :
    ∃ l', Behind (W := W) (.settle W.ordered line loose ev g) l' := by
  have hnew : ∀ x ∈ Leaves.tasks (g := g) ev forks md,
      x.1.ev = ev ∧ x.1.ready = false ∧ x.2.settled ∧ W.Tidy (M.pid ev) x.2 x.1.prog := by
    intro x hx
    obtain ⟨y, hy, rfl⟩ := List.mem_map.mp hx
    rcases List.mem_append.mp hy with hy | hy
    · exact ⟨rfl, rfl, h.tidy_forks y hy⟩
    · cases List.mem_singleton.mp hy
      exact ⟨rfl, rfl, h.tidy_rest⟩
  have htasks : (Leaves.tasks (g := g) ev forks md).map Prod.fst = g.tasks ev := by
    rw [Leaves.tasks, Machine.Seg.tasks, ← h.forked]
    simp [Function.comp_def]
  have hahead : (Leaves.tasks (g := g) ev forks md).filterMap ahead =
      forks.filterMap (·.2.write) ++ md.write.toList := by
    rw [List.filterMap_congr fun x hx => (hnew x hx).2.2.1.ahead, Leaves.tasks, List.filterMap_map,
      List.filterMap_append]
    congr 1
  generalize Leaves.tasks (g := g) ev forks md = new at hnew htasks hahead
  -- what does not wait for an ordered command has no write to announce
  have hclean : ∀ x ∈ new, x.1.awaits W.ordered = false → x.2 = .clean := by
    intro x hx hw
    obtain ⟨-, -, hs, ht⟩ := hnew x hx
    rcases hs with hs | ⟨w, hs⟩
    · exact hs
    · obtain ⟨c, k, hq, hc, -⟩ := tidy_announced (hs ▸ ht)
      simp [Task.awaits, hq, hc] at hw
  refine ⟨l ++ new.filter (·.1.awaits W.ordered), ?_, ?_, ?_, ?_⟩
  · simp only [Lined.settle, List.map_append, hline, ← htasks, List.filter_map]
    rfl
  · intro x hx
    rcases List.mem_append.mp hx with hx | hx
    · exact hin x hx
    · obtain ⟨he, hr, hs, ht⟩ := hnew x (List.mem_filter.mp hx).1
      refine ⟨he ▸ ht, ?_⟩
      rcases hs with hs | ⟨w, hs⟩
      · exact .inl hs
      · exact .inr (.inl ⟨w, hs, hr⟩)
  · intro t ht
    rcases List.mem_append.mp ht with ht | ht
    · exact hloose t ht
    · obtain ⟨ht, hw⟩ := List.mem_filter.mp ht
      rw [← htasks] at ht
      obtain ⟨x, hx, rfl⟩ := List.mem_map.mp ht
      obtain ⟨he, -, -, htidy⟩ := hnew x hx
      rw [he, ← hclean x hx (by simpa using hw)]
      exact htidy
  · have hsent : ∀ x ∈ new.filter (·.1.awaits W.ordered), sent x = none :=
      fun x hx => (hnew x (List.mem_filter.mp hx).1).2.2.1.sent
    have hfilter : (new.filter (·.1.awaits W.ordered)).filterMap ahead = new.filterMap ahead := by
      rw [List.filterMap_filter]
      refine List.filterMap_congr fun x hx => ?_
      split
      · rfl
      next hw =>
        obtain ⟨t, md⟩ := x
        cases hclean _ hx (by simpa using hw)
        rfl
    rw [due_append hsent, hfilter, hahead, after_append]
    simpa only [Lined.settle, h.store] using h.reflects

/-- The writes that are due, where those before a task have their answers. -/
theorem due_middle {l₁ l₂ : List (Task M × W.Mode)} (h : ∀ x ∈ l₁, sent x = none)
    (x : Task M × W.Mode) : due (l₁ ++ x :: l₂) =
      (sent x).toList ++ (l₂.filterMap sent ++
        (l₁.filterMap ahead ++ ((ahead x).toList ++ l₂.filterMap ahead))) := by
  have hnil : l₁.filterMap sent = [] := List.filterMap_eq_nil_iff.mpr h
  have hsent : (x :: l₂).filterMap sent = (sent x).toList ++ l₂.filterMap sent := by
    rw [List.filterMap_cons]
    cases sent x with
    | none => rfl
    | some w => rfl
  have hahead : (x :: l₂).filterMap ahead = (ahead x).toList ++ l₂.filterMap ahead := by
    rw [List.filterMap_cons]
    cases ahead x with
    | none => rfl
    | some w => rfl
  simp only [due, List.filterMap_append, hnil, hsent, hahead, List.nil_append, List.append_assoc]

/-- The world after the first in line has sent the write it announced. -/
theorem Behind.send {st : M.St} {line loose : List (Task M)} {ev : M.Ev} {c : S.Cmd}
    {k : S.Res c → Prog S ε Unit} {t : Task M} {l : List (Task M × W.Mode)} {w : W.Key × W.Val}
    (ht : t.ready = true) (hc : W.ordered c = true)
    (htidy : W.Tidy (M.pid ev) (.sends w) (.call c k))
    (hl : Behind ⟨st, t :: line, loose⟩ ((t, .sends w) :: l)) :
    Behind (.settle W.ordered line loose ev ⟨.call c k, st, [], []⟩)
      (l ++ [(⟨ev, .call c k, false⟩, .sends w)]) := by
  have hnew : Machine.Seg.tasks (M := M) ⟨.call c k, st, [], []⟩ ev = [⟨ev, .call c k, false⟩] := rfl
  refine ⟨?_, ?_, ?_, ?_⟩
  · have hline : l.map Prod.fst = line := (List.cons.inj hl.line).2
    simp [Lined.settle, hnew, Task.awaits, hc, hline]
  · intro x hx
    rcases List.mem_append.mp hx with hx | hx
    · exact hl.inLine x (List.mem_cons_of_mem _ hx)
    · cases List.mem_singleton.mp hx
      exact ⟨htidy, .inr (.inr ⟨w, rfl⟩)⟩
  · simpa [Lined.settle, hnew, Task.awaits, hc] using hl.loose
  · have hdue : due (l ++ [(⟨ev, .call c k, false⟩, .sends w)]) = due ((t, .sends w) :: l) := by
      simp [due, sent, ahead, ht]
    rw [hdue]
    exact hl.reflects

/-- The world after a command in line has been carried out. -/
theorem Behind.serve {st st' : M.St} {l₁ l₂ loose : List (Task M)} {ev : M.Ev} {c : S.Cmd}
    {k : S.Res c → Prog S ε Unit} {a : M.Ans c} {r : S.Res c} {l : List (Task M × W.Mode)}
    (hready : ∀ t ∈ l₁, t.ready = true) (hc : M.sync c = false)
    (hs : M.step (M.pid ev) c st a = some (r, st'))
    (hl : Behind (W := W) ⟨st, l₁ ++ ⟨ev, .call c k, false⟩ :: l₂, loose⟩ l) :
    ∃ l', Behind (W := W) ⟨st', l₁ ++ ⟨ev, k r, true⟩ :: l₂, loose⟩ l' := by
  obtain ⟨m₁, m₂, rfl, rfl, hm₂⟩ := List.map_eq_append_iff.mp hl.line
  obtain ⟨⟨t, md⟩, m₃, rfl, rfl, rfl⟩ := List.map_eq_cons_iff.mp hm₂
  have hsent : ∀ x ∈ m₁, sent x = none := by
    intro x hx
    have hr := hready x.1 (List.mem_map_of_mem hx)
    obtain ⟨t, md⟩ := x
    cases md with
    | sends w => exact if_pos hr
    | clean | dirty | announced => rfl
  have hin := hl.inLine (⟨ev, .call c k, false⟩, md) (by simp)
  -- the task goes on in the mode `md'`, and the others stay as they are
  have hgoes : ∀ md' : W.Mode, InLine (⟨ev, k r, true⟩, md') →
      Reflects (W.memory st') (after (due (m₁ ++ (⟨ev, k r, true⟩, md') :: m₃)) (W.store st')) →
      ∃ l', Behind (W := W) ⟨st', m₁.map Prod.fst ++ ⟨ev, k r, true⟩ :: m₃.map Prod.fst, loose⟩ l' := by
    intro md' hin' hr
    refine ⟨_, by simp, fun x hx => ?_, hl.loose, hr⟩
    rcases List.mem_append.mp hx with hx | hx
    · exact hl.inLine x (List.mem_append_left _ hx)
    · cases List.mem_cons.mp hx with
      | inl he => subst he; exact hin'
      | inr hx => exact hl.inLine x (List.mem_append_right _ (List.mem_cons_of_mem _ hx))
  have hreflects := hl.reflects
  rw [due_middle hsent] at hreflects
  rcases hin.fits with hmd | ⟨w, hmd, -⟩ | ⟨w, hmd⟩
  · cases hmd
    obtain ⟨hq, hk⟩ := tidy_wait hc hin.tidy
    obtain ⟨hmem, hstore⟩ := hq st a r st' hs
    refine hgoes .clean ⟨hk r, .inl rfl⟩ ?_
    rw [due_middle hsent, hmem, hstore]
    exact hreflects
  · cases hmd
    obtain ⟨c', k', hq', -, hq, hk⟩ := tidy_announced hin.tidy
    cases hq'
    obtain ⟨hmem, hstore⟩ := hq st a r st' hs
    refine hgoes (.sends w) ⟨hk r, .inr (.inr ⟨w, rfl⟩)⟩ ?_
    rw [due_middle hsent, hmem, hstore]
    exact hreflects
  · cases hmd
    obtain ⟨c', k', hq', -, hwrite, hk⟩ := tidy_sends hin.tidy
    cases hq'
    obtain ⟨hmem, hstore⟩ := hwrite st a r st' hs
    refine hgoes .clean ⟨hk r, .inl rfl⟩ ?_
    rw [due_middle hsent, hmem, hstore]
    exact hreflects

/-- In every run in order, the due writes bring the store up to the memory. -/
theorem reach_behind {init : M.St → Prop}
    (hinit : ∀ st, init st → Reflects (W.memory st) (W.store st))
    (henter : ∀ ev st st', M.enter ev st = some st' → W.Keeps st st')
    (hbody : ∀ ev st st', M.enter ev st = some st' → W.Tidy (M.pid ev) .clean (M.body ev))
    {w : Lined M}
    (hw : M.InOrder W.ordered init w) : ∃ l, Behind (W := W) w l := by
  induction hw with
  | start h => exact ⟨[], rfl, by simp, by simp, hinit _ h⟩
  | @enter w ev st _ he ih =>
      obtain ⟨l, hl⟩ := ih
      have hkeeps := henter ev w.st st he
      refine ⟨l, hl.line, hl.inLine, ?_, ?_⟩
      · intro t ht
        rcases List.mem_append.mp ht with ht | ht
        · exact hl.loose t ht
        · cases List.mem_singleton.mp ht
          exact hbody ev w.st st he
      · simpa only [hkeeps.1, hkeeps.2] using hl.reflects
  | @resume st line l₁ l₂ ev q ans g _ hs ih =>
      obtain ⟨l, hl⟩ := ih
      obtain ⟨forks, md, hleaves⟩ := seg_tidy (hl.loose ⟨ev, q, true⟩ (by simp)) hl.reflects hs
      refine Behind.settle hl.line hl.inLine (fun t ht => hl.loose t ?_) hleaves
      rcases List.mem_append.mp ht with ht | ht
      · exact List.mem_append_left _ ht
      · exact List.mem_append_right _ (List.mem_cons_of_mem _ ht)
  | @advance st line loose ev q ans g _ hs ih =>
      obtain ⟨l, hl⟩ := ih
      obtain ⟨⟨t, md⟩, l, rfl, rfl, hline⟩ := List.map_eq_cons_iff.mp hl.line
      have hin := hl.inLine (⟨ev, q, true⟩, md) (by simp)
      rcases hin.fits with hmd | ⟨w, -, hr⟩ | ⟨w, hmd⟩
      · cases hmd
        obtain ⟨forks, md, hleaves⟩ := seg_tidy hin.tidy hl.reflects hs
        exact Behind.settle hline (fun x hx => hl.inLine x (List.mem_cons_of_mem _ hx)) hl.loose hleaves
      · cases hr
      · cases hmd
        have htidy := hin.tidy
        obtain ⟨c, k, rfl, hc, -⟩ := tidy_sends htidy
        rw [Machine.seg_call_wait (W.waits c hc)] at hs
        cases hs
        exact ⟨_, hl.send rfl hc htidy⟩
  | @reply st st' line l₁ l₂ ev c k ans r _ hc hs ih =>
      obtain ⟨l, hl⟩ := ih
      obtain ⟨hq, hk⟩ := tidy_wait hc (hl.loose ⟨ev, .call c k, false⟩ (by simp))
      obtain ⟨hmem, hstore⟩ := hq st _ r st' hs
      refine ⟨l, hl.line, hl.inLine, fun t ht => ?_, ?_⟩
      · rcases List.mem_append.mp ht with ht | ht
        · exact hl.loose t (List.mem_append_left _ ht)
        · cases List.mem_cons.mp ht with
          | inl he => subst he; exact hk r
          | inr ht => exact hl.loose t (List.mem_append_right _ (List.mem_cons_of_mem _ ht))
      · simpa only [hmem, hstore] using hl.reflects
  | @serve st st' l₁ l₂ loose ev c k ans r _ hready hc hs ih =>
      obtain ⟨l, hl⟩ := ih
      exact hl.serve hready hc hs

/-- A task whose program is at its end has no write due. -/
theorem InLine.clean {x : Task M × W.Mode} (h : InLine x) (he : x.1.prog.ended = true) :
    x.2 = .clean := by
  rcases h.fits with hmd | ⟨w, hmd, -⟩ | ⟨w, hmd⟩
  · exact hmd
  · obtain ⟨c, k, hq, -⟩ := tidy_announced (hmd ▸ h.tidy)
    rw [hq] at he
    cases he
  · obtain ⟨c, k, hq, -⟩ := tidy_sends (hmd ▸ h.tidy)
    rw [hq] at he
    cases he

/-- The store has what the memory has once all programs in line are at their end. -/
theorem Behind.caught_up {w : Lined M} {l : List (Task M × W.Mode)} (hl : Behind w l)
    (hended : ∀ t ∈ w.line, t.prog.ended = true) : Reflects (W.memory w.st) (W.store w.st) := by
  have hclean : ∀ x ∈ l, x.2 = .clean := fun x hx =>
    (hl.inLine x hx).clean (hended x.1 (hl.line ▸ List.mem_map_of_mem hx))
  have hsettled : ∀ x ∈ l, x.2.settled := fun x hx => .inl (hclean x hx)
  have hsent : l.filterMap sent = [] :=
    List.filterMap_eq_nil_iff.mpr fun x hx => (hsettled x hx).sent
  have hahead : l.filterMap ahead = [] := List.filterMap_eq_nil_iff.mpr fun x hx => by
    rw [(hsettled x hx).ahead, hclean x hx]
    rfl
  have h := hl.reflects
  rw [due, hsent, hahead] at h
  exact h

end WriteBehind

end Async
