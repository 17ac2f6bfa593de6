import Mathlib.Data.List.Forall2
import NexusErebus.Async.Stages

/-!
# Two programs in step

Two programs are meant to do the same thing, each against a handler of its own.  A *pairing* says
what that means: what of a command and its answer is seen, which things that are seen correspond,
and which states of the two handlers go together.

`Prog.InStep` says that two programs keep to a pairing.  From states that go together, what is
seen of the two runs corresponds entry by entry, and the runs end alike, in states that go
together.  Both return, or both throw the same error, so they fail at the same place.  The rules
follow the way programs are built.  A part that is not seen may be there on one side only.
-/

namespace Async

variable {S : Sig} {ε σ τ ω : Type}

/-- Two runs end alike: with related values, or with the same error. -/
inductive Alike {α β : Type} (R : α → β → Prop) : Except ε α → Except ε β → Prop
  | ok {a : α} {b : β} (h : R a b) : Alike R (.ok a) (.ok b)
  | error (e : ε) : Alike R (.error e) (.error e)

/-- What two runs have to agree on. -/
structure Pairing (S : Sig) (σ τ ω : Type) where
  left : (c : S.Cmd) → σ → S.Res c × σ
  right : (c : S.Cmd) → τ → S.Res c × τ
  /-- What is seen of a command and its answer. -/
  view : ((c : S.Cmd) × S.Res c) → Option ω
  /-- What is seen corresponds. -/
  same : ω → ω → Prop
  /-- The states go together. -/
  inv : σ → τ → Prop

namespace Pairing

variable (P : Pairing S σ τ ω)

/-- A command that the left run may issue by itself. -/
def AsideLeft (c : S.Cmd) : Prop :=
  (∀ r, P.view ⟨c, r⟩ = none) ∧ ∀ s t, P.inv s t → P.inv (P.left c s).2 t

/-- A command that the right run may issue by itself. -/
def AsideRight (c : S.Cmd) : Prop :=
  (∀ r, P.view ⟨c, r⟩ = none) ∧ ∀ s t, P.inv s t → P.inv s (P.right c t).2

end Pairing

namespace Prog

/-- Two programs keep to a pairing and return related values. -/
def InStep {α β : Type} (P : Pairing S σ τ ω) (p : Prog S ε α) (q : Prog S ε β)
    (R : α → β → Prop) : Prop :=
  ∀ s t, P.inv s t →
    List.Forall₂ P.same ((p.log P.left s).filterMap P.view) ((q.log P.right t).filterMap P.view) ∧
      P.inv (p.run P.left s).2 (q.run P.right t).2 ∧
      Alike R (p.run P.left s).1 (q.run P.right t).1

section InStep

variable {P : Pairing S σ τ ω} {α β γ δ : Type} {p : Prog S ε α} {q : Prog S ε β}
  {R : α → β → Prop}

theorem inStep_ret {a : α} {b : β} (h : R a b) :
    InStep P (.ret a : Prog S ε α) (.ret b : Prog S ε β) R :=
  fun _ _ hi => ⟨.nil, hi, .ok h⟩

theorem inStep_throw (e : ε) : InStep P (.throw e : Prog S ε α) (.throw e : Prog S ε β) R :=
  fun _ _ hi => ⟨.nil, hi, .error e⟩

theorem inStep_ofExcept (x : Except ε α) :
    InStep P (ofExcept x : Prog S ε α) (ofExcept x : Prog S ε α) Eq := by
  cases x with
  | ok a => exact inStep_ret rfl
  | error e => exact inStep_throw e

/-- Two commands that are seen, and what is known of their answers. -/
theorem inStep_ask {c d : S.Cmd} {R : S.Res c → S.Res d → Prop}
    (h : ∀ s t, P.inv s t → (∃ x y, P.view ⟨c, (P.left c s).1⟩ = some x ∧
      P.view ⟨d, (P.right d t).1⟩ = some y ∧ P.same x y) ∧
      P.inv (P.left c s).2 (P.right d t).2 ∧ R (P.left c s).1 (P.right d t).1) :
    InStep P (ask c : Prog S ε _) (ask d : Prog S ε _) R := by
  intro s t hi
  obtain ⟨⟨x, y, hx, hy, hxy⟩, hi', hr⟩ := h s t hi
  refine ⟨?_, hi', .ok hr⟩
  simp only [ask, log, List.filterMap_cons, hx, hy, List.filterMap_nil]
  exact .cons hxy .nil

/-- The rule of sequencing. -/
theorem inStep_bind {f : α → Prog S ε γ} {g : β → Prog S ε δ} {R' : γ → δ → Prop}
    (h : InStep P p q R) (hf : ∀ a b, R a b → InStep P (f a) (g b) R') :
    InStep P (p.bind f) (q.bind g) R' := by
  intro s t hi
  obtain ⟨hlog, hi', hend⟩ := h s t hi
  rw [log_bind, log_bind, run_bind, run_bind, List.filterMap_append, List.filterMap_append]
  revert hi' hend
  rcases p.run P.left s with ⟨x, s'⟩
  rcases q.run P.right t with ⟨y, t'⟩
  intro hi' hend
  cases hend with
  | ok hab =>
      obtain ⟨hlog', hrest⟩ := hf _ _ hab s' t' hi'
      exact ⟨List.rel_append hlog hlog', hrest⟩
  | error e =>
      refine ⟨?_, hi', .error e⟩
      simpa using hlog

theorem inv_run_left (hp : p.Issues P.AsideLeft) {s : σ} {t : τ} (hi : P.inv s t) :
    P.inv (p.run P.left s).2 t :=
  hp.run_inv (I := fun s => P.inv s t) (fun _ s hc hs => hc.2 s t hs) hi

theorem inv_run_right (hq : q.Issues P.AsideRight) {s : σ} {t : τ} (hi : P.inv s t) :
    P.inv s (q.run P.right t).2 :=
  hq.run_inv (I := fun t => P.inv s t) (fun _ t hc ht => hc.2 s t ht) hi

/-- Two parts that are not seen, if they end alike. -/
theorem inStep_aside (hp : p.Issues P.AsideLeft) (hq : q.Issues P.AsideRight)
    (h : ∀ s t, P.inv s t → Alike R (p.run P.left s).1 (q.run P.right t).1) : InStep P p q R := by
  intro s t hi
  refine ⟨?_, inv_run_left hp (inv_run_right hq hi), h s t hi⟩
  rw [hp.log_eq_nil fun c r hc => hc.1 r, hq.log_eq_nil fun c r hc => hc.1 r]
  exact .nil

/-- A part that is not seen and comes at the end of one side only. -/
theorem inStep_bind_right {g : β → Prog S ε δ} {R' : α → δ → Prop} (h : InStep P p q R)
    (hg : ∀ b, (g b).Issues P.AsideRight)
    (hr : ∀ a b t, R a b → ∃ d, ((g b).run P.right t).1 = .ok d ∧ R' a d) :
    InStep P p (q.bind g) R' := by
  have hp : p = p.bind .ret := (bind_ret p).symm
  rw [hp]
  refine inStep_bind h fun a b hab => inStep_aside (.ret a) (hg b) fun s t hi => ?_
  obtain ⟨d, hd, had⟩ := hr a b t hab
  rw [hd]
  exact .ok had

end InStep

end Prog

end Async
