import NexusErebus.Async.Prog

/-!
# Sequences of steps that may fail

A long running operation is a list of stages.  A stage succeeds or fails, and one that succeeds
may leave an effect behind.  The operation stops at the first stage that fails, and nothing takes
the effects of the earlier ones back (`Stage.outcome`).

An operation is *atomic* if it leaves every effect or none, and reports which.  The stages in
front of the first effect do no harm.  Behind it every stage has to succeed
(`Stage.atomic_iff`).

`Prog.Follows` says that the run of a program goes through a list of stages: it returns if and
only if all of them succeed, and what it does, seen through a function that picks out the
effects, is what the stages leave.
-/

namespace Async

/-! ## Stages -/

/-- A step that succeeds or fails, and what it leaves behind if it succeeds. -/
structure Stage (ω : Type) where
  ok : Bool
  effect : Option ω

namespace Stage

variable {ω : Type}

/-- Whether all stages succeed, and what is left behind. -/
def outcome : List (Stage ω) → Bool × List ω
  | [] => (true, [])
  | x :: xs => if x.ok then ((outcome xs).1, x.effect.toList ++ (outcome xs).2) else (false, [])

theorem outcome_cons_ok {x : Stage ω} (h : x.ok = true) (xs : List (Stage ω)) :
    outcome (x :: xs) = ((outcome xs).1, x.effect.toList ++ (outcome xs).2) := by
  rw [outcome, if_pos h]

theorem outcome_cons_error {x : Stage ω} (h : x.ok = false) (xs : List (Stage ω)) :
    outcome (x :: xs) = (false, []) := by
  rw [outcome, h]
  rfl

theorem outcome_fst (xs : List (Stage ω)) : (outcome xs).1 = xs.all Stage.ok := by
  induction xs with
  | nil => rfl
  | cons x xs ih =>
      cases hx : x.ok with
      | true => rw [outcome_cons_ok hx, List.all_cons, hx, Bool.true_and, ih]
      | false => rw [outcome_cons_error hx, List.all_cons, hx, Bool.false_and]

theorem outcome_of_all {xs : List (Stage ω)} (h : ∀ x ∈ xs, x.ok = true) :
    outcome xs = (true, xs.filterMap Stage.effect) := by
  induction xs with
  | nil => rfl
  | cons x xs ih =>
      rw [outcome_cons_ok (h x (List.mem_cons_self ..)),
        ih fun y hy => h y (List.mem_cons_of_mem _ hy)]
      cases he : x.effect with
      | none => simp [he]
      | some o => simp [he]

/-- All effects are there and success is reported, or an error is reported and none is. -/
def Atomic (result : Bool × List ω) : Prop :=
  (result.1 = true ∧ ∀ o, o ∈ result.2) ∨ (result.1 = false ∧ result.2 = [])

/-- Stages without an effect decide whether the rest is run, and nothing else. -/
theorem atomic_skip {xs : List (Stage ω)} : ∀ {front : List (Stage ω)},
    (∀ x ∈ front, x.effect = none) →
      (Atomic (outcome (front ++ xs)) ↔ ((∀ x ∈ front, x.ok = true) → Atomic (outcome xs)))
  | [], _ => by simp
  | x :: front, h => by
      have hfront : ∀ y ∈ front, y.effect = none := fun y hy => h y (List.mem_cons_of_mem _ hy)
      have ih : Atomic (outcome (front ++ xs)) ↔ _ := atomic_skip hfront
      have hx := h x (List.mem_cons_self ..)
      rw [List.cons_append]
      cases hok : x.ok with
      | true =>
          rw [outcome_cons_ok hok, hx, Option.toList_none, List.nil_append, ih]
          simp [hok]
      | false =>
          rw [outcome_cons_error hok]
          simp [Atomic, hok]

/-- An operation is atomic if and only if it stops before its first effect, or goes through. -/
theorem atomic_iff {front back : List (Stage ω)} {x : Stage ω}
    (hfront : ∀ y ∈ front, y.effect = none) (hx : x.effect ≠ none)
    (hall : ∀ o, o ∈ (x :: back).filterMap Stage.effect) :
    Atomic (outcome (front ++ x :: back)) ↔
      ((∀ y ∈ front, y.ok = true) → x.ok = true → ∀ y ∈ back, y.ok = true) := by
  rw [atomic_skip hfront]
  refine imp_congr_right fun _ => ?_
  cases hok : x.ok with
  | false =>
      rw [outcome_cons_error hok]
      simp [Atomic]
  | true =>
      refine ⟨fun h _ => ?_, fun h => ?_⟩
      · rcases h with ⟨hreport, -⟩ | ⟨-, hnone⟩
        · rw [outcome_fst, List.all_cons, hok, Bool.true_and] at hreport
          exact List.all_eq_true.mp hreport
        · -- the effect of the first stage stays
          obtain ⟨o, ho⟩ := Option.ne_none_iff_exists'.mp hx
          rw [outcome_cons_ok hok, ho] at hnone
          cases hnone
      · have hall' : ∀ y ∈ x :: back, y.ok = true := List.forall_mem_cons.mpr ⟨hok, h rfl⟩
        rw [outcome_of_all hall']
        exact .inl ⟨rfl, hall⟩

end Stage

/-! ## Programs -/

variable {S : Sig} {ε σ : Type}

namespace Prog

/-- The commands of a run with their answers, in order. -/
def log (step : (c : S.Cmd) → σ → S.Res c × σ) :
    {α : Type} → Prog S ε α → σ → List ((c : S.Cmd) × S.Res c)
  | _, .ret _, _ => []
  | _, .throw _, _ => []
  | _, .call c k, s => ⟨c, (step c s).1⟩ :: (k (step c s).1).log step (step c s).2
  | _, .fork p q, s => p.log step s ++ q.log step (p.run step s).2

section

variable {step : (c : S.Cmd) → σ → S.Res c × σ}

theorem log_bind {β : Type} : ∀ {α : Type} (p : Prog S ε α) (f : α → Prog S ε β) (s : σ),
    (p.bind f).log step s = p.log step s ++
      match p.run step s with
      | (.ok a, s') => (f a).log step s'
      | (.error _, _) => []
  | _, .ret _, _, _ => rfl
  | _, .throw _, _, _ => rfl
  | _, .call c k, f, s =>
      congrArg ((⟨c, (step c s).1⟩ : (c : S.Cmd) × S.Res c) :: ·) (log_bind (k _) f _)
  | _, .fork p q, f, s => by
      have ih := log_bind q f (p.run step s).2
      simp only [bind, log, run, List.append_assoc, ih]

/-- The log of a run under a handler, where the handler does nothing that is seen. -/
theorem log_tryCatch {ω : Type} {view : ((c : S.Cmd) × S.Res c) → Option ω} :
    ∀ {α : Type} (p : Prog S ε α) {h : ε → Prog S ε α} (s : σ),
      (∀ e s', ((h e).log step s').filterMap view = []) →
      ((p.tryCatch h).log step s).filterMap view = (p.log step s).filterMap view
  | _, .ret _, _, _, _ => rfl
  | _, .throw e, _, s, hh => hh e s
  | _, .call c k, h, s, hh => by
      have ih := log_tryCatch (k (step c s).1) (step c s).2 hh
      simp only [tryCatch, log, List.filterMap_cons, ih]
  | _, .fork p q, h, s, hh => by
      have ih := log_tryCatch q (p.run step s).2 hh
      simp only [tryCatch, log, List.filterMap_append, ih]

/-- The log of a program whose commands are not seen. -/
theorem Issues.log_eq_nil {ω : Type} {view : ((c : S.Cmd) × S.Res c) → Option ω}
    {pre : S.Cmd → Prop} (hpre : ∀ c r, pre c → view ⟨c, r⟩ = none) :
    ∀ {α : Type} {p : Prog S ε α} {s : σ}, p.Issues pre → (p.log step s).filterMap view = []
  | _, _, _, .ret _ => rfl
  | _, _, _, .throw _ => rfl
  | _, _, _, .call hc hk => by
      simp only [log, List.filterMap_cons, hpre _ _ hc]
      exact Issues.log_eq_nil hpre (hk _)
  | _, _, _, .fork hp hq => by
      simp only [log, List.filterMap_append, Issues.log_eq_nil hpre hp,
        Issues.log_eq_nil hpre hq, List.append_nil]

end

/-- The run goes through a list of stages. -/
def Follows {ω α : Type} (step : (c : S.Cmd) → σ → S.Res c × σ)
    (view : ((c : S.Cmd) × S.Res c) → Option ω) (p : Prog S ε α) (s : σ) (xs : List (Stage ω)) :
    Prop :=
  ((p.run step s).1.isOk, (p.log step s).filterMap view) = Stage.outcome xs

section Follows

variable {ω α β : Type} {step : (c : S.Cmd) → σ → S.Res c × σ}
  {view : ((c : S.Cmd) × S.Res c) → Option ω} {p : Prog S ε α} {f : α → Prog S ε β} {s : σ}
  {x : Stage ω} {xs : List (Stage ω)}

theorem follows_ret (a : α) : (Prog.ret a : Prog S ε α).Follows step view s [] := rfl

/-- The rule of sequencing: the first part is a stage, and what comes after it goes through the
rest. -/
theorem follows_bind (hp : p.Follows step view s [x])
    (hf : ∀ a s', p.run step s = (.ok a, s') → x.ok = true → (f a).Follows step view s' xs) :
    (p.bind f).Follows step view s (x :: xs) := by
  unfold Follows at hp ⊢
  rw [run_bind, log_bind, List.filterMap_append]
  cases hx : x.ok with
  | false =>
      rw [Stage.outcome_cons_error hx, Prod.mk.injEq] at hp
      rw [Stage.outcome_cons_error hx, hp.2]
      cases hrun : p.run step s with
      | mk r s' =>
          rw [hrun] at hp
          cases r with
          | ok a => cases hp.1
          | error e => rfl
  | true =>
      rw [Stage.outcome_cons_ok hx, Prod.mk.injEq] at hp
      rw [Stage.outcome_cons_ok hx, hp.2]
      cases hrun : p.run step s with
      | mk r s' =>
          rw [hrun] at hp
          cases r with
          | error e => cases hp.1
          | ok a =>
              have hrest : (_, _) = Stage.outcome xs := hf a s' hrun hx
              simp only [← hrest, Stage.outcome, List.append_nil]

/-- A part that returns and is not seen is no stage. -/
theorem follows_bind_quiet {a : α} {s' : σ} (hrun : p.run step s = (.ok a, s'))
    (hlog : (p.log step s).filterMap view = []) (hf : (f a).Follows step view s' xs) :
    (p.bind f).Follows step view s xs := by
  unfold Follows
  rw [run_bind, log_bind, List.filterMap_append, hlog, hrun]
  exact hf

/-- A part that is not seen is a stage without an effect. -/
theorem follows_quiet {pre : S.Cmd → Prop} (hpre : ∀ c r, pre c → view ⟨c, r⟩ = none)
    (hp : p.Issues pre) : p.Follows step view s [⟨(p.run step s).1.isOk, none⟩] := by
  unfold Follows
  rw [hp.log_eq_nil hpre]
  cases hrun : (p.run step s).1 with
  | ok a => rfl
  | error e => rfl

end Follows

end Prog

end Async
