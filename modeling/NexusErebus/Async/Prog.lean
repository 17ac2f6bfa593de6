import Mathlib.Logic.Basic
import Mathlib.Data.List.Basic

/-!
# Programs that call their environment

An asynchronous program is a tree.  A node is a command the program hands to its
environment, and its branches are the programs that go on with the answer.  A
leaf returns a value or throws an error.  One further node, `fork`, starts a
program nobody waits for.  Sequencing and `tryCatch` are defined by recursion on
the tree, so a program written with `do` has its commands in the order of the
text.

Two readings of a program are given here.

* `Prog.run` runs a program alone against a handler that answers each command
  from a state.  `Prog.trace` is the list of the commands of that run.
* `Prog.Issues` is a contract.  Every command the program can issue satisfies a
  condition, whatever the answers are.

`Prog.Issues.trace` and `Prog.Issues.run_inv` connect the two.  `Pool` runs many
programs together.
-/

namespace Async

/-- A signature of commands: what a program may ask, and the type of each
answer. -/
structure Sig where
  /-- The commands. -/
  Cmd : Type
  /-- The answer of a command. -/
  Res : Cmd → Type

/-- Programs over the commands of `S` that return an `α` or throw an `ε`. -/
inductive Prog (S : Sig) (ε : Type) : Type → Type 1 where
  | ret {α : Type} : α → Prog S ε α
  | throw {α : Type} : ε → Prog S ε α
  | call {α : Type} : (c : S.Cmd) → (S.Res c → Prog S ε α) → Prog S ε α
  /-- Start the first program without waiting for it, then go on with the
      second. -/
  | fork {α : Type} : Prog S ε Unit → Prog S ε α → Prog S ε α

variable {S : Sig} {ε σ : Type}

namespace Prog

/-! ## Sequencing -/

/-- Run a program, then go on with its value. -/
def bind {α β : Type} : Prog S ε α → (α → Prog S ε β) → Prog S ε β
  | .ret a, f => f a
  | .throw e, _ => .throw e
  | .call c k, f => .call c fun r => (k r).bind f
  | .fork p q, f => .fork p (q.bind f)

instance : Monad (Prog S ε) where
  pure := .ret
  bind := bind

/-- Handle the error of a program.  The error of a forked program is nobody's to
handle. -/
def tryCatch {α : Type} : Prog S ε α → (ε → Prog S ε α) → Prog S ε α
  | .ret a, _ => .ret a
  | .throw e, h => h e
  | .call c k, h => .call c fun r => (k r).tryCatch h
  | .fork p q, h => .fork p (q.tryCatch h)

instance : MonadExceptOf ε (Prog S ε) where
  throw := .throw
  tryCatch := tryCatch

/-- Return the outcome of a program, its error included. -/
def outcome {α : Type} (p : Prog S ε α) : Prog S ε (Except ε α) :=
  (p.bind fun a => .ret (.ok a)).tryCatch fun e => .ret (.error e)

/-- Issue one command and return its answer. -/
def ask (c : S.Cmd) : Prog S ε (S.Res c) := .call c .ret

/-- Start a program without waiting for it. -/
def spawn (p : Prog S ε Unit) : Prog S ε Unit := .fork p (.ret ())

/-- Return the value of an `Except`, or throw its error. -/
def ofExcept {α : Type} : Except ε α → Prog S ε α
  | .ok a => .ret a
  | .error e => .throw e

/-- A program for every element of a list, one after the other. -/
def forEach {α : Type} (f : α → Prog S ε Unit) : List α → Prog S ε Unit
  | [] => .ret ()
  | a :: as => (f a).bind fun _ => forEach f as

/-- The program has returned or thrown. -/
def ended {α : Type} : Prog S ε α → Bool
  | .ret _ => true
  | .throw _ => true
  | _ => false

section Laws

variable {α β γ : Type}

theorem pure_eq (a : α) : (pure a : Prog S ε α) = .ret a := rfl

theorem bind_eq (p : Prog S ε α) (f : α → Prog S ε β) : (p >>= f) = p.bind f := rfl

@[simp] theorem ret_bind (a : α) (f : α → Prog S ε β) : (Prog.ret a).bind f = f a := rfl

@[simp] theorem throw_bind (e : ε) (f : α → Prog S ε β) :
    (Prog.throw e).bind f = .throw e := rfl

@[simp] theorem call_bind (c : S.Cmd) (k : S.Res c → Prog S ε α) (f : α → Prog S ε β) :
    (Prog.call c k).bind f = .call c fun r => (k r).bind f := rfl

theorem bind_assoc' : ∀ {α : Type} (p : Prog S ε α) (f : α → Prog S ε β) (g : β → Prog S ε γ),
    (p.bind f).bind g = p.bind fun a => (f a).bind g
  | _, .ret _, _, _ => rfl
  | _, .throw _, _, _ => rfl
  | _, .call c k, f, g => congrArg (Prog.call c) (funext fun r => bind_assoc' (k r) f g)
  | _, .fork p q, f, g => congrArg (Prog.fork p) (bind_assoc' q f g)

theorem bind_ret : ∀ {α : Type} (p : Prog S ε α), p.bind .ret = p
  | _, .ret _ => rfl
  | _, .throw _ => rfl
  | _, .call c k => congrArg (Prog.call c) (funext fun r => bind_ret (k r))
  | _, .fork p q => congrArg (Prog.fork p) (bind_ret q)

/-- A handler around a program that handles its own errors is needed for the rest only. -/
theorem tryCatch_bind_tryCatch {f : α → Prog S ε β} {h : ε → Prog S ε α} {g : ε → Prog S ε β}
    (hh : ∀ e, ((h e).bind f).tryCatch g = (h e).bind fun a => (f a).tryCatch g) :
    ∀ p : Prog S ε α,
      ((p.tryCatch h).bind f).tryCatch g = (p.tryCatch h).bind fun a => (f a).tryCatch g
  | .ret _ => rfl
  | .throw e => hh e
  | .call c k => congrArg (Prog.call c) (funext fun r => tryCatch_bind_tryCatch hh (k r))
  | .fork p q => congrArg (Prog.fork p) (tryCatch_bind_tryCatch hh q)

end Laws

/-! ## Running alone -/

/-- Run a program against a handler.  A forked program is run to its end before
the rest goes on, and its outcome is dropped. -/
def run (step : (c : S.Cmd) → σ → S.Res c × σ) :
    {α : Type} → Prog S ε α → σ → Except ε α × σ
  | _, .ret a, s => (.ok a, s)
  | _, .throw e, s => (.error e, s)
  | _, .call c k, s => (k (step c s).1).run step (step c s).2
  | _, .fork p q, s => q.run step (p.run step s).2

/-- The commands of a run, in order. -/
def trace (step : (c : S.Cmd) → σ → S.Res c × σ) :
    {α : Type} → Prog S ε α → σ → List S.Cmd
  | _, .ret _, _ => []
  | _, .throw _, _ => []
  | _, .call c k, s => c :: (k (step c s).1).trace step (step c s).2
  | _, .fork p q, s => p.trace step s ++ q.trace step (p.run step s).2

section Run

variable {step : (c : S.Cmd) → σ → S.Res c × σ}

@[simp] theorem run_ret {α : Type} (a : α) (s : σ) :
    (Prog.ret a : Prog S ε α).run step s = (.ok a, s) := rfl

@[simp] theorem run_throw {α : Type} (e : ε) (s : σ) :
    (Prog.throw e : Prog S ε α).run step s = (.error e, s) := rfl

@[simp] theorem run_call {α : Type} (c : S.Cmd) (k : S.Res c → Prog S ε α) (s : σ) :
    (Prog.call c k).run step s = (k (step c s).1).run step (step c s).2 := rfl

@[simp] theorem run_ask (c : S.Cmd) (s : σ) :
    (ask c : Prog S ε (S.Res c)).run step s = (.ok (step c s).1, (step c s).2) := rfl

@[simp] theorem run_ofExcept {α : Type} (x : Except ε α) (s : σ) :
    (ofExcept x : Prog S ε α).run step s = (x, s) := by
  cases x with
  | ok a => rfl
  | error e => rfl

/-- A run of a sequence is the run of its first part, and of the second from
there if the first returned. -/
theorem run_bind {β : Type} : ∀ {α : Type} (p : Prog S ε α) (f : α → Prog S ε β) (s : σ),
    (p.bind f).run step s =
      match p.run step s with
      | (.ok a, s') => (f a).run step s'
      | (.error e, s') => (.error e, s')
  | _, .ret _, _, _ => rfl
  | _, .throw _, _, _ => rfl
  | _, .call _ k, f, _ => run_bind (k _) f _
  | _, .fork _ q, f, _ => run_bind q f _

theorem run_bind_ok {α β : Type} {p : Prog S ε α} {f : α → Prog S ε β} {s s' : σ} {a : α}
    (h : p.run step s = (.ok a, s')) : (p.bind f).run step s = (f a).run step s' := by
  rw [run_bind, h]

theorem run_bind_error {α β : Type} {p : Prog S ε α} {f : α → Prog S ε β} {s s' : σ} {e : ε}
    (h : p.run step s = (.error e, s')) : (p.bind f).run step s = (.error e, s') := by
  rw [run_bind, h]

theorem run_bind_eq_ok {α β : Type} {p : Prog S ε α} {f : α → Prog S ε β} {s s' : σ} {b : β}
    (h : (p.bind f).run step s = (.ok b, s')) :
    ∃ a s₁, p.run step s = (.ok a, s₁) ∧ (f a).run step s₁ = (.ok b, s') := by
  rw [run_bind] at h
  split at h
  next a s₁ hp => exact ⟨a, s₁, hp, h⟩
  next => cases h

/-- A run under a handler is the run of the body, and of the handler from there
if the body threw. -/
theorem run_tryCatch : ∀ {α : Type} (p : Prog S ε α) (h : ε → Prog S ε α) (s : σ),
    (p.tryCatch h).run step s =
      match p.run step s with
      | (.ok a, s') => (.ok a, s')
      | (.error e, s') => (h e).run step s'
  | _, .ret _, _, _ => rfl
  | _, .throw _, _, _ => rfl
  | _, .call _ k, h, _ => run_tryCatch (k _) h _
  | _, .fork _ q, h, _ => run_tryCatch q h _

theorem run_outcome {α : Type} {p : Prog S ε α} {s s' : σ} {r : Except ε α}
    (h : p.run step s = (r, s')) : p.outcome.run step s = (.ok r, s') := by
  cases r with
  | ok a => rw [outcome, run_tryCatch, run_bind_ok h, run_ret]
  | error e =>
      rw [outcome, run_tryCatch, run_bind_error h]
      rfl

/-- Forward simulation.  If every program of a family takes related states to
related states, then so does a sequence of them. -/
theorem run_forEach_sim {ι τ : Type} {f : ι → Prog S ε Unit} {g : τ → ι → τ} {R : σ → τ → Prop}
    (h : ∀ i s t, R s t → ∃ s', (f i).run step s = (.ok (), s') ∧ R s' (g t i)) :
    ∀ (is : List ι) {s : σ} {t : τ}, R s t →
      ∃ s', (forEach f is).run step s = (.ok (), s') ∧ R s' (is.foldl g t)
  | [], s, _, hst => ⟨s, rfl, hst⟩
  | i :: is, s, t, hst => by
      obtain ⟨s₁, hrun, hst₁⟩ := h i s t hst
      obtain ⟨s₂, hrun₂, hst₂⟩ := run_forEach_sim h is hst₁
      refine ⟨s₂, ?_, hst₂⟩
      rw [forEach, run_bind_ok hrun, hrun₂]

/-- The commands of a sequence are those of its first part, and those of the
second if the first returned. -/
theorem trace_bind {β : Type} : ∀ {α : Type} (p : Prog S ε α) (f : α → Prog S ε β) (s : σ),
    (p.bind f).trace step s = p.trace step s ++
      match p.run step s with
      | (.ok a, s') => (f a).trace step s'
      | (.error _, _) => []
  | _, .ret _, _, _ => rfl
  | _, .throw _, _, _ => rfl
  | _, .call c k, f, _ => congrArg (c :: ·) (trace_bind (k _) f _)
  | _, .fork p q, f, s => by
      have ih := trace_bind q f (p.run step s).2
      simp only [bind, trace, run, List.append_assoc, ih]

theorem mem_trace_bind {α β : Type} {p : Prog S ε α} {f : α → Prog S ε β} {s : σ} {c : S.Cmd}
    (h : c ∈ p.trace step s) : c ∈ (p.bind f).trace step s := by
  rw [trace_bind]
  exact List.mem_append_left _ h

theorem mem_trace_bind_ok {α β : Type} {p : Prog S ε α} {f : α → Prog S ε β} {s s' : σ} {a : α}
    {c : S.Cmd} (h : p.run step s = (.ok a, s')) (hc : c ∈ (f a).trace step s') :
    c ∈ (p.bind f).trace step s := by
  rw [trace_bind, h]
  exact List.mem_append_right _ hc

theorem mem_trace_bind_iff {α β : Type} {p : Prog S ε α} {f : α → Prog S ε β} {s : σ} {c : S.Cmd} :
    c ∈ (p.bind f).trace step s ↔
      c ∈ p.trace step s ∨ ∃ a s', p.run step s = (.ok a, s') ∧ c ∈ (f a).trace step s' := by
  rw [trace_bind, List.mem_append]
  refine or_congr_right ?_
  split
  next a s' hp =>
    constructor
    · exact fun hc => ⟨a, s', hp, hc⟩
    · rintro ⟨a', s'', h, hc⟩
      cases hp.symm.trans h
      exact hc
  next e s' hp =>
    refine iff_of_false List.not_mem_nil ?_
    rintro ⟨a, s'', h, -⟩
    cases hp.symm.trans h

theorem mem_trace_tryCatch {c : S.Cmd} : ∀ {α : Type} {p : Prog S ε α} {h : ε → Prog S ε α}
    {s : σ}, c ∈ p.trace step s → c ∈ (p.tryCatch h).trace step s
  | _, .ret _, _, _, hc => hc
  | _, .throw _, _, _, hc => by cases hc
  | _, .call c' k, h, s, hc => by
      cases List.mem_cons.mp hc with
      | inl he => exact List.mem_cons.mpr (.inl he)
      | inr hc => exact List.mem_cons_of_mem _ (mem_trace_tryCatch hc)
  | _, .fork p q, h, s, hc => by
      cases List.mem_append.mp hc with
      | inl hc => exact List.mem_append_left _ hc
      | inr hc => exact List.mem_append_right _ (mem_trace_tryCatch hc)

/-- The commands of a run under a handler are those of the body, and those of the handler if the
body threw. -/
theorem trace_tryCatch : ∀ {α : Type} (p : Prog S ε α) (h : ε → Prog S ε α) (s : σ),
    (p.tryCatch h).trace step s = p.trace step s ++
      match p.run step s with
      | (.ok _, _) => []
      | (.error e, s') => (h e).trace step s'
  | _, .ret _, _, _ => rfl
  | _, .throw _, _, _ => rfl
  | _, .call c k, h, _ => congrArg (c :: ·) (trace_tryCatch (k _) h _)
  | _, .fork p q, h, s => by
      have ih := trace_tryCatch q h (p.run step s).2
      simp only [tryCatch, trace, run, List.append_assoc, ih]

theorem mem_trace_outcome {α : Type} {p : Prog S ε α} {s : σ} {c : S.Cmd}
    (h : c ∈ p.trace step s) : c ∈ p.outcome.trace step s :=
  mem_trace_tryCatch (mem_trace_bind h)

end Run

/-! ## Contracts -/

/-- Every command the program can issue satisfies `pre`, whatever it is answered. -/
inductive Issues (pre : S.Cmd → Prop) : {α : Type} → Prog S ε α → Prop
  | ret {α : Type} (a : α) : Issues pre (.ret a)
  | throw {α : Type} (e : ε) : Issues pre (.throw e : Prog S ε α)
  | call {α : Type} {c : S.Cmd} {k : S.Res c → Prog S ε α} (hc : pre c)
      (hk : ∀ r, Issues pre (k r)) : Issues pre (.call c k)
  | fork {α : Type} {p : Prog S ε Unit} {q : Prog S ε α} (hp : Issues pre p)
      (hq : Issues pre q) : Issues pre (.fork p q)

section Issues

variable {pre : S.Cmd → Prop}

theorem Issues.of_call {α : Type} {c : S.Cmd} {k : S.Res c → Prog S ε α}
    (h : (Prog.call c k).Issues pre) : pre c ∧ ∀ r, (k r).Issues pre := by
  cases h with
  | call hc hk => exact ⟨hc, hk⟩

theorem issues_ask {c : S.Cmd} (hc : pre c) : (ask c : Prog S ε _).Issues pre :=
  .call hc fun r => .ret r

theorem issues_spawn {p : Prog S ε Unit} (hp : p.Issues pre) : (spawn p).Issues pre :=
  .fork hp (.ret ())

theorem issues_ofExcept {α : Type} (x : Except ε α) : (ofExcept x : Prog S ε α).Issues pre := by
  cases x with
  | ok a => exact .ret a
  | error e => exact .throw e

/-- The rule of sequencing. -/
theorem issues_bind {β : Type} : ∀ {α : Type} {p : Prog S ε α} {f : α → Prog S ε β},
    p.Issues pre → (∀ a, (f a).Issues pre) → (p.bind f).Issues pre
  | _, _, _, .ret a, hf => hf a
  | _, _, _, .throw e, _ => .throw e
  | _, _, _, .call hc hk, hf => .call hc fun r => issues_bind (hk r) hf
  | _, _, _, .fork hp hq, hf => .fork hp (issues_bind hq hf)

/-- The rule of error handling. -/
theorem issues_tryCatch : ∀ {α : Type} {p : Prog S ε α} {h : ε → Prog S ε α},
    p.Issues pre → (∀ e, (h e).Issues pre) → (p.tryCatch h).Issues pre
  | _, _, _, .ret a, _ => .ret a
  | _, _, _, .throw e, hh => hh e
  | _, _, _, .call hc hk, hh => .call hc fun r => issues_tryCatch (hk r) hh
  | _, _, _, .fork hp hq, hh => .fork hp (issues_tryCatch hq hh)

theorem issues_outcome {α : Type} {p : Prog S ε α} (h : p.Issues pre) :
    p.outcome.Issues pre :=
  issues_tryCatch (issues_bind h fun _ => .ret _) fun _ => .ret _

/-- The rule of loops. -/
theorem issues_forEach {α : Type} {f : α → Prog S ε Unit} :
    ∀ {as : List α}, (∀ a ∈ as, (f a).Issues pre) → (forEach f as).Issues pre
  | [], _ => .ret ()
  | a :: _, h =>
      issues_bind (h a (List.mem_cons_self ..)) fun _ =>
        issues_forEach fun b hb => h b (List.mem_cons_of_mem _ hb)

/-- A contract that every command meets is no restriction. -/
theorem issues_of_forall (hpre : ∀ c, pre c) : ∀ {α : Type} (p : Prog S ε α), p.Issues pre
  | _, .ret a => .ret a
  | _, .throw e => .throw e
  | _, .call c k => .call (hpre c) fun r => issues_of_forall hpre (k r)
  | _, .fork p q => .fork (issues_of_forall hpre p) (issues_of_forall hpre q)

theorem issues_mono {pre' : S.Cmd → Prop} (hpre : ∀ c, pre c → pre' c) :
    ∀ {α : Type} {p : Prog S ε α}, p.Issues pre → p.Issues pre'
  | _, _, .ret a => .ret a
  | _, _, .throw e => .throw e
  | _, _, .call hc hk => .call (hpre _ hc) fun r => issues_mono hpre (hk r)
  | _, _, .fork hp hq => .fork (issues_mono hpre hp) (issues_mono hpre hq)

/-- A program that meets every contract of a family meets all at once. -/
theorem issues_forall {ι : Type} {pre : ι → S.Cmd → Prop} :
    ∀ {α : Type} {p : Prog S ε α}, (∀ i, p.Issues (pre i)) → p.Issues fun c => ∀ i, pre i c
  | _, .ret a, _ => .ret a
  | _, .throw e, _ => .throw e
  | _, .call c k, h => by
      have hcall : ∀ i, pre i c ∧ ∀ r, (k r).Issues (pre i) := by
        intro i
        cases h i with
        | call hc hk => exact ⟨hc, hk⟩
      exact .call (fun i => (hcall i).1) fun r => issues_forall fun i => (hcall i).2 r
  | _, .fork p q, h => by
      have hfork : ∀ i, p.Issues (pre i) ∧ q.Issues (pre i) := by
        intro i
        cases h i with
        | fork hp hq => exact ⟨hp, hq⟩
      exact .fork (issues_forall fun i => (hfork i).1) (issues_forall fun i => (hfork i).2)

/-- A run keeps an invariant that every command of the contract keeps. -/
theorem Issues.run_inv {step : (c : S.Cmd) → σ → S.Res c × σ} {I : σ → Prop}
    (hstep : ∀ c s, pre c → I s → I (step c s).2) :
    ∀ {α : Type} {p : Prog S ε α} {s : σ}, p.Issues pre → I s → I (p.run step s).2
  | _, _, _, .ret _, hs => hs
  | _, _, _, .throw _, hs => hs
  | _, .call c k, s, .call hc hk, hs =>
      Issues.run_inv (p := k (step c s).1) hstep (hk _) (hstep _ _ hc hs)
  | _, .fork p q, _, .fork hp hq, hs =>
      Issues.run_inv (p := q) hstep hq (Issues.run_inv (p := p) hstep hp hs)

/-- Every command of a run satisfies the contract. -/
theorem Issues.trace {step : (c : S.Cmd) → σ → S.Res c × σ} :
    ∀ {α : Type} {p : Prog S ε α} {s : σ}, p.Issues pre → ∀ c ∈ p.trace step s, pre c
  | _, _, _, .ret _, c, hc => by cases hc
  | _, _, _, .throw _, c, hc => by cases hc
  | _, _, _, .call hpre hk, c, hc => by
      cases List.mem_cons.mp hc with
      | inl he => exact he ▸ hpre
      | inr hc => exact Issues.trace (hk _) c hc
  | _, _, _, .fork hp hq, c, hc => by
      cases List.mem_append.mp hc with
      | inl hc => exact Issues.trace hp c hc
      | inr hc => exact Issues.trace hq c hc

end Issues

/-! ## Predicates that programs are built along -/

/-- A predicate on programs that holds of what is built from programs it holds of. -/
structure Closed (T : {α : Type} → Prog S ε α → Prop) : Prop where
  ret : ∀ {α : Type} (a : α), T (.ret a : Prog S ε α)
  throw : ∀ {α : Type} (e : ε), T (.throw e : Prog S ε α)
  bind : ∀ {α β : Type} {p : Prog S ε α} {f : α → Prog S ε β}, T p → (∀ a, T (f a)) → T (p.bind f)
  tryCatch : ∀ {α : Type} {p : Prog S ε α} {h : ε → Prog S ε α}, T p → (∀ e, T (h e)) →
    T (p.tryCatch h)
  spawn : ∀ {p : Prog S ε Unit}, T p → T (spawn p)

theorem closed_issues (pre : S.Cmd → Prop) : Closed (S := S) (ε := ε) fun p => p.Issues pre where
  ret := .ret
  throw := .throw
  bind := issues_bind
  tryCatch := issues_tryCatch
  spawn := issues_spawn

section Closed

variable {T : {α : Type} → Prog S ε α → Prop} (hT : Closed T)

include hT

/-- A program that meets a contract satisfies `T` if the commands of the contract do. -/
theorem Closed.of_issues {pre : S.Cmd → Prop} (hpre : ∀ c, pre c → T (ask c)) :
    ∀ {α : Type} {p : Prog S ε α}, p.Issues pre → T p
  | _, _, .ret a => hT.ret a
  | _, _, .throw e => hT.throw e
  | _, .call _ _, .call hc hk => hT.bind (hpre _ hc) fun r => Closed.of_issues hpre (hk r)
  | _, .fork _ _, .fork hp hq =>
      hT.bind (hT.spawn (Closed.of_issues hpre hp)) fun _ => Closed.of_issues hpre hq

theorem Closed.ofExcept {α : Type} (x : Except ε α) : T (ofExcept x) := by
  cases x with
  | ok a => exact hT.ret a
  | error e => exact hT.throw e

theorem Closed.outcome {α : Type} {p : Prog S ε α} (h : T p) : T p.outcome :=
  hT.tryCatch (hT.bind h fun _ => hT.ret _) fun _ => hT.ret _

theorem Closed.forEach {α : Type} {f : α → Prog S ε Unit} :
    ∀ {as : List α}, (∀ a ∈ as, T (f a)) → T (forEach f as)
  | [], _ => hT.ret ()
  | a :: _, h => hT.bind (h a (List.mem_cons_self ..)) fun _ =>
      Closed.forEach fun b hb => h b (List.mem_cons_of_mem _ hb)

end Closed

/-! ## Returning -/

/-- From every state the program returns, and what it returns satisfies `Q`. -/
def Returns {α : Type} (step : (c : S.Cmd) → σ → S.Res c × σ) (p : Prog S ε α) (Q : α → Prop) :
    Prop :=
  ∀ s, ∃ a s', p.run step s = (.ok a, s') ∧ Q a

section Returns

variable {step : (c : S.Cmd) → σ → S.Res c × σ} {α β : Type} {p : Prog S ε α}

theorem returns_ret {Q : α → Prop} {a : α} (h : Q a) : (Prog.ret a : Prog S ε α).Returns step Q :=
  fun s => ⟨a, s, rfl, h⟩

theorem returns_ask {c : S.Cmd} {Q : S.Res c → Prop} (h : ∀ s, Q (step c s).1) :
    (ask c : Prog S ε _).Returns step Q :=
  fun s => ⟨_, _, rfl, h s⟩

theorem returns_ofExcept {x : Except ε α} {Q : α → Prop} (h : ∃ a, x = .ok a ∧ Q a) :
    (ofExcept x : Prog S ε α).Returns step Q := by
  obtain ⟨a, rfl, ha⟩ := h
  exact returns_ret ha

theorem returns_bind {P : α → Prop} {Q : β → Prop} {f : α → Prog S ε β} (h : p.Returns step P)
    (hf : ∀ a, P a → (f a).Returns step Q) : (p.bind f).Returns step Q := by
  intro s
  obtain ⟨a, s₁, hp, ha⟩ := h s
  obtain ⟨b, s₂, hb, hQ⟩ := hf a ha s₁
  exact ⟨b, s₂, (run_bind_ok hp).trans hb, hQ⟩

theorem Returns.mono {P Q : α → Prop} (h : p.Returns step P) (hPQ : ∀ a, P a → Q a) :
    p.Returns step Q := by
  intro s
  obtain ⟨a, s', hrun, ha⟩ := h s
  exact ⟨a, s', hrun, hPQ a ha⟩

theorem returns_seq {Q : β → Prop} {f : α → Prog S ε β} (h : p.Returns step fun _ => True)
    (hf : ∀ a, (f a).Returns step Q) : (p.bind f).Returns step Q :=
  returns_bind h fun a _ => hf a

/-- Whatever becomes of a program, its outcome is returned. -/
theorem returns_outcome {Q : Except ε α → Prop} (h : ∀ s r s', p.run step s = (r, s') → Q r) :
    p.outcome.Returns step Q :=
  fun s => ⟨_, _, run_outcome rfl, h s _ _ rfl⟩

/-- A program that returns keeps what all its commands keep. -/
theorem Returns.inv {Q : α → Prop} {pre : S.Cmd → Prop} {I : σ → Prop} (h : p.Returns step Q)
    (hp : p.Issues pre) (hstep : ∀ c s, pre c → I s → I (step c s).2) {s : σ} (hs : I s) :
    ∃ a s', p.run step s = (.ok a, s') ∧ Q a ∧ I s' := by
  obtain ⟨a, s', hrun, ha⟩ := h s
  have hinv := Issues.run_inv hstep hp hs
  rw [hrun] at hinv
  exact ⟨a, s', hrun, ha, hinv⟩

theorem returns_tryCatch {Q : α → Prop} {h : ε → Prog S ε α} (hp : p.Returns step Q) :
    (p.tryCatch h).Returns step Q := by
  intro s
  obtain ⟨a, s', hrun, ha⟩ := hp s
  exact ⟨a, s', by rw [run_tryCatch, hrun], ha⟩

end Returns

end Prog

end Async
