import NexusErebus.Runtime

/-!
# Retries (retry.js)

`withRetry` calls a function until it returns, at most a number of times.  After every
failure it waits, the last one included, and the waits grow by a factor.  If all calls
failed it throws the error of the last one.
-/

namespace Nexus

open Async

variable {α : Type}

/-- The loop: how many calls are left, how many were made, and the last error. -/
def retryLoop (fn : Prog α) (delay factor : ℚ) : Nat → Nat → Option Err → Prog α
  | 0, _, lastErr => .throw (lastErr.getD (.new "undefined"))
  | left + 1, i, _ => do
      match ← (await fn).outcome with
      | .ok a => return a
      | .error e =>
          ask (.sleep (some (delay * factor ^ i)))
          retryLoop fn delay factor left (i + 1) (some e)

/-- The options. -/
structure RetryOpts where
  attempts : Nat
  /-- Milliseconds. -/
  delay : ℚ
  factor : ℚ

/-- The options the source fills in. -/
def RetryOpts.defaults : RetryOpts := ⟨3, 800, 2⟩

def withRetry (fn : Prog α) (opts : RetryOpts) : Prog α :=
  retryLoop fn opts.delay opts.factor opts.attempts 0 none

/-! ## Contract -/

theorem issues_retryLoop {pre : Cmd → Prop} {fn : Prog α} {delay factor : ℚ}
    (hfn : (await fn).Issues pre) (hsleep : ∀ ms, pre (.sleep ms)) :
    ∀ (left i : Nat) (last : Option Err), (retryLoop fn delay factor left i last).Issues pre
  | 0, _, _ => .throw _
  | left + 1, i, _ => by
      refine Prog.issues_bind (Prog.issues_outcome hfn) fun r => ?_
      cases r with
      | ok a => exact .ret a
      | error e =>
          exact .call (hsleep _) fun _ => issues_retryLoop hfn hsleep left (i + 1) (some e)

theorem issues_withRetry {pre : Cmd → Prop} {fn : Prog α} {opts : RetryOpts}
    (hfn : (await fn).Issues pre) (hsleep : ∀ ms, pre (.sleep ms)) :
    (withRetry fn opts).Issues pre :=
  issues_retryLoop hfn hsleep opts.attempts 0 none

/-! ## Runs -/

section Runs

variable {σ : Type} {step : (c : Cmd) → σ → c.Res × σ} {fn : Prog α} {delay factor : ℚ}

theorem run_retryLoop_ok {left i : Nat} {last : Option Err} {s s' : σ} {a : α}
    (h : (await fn).run step s = (.ok a, s')) :
    (retryLoop fn delay factor (left + 1) i last).run step s = (.ok a, s') :=
  Prog.run_bind_ok (Prog.run_outcome h)

theorem run_retryLoop_error {left i : Nat} {last : Option Err} {s s' : σ} {e : Err}
    (h : (await fn).run step s = (.error e, s')) :
    (retryLoop fn delay factor (left + 1) i last).run step s =
      (retryLoop fn delay factor left (i + 1) (some e)).run step
        (step (.sleep (some (delay * factor ^ i))) s').2 :=
  Prog.run_bind_ok (Prog.run_outcome h)

/-- The first call is made. -/
theorem mem_trace_retryLoop {left i : Nat} {last : Option Err} {s : σ} {c : Cmd}
    (h : c ∈ (await fn).trace step s) :
    c ∈ (retryLoop fn delay factor (left + 1) i last).trace step s :=
  Prog.mem_trace_bind (Prog.mem_trace_outcome h)

variable (step fn delay factor) in
/-- The rule of the loop.  `I` holds before every call.  A call that fails keeps it, and
so does a wait.  A call that returns gives `G`. -/
theorem retryLoop_rule {I : σ → Prop} {G : α → σ → Prop}
    (hok : ∀ s a s', I s → (await fn).run step s = (.ok a, s') → G a s')
    (herr : ∀ s e s', I s → (await fn).run step s = (.error e, s') → I s')
    (hsleep : ∀ ms s, I s → I (step (.sleep ms) s).2) :
    ∀ (left i : Nat) (last : Option Err) (s : σ), I s →
      (∀ a s', (retryLoop fn delay factor left i last).run step s = (.ok a, s') → G a s') ∧
        ∀ e s', (retryLoop fn delay factor left i last).run step s = (.error e, s') → I s'
  | 0, i, last, s, hs => by
      constructor
      · intro a s' h
        simp [retryLoop] at h
      · intro e s' h
        simp only [retryLoop, Prog.run_throw, Prod.mk.injEq] at h
        exact h.2 ▸ hs
  | left + 1, i, last, s, hs => by
      cases hfn : (await fn).run step s with
      | mk r s₁ =>
          cases r with
          | ok a =>
              rw [run_retryLoop_ok hfn]
              constructor
              · intro b s' h
                simp only [Prod.mk.injEq, Except.ok.injEq] at h
                obtain ⟨rfl, rfl⟩ := h
                exact hok s _ _ hs hfn
              · intro e s' h
                simp at h
          | error e =>
              rw [run_retryLoop_error hfn]
              exact retryLoop_rule hok herr hsleep left (i + 1) (some e) _
                (hsleep _ _ (herr s e s₁ hs hfn))

end Runs

end Nexus
