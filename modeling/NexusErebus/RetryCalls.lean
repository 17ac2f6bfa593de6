import Mathlib.Algebra.BigOperators.Group.Finset.Basic
import NexusErebus.Retry
import NexusErebus.Sample

/-!
# What a retry does

`withRetry` calls a function that may do anything: it has commands of its own, and each call may
end differently from the one before.  Seen from outside, the loop calls and waits.  `RetryAct` is
one of the two, and `played` is what a list of them does to the state of the handler and which
commands it issues.  A program performs a list if it ends in the same state and issues the same
commands.

`withRetry_performs` says which list `withRetry` performs: a call and a wait for every failure, up
to the first call that returns or to the last one that is allowed.
-/

namespace Nexus

open Async

/-- What the loop does. -/
inductive RetryAct where
  | call
  /-- Milliseconds. -/
  | wait (ms : ℚ)
  deriving DecidableEq

namespace RetryAct

/-- How many calls there are. -/
def calls (acts : List RetryAct) : Nat := acts.count .call

/-- The time that is waited before a call, which is given by its number. -/
def waitBefore : Nat → List RetryAct → ℚ
  | _, [] => 0
  | 0, .call :: _ => 0
  | i + 1, .call :: acts => waitBefore i acts
  | i, .wait ms :: acts => ms + waitBefore i acts

end RetryAct

open RetryAct (calls waitBefore)

section

variable {α σ : Type} (step : (c : Cmd) → σ → c.Res × σ) (fn : Prog α)

/-- The state after what was done, and the commands that were issued. -/
def played : List RetryAct → σ → σ × List Cmd
  | [], s => (s, [])
  | .call :: acts, s =>
      let r := played acts ((await fn).run step s).2
      (r.1, (await fn).trace step s ++ r.2)
  | .wait ms :: acts, s =>
      let r := played acts (step (.sleep (some ms)) s).2
      (r.1, .sleep (some ms) :: r.2)

/-- The program calls and waits as in the list and does nothing else, and ends with a result. -/
structure Performs (s : σ) (q : Prog α) (acts : List RetryAct) (r : Except Err α) : Prop where
  run : q.run step s = (r, (played step fn acts s).1)
  trace : q.trace step s = (played step fn acts s).2

variable (delay factor : ℚ)

/-- A number of failures, of which the first is that of call number `i`: after each one the loop
waits. -/
def failures (i : Nat) : Nat → List RetryAct
  | 0 => []
  | n + 1 => .call :: .wait (delay * factor ^ i) :: failures (i + 1) n

/-- The result of call number `i + n`, if call number `i` is made in the state and fails, and so
do the others before. -/
def outcomeAfter (i n : Nat) (s : σ) : Except Err α :=
  ((await fn).run step (played step fn (failures delay factor i n) s).1).1

end

/-! ## Counting -/

section

variable (delay factor : ℚ) (i n : Nat)

theorem calls_failures : calls (failures delay factor i n) = n := by
  induction n generalizing i with
  | zero => rfl
  | succ n ih =>
      have ih := ih (i + 1)
      simp only [calls, failures, List.count_cons] at ih ⊢
      rw [ih]
      simp

theorem calls_append (acts acts' : List RetryAct) :
    calls (acts ++ acts') = calls acts + calls acts' :=
  List.count_append

/-- Before a call that is made, the loop has waited after each of those that failed. -/
theorem waitBefore_failures {acts : List RetryAct} {j : Nat}
    (hj : j < n ∨ j = n ∧ acts = [.call]) :
    waitBefore j (failures delay factor i n ++ acts) =
      ∑ m ∈ Finset.range j, delay * factor ^ (i + m) := by
  induction n generalizing i j with
  | zero =>
      obtain ⟨rfl, rfl⟩ := hj.resolve_left (Nat.not_lt_zero j)
      rfl
  | succ n ih =>
      cases j with
      | zero => rfl
      | succ j =>
          have hrest := ih (i + 1) (hj.imp Nat.lt_of_succ_lt_succ fun h => ⟨Nat.succ.inj h.1, h.2⟩)
          simp only [failures, List.cons_append, waitBefore, hrest]
          rw [Finset.sum_range_succ', add_comm]
          refine congrArg₂ _ (Finset.sum_congr rfl fun m _ => ?_) rfl
          rw [Nat.add_right_comm, Nat.add_assoc]

end

/-! ## The loop -/

section

variable {α σ : Type} {step : (c : Cmd) → σ → c.Res × σ} {fn : Prog α} {delay factor : ℚ}

theorem trace_outcome {s : σ} : (await fn).outcome.trace step s = (await fn).trace step s := by
  rw [Prog.outcome, Prog.trace_tryCatch, Prog.trace_bind, Prog.run_bind]
  cases (await fn).run step s with
  | mk r s' =>
      cases r with
      | ok a => simp [Prog.trace]
      | error e => simp [Prog.trace]

/-- A call that returns ends the loop. -/
theorem performs_ok {left i : Nat} {last : Option Err} {s : σ} {a : α}
    (h : ((await fn).run step s).1 = .ok a) :
    Performs step fn s (retryLoop fn delay factor (left + 1) i last) [.call] (.ok a) := by
  have hrun : (await fn).run step s = (.ok a, ((await fn).run step s).2) := Prod.ext h rfl
  refine ⟨run_retryLoop_ok hrun, ?_⟩
  rw [retryLoop, Prog.bind_eq, Prog.trace_bind, Prog.run_outcome hrun, trace_outcome]
  rfl

/-- After a call that fails, the loop waits and goes on. -/
theorem performs_error {left i : Nat} {last : Option Err} {s : σ} {e : Err}
    {acts : List RetryAct} {r : Except Err α} (h : ((await fn).run step s).1 = .error e)
    (hrest : Performs step fn (step (.sleep (some (delay * factor ^ i)))
      ((await fn).run step s).2).2 (retryLoop fn delay factor left (i + 1) (some e)) acts r) :
    Performs step fn s (retryLoop fn delay factor (left + 1) i last)
      (.call :: .wait (delay * factor ^ i) :: acts) r := by
  have hrun : (await fn).run step s = (.error e, ((await fn).run step s).2) := Prod.ext h rfl
  refine ⟨(run_retryLoop_error hrun).trans hrest.run, ?_⟩
  rw [retryLoop, Prog.bind_eq, Prog.trace_bind, Prog.run_outcome hrun, trace_outcome]
  exact congrArg (_ ++ _ :: ·) hrest.trace

/-- The outcomes behind the first failure are those of the rest. -/
theorem outcomeAfter_succ (i n : Nat) (s : σ) :
    outcomeAfter step fn delay factor i (n + 1) s = outcomeAfter step fn delay factor (i + 1) n
      (step (.sleep (some (delay * factor ^ i))) ((await fn).run step s).2).2 := rfl

/-- The first call that returns is the last one. -/
theorem performs_success {left i k : Nat} {last : Option Err} {s : σ} (hk : k < left)
    (hfail : ∀ j < k, (outcomeAfter step fn delay factor i j s).isOk = false)
    (hok : (outcomeAfter step fn delay factor i k s).isOk = true) :
    Performs step fn s (retryLoop fn delay factor left i last)
      (failures delay factor i k ++ [.call]) (outcomeAfter step fn delay factor i k s) := by
  induction k generalizing left i last s with
  | zero =>
      obtain ⟨left, rfl⟩ := Nat.exists_eq_add_of_lt hk
      rw [Nat.zero_add]
      cases h : outcomeAfter step fn delay factor i 0 s with
      | ok a => exact performs_ok h
      | error e => rw [h] at hok; cases hok
  | succ k ih =>
      obtain ⟨left, rfl⟩ : ∃ m, left = m + 1 := ⟨left - 1, by omega⟩
      have hfirst := hfail 0 (Nat.succ_pos k)
      cases h : outcomeAfter step fn delay factor i 0 s with
      | ok a => rw [h] at hfirst; cases hfirst
      | error e =>
          refine performs_error h (ih (Nat.lt_of_succ_lt_succ hk) (fun j hj => ?_) hok)
          exact hfail (j + 1) (Nat.succ_lt_succ hj)

/-- If every call fails, the error of the last one is thrown. -/
theorem performs_failures {left i : Nat} {last : Option Err} {s : σ}
    (hfail : ∀ j < left + 1, (outcomeAfter step fn delay factor i j s).isOk = false) :
    Performs step fn s (retryLoop fn delay factor (left + 1) i last)
      (failures delay factor i (left + 1)) (outcomeAfter step fn delay factor i left s) := by
  induction left generalizing i last s with
  | zero =>
      have hfirst := hfail 0 Nat.one_pos
      cases h : outcomeAfter step fn delay factor i 0 s with
      | ok a => rw [h] at hfirst; cases hfirst
      | error e => exact performs_error h ⟨rfl, rfl⟩
  | succ left ih =>
      have hfirst := hfail 0 (Nat.succ_pos _)
      cases h : outcomeAfter step fn delay factor i 0 s with
      | ok a => rw [h] at hfirst; cases hfirst
      | error e =>
          exact performs_error h (ih fun j hj => hfail (j + 1) (Nat.succ_lt_succ hj))

end

/-- The outcome of call number `i` of `withRetry`, if all calls before it fail. -/
def RetryOpts.outcome {α σ : Type} (opts : RetryOpts) (step : (c : Cmd) → σ → c.Res × σ)
    (fn : Prog α) (s : σ) (i : Nat) : Except Err α :=
  outcomeAfter step fn opts.delay opts.factor 0 i s

namespace Sample

/-- A request. -/
def flaky : Prog Response := attempt (ask (.fetch ⟨"/", "GET", .text ""⟩))

/-- A server that is busy twice.  The requests are counted. -/
def busyTwice : (c : Cmd) → Nat → c.Ans × Nat
  | .fetch _, n => (if n < 2 then .error (.new "busy") else .ok ⟨true, "OK", ""⟩, n + 1)
  | c, n => (offline c, n)

end Sample

end Nexus
