import NexusErebus.Async.Pool

/-!
# The order of issue

The trace of a world lists the commands as they are carried out.  A command that waits is carried
out some time after it was issued, and commands of different programs may overtake each other.
Where a client keeps the order of its calls, what counts is the order of issue.

The *log* of a run lists the commands in that order.  A segment adds what it carries out on the
spot and, last, the command it comes to wait for.  Programs it forks come in between.
-/

namespace Async

namespace Machine

variable {S : Sig} {ε : Type} (M : Machine S ε)

/-- The commands a segment issues. -/
def sent (p : M.Pid) (ans : Nat → (c : S.Cmd) → M.Ans c) :
    {α : Type} → Prog S ε α → M.St → List S.Cmd → List S.Cmd
  | _, .ret _, _, _ => []
  | _, .throw _, _, _ => []
  | _, .call c k, st, out =>
      if M.sync c then
        match M.step p c st (ans out.length c) with
        | none => [c]
        | some (r, st') => c :: sent p ans (k r) st' (out ++ [c])
      else [c]
  | _, .fork q r, st, out =>
      match M.seg p ans q st out with
      | none => sent p ans q st out
      | some s => sent p ans q st out ++ sent p ans r s.st s.issued

variable {M}

/-- The commands a step issues. -/
def sentBy (w : World M) : M.Choice → List (M.Ev × S.Cmd)
  | .resume i ans =>
      match w.pool[i]? with
      | some ⟨ev, q, true⟩ => (M.sent (M.pid ev) ans q w.st []).map (ev, ·)
      | _ => []
  | _ => []

variable (M)

/-- The worlds some run reaches, with the log of that run. -/
inductive Logged (init : M.St → Prop) : World M → List (M.Ev × S.Cmd) → Prop where
  | start {st : M.St} : init st → Logged init ⟨st, [], []⟩ []
  | step {w w' : World M} {log : List (M.Ev × S.Cmd)} {ch : M.Choice} :
      Logged init w log → next w ch = some w' → Logged init w' (log ++ sentBy w ch)

variable {M}

/-- The commands several steps issue. -/
def sentByAll (w : World M) : List M.Choice → List (M.Ev × S.Cmd)
  | [] => []
  | ch :: chs =>
      sentBy w ch ++
        match next w ch with
        | none => []
        | some w' => sentByAll w' chs

theorem Logged.nexts {init : M.St → Prop} {chs : List M.Choice} {w w' : World M}
    {log : List (M.Ev × S.Cmd)} (hw : M.Logged init w log)
    (h : Machine.nexts w chs = some w') : M.Logged init w' (log ++ sentByAll w chs) := by
  induction chs generalizing w log with
  | nil =>
      cases h
      rw [sentByAll, List.append_nil]
      exact hw
  | cons ch chs ih =>
      simp only [Machine.nexts] at h
      cases hn : Machine.next w ch with
      | none => simp [hn] at h
      | some w₁ =>
          rw [hn, Option.bind_some] at h
          rw [sentByAll, hn, ← List.append_assoc]
          exact ih (.step hw hn) h

/-- Everything a step can do, with what it issues. -/
theorem next_sent {w w' : World M} {ch : M.Choice} (h : next w ch = some w') :
    (∃ ev st, ch = .start ev ∧ M.enter ev w.st = some st ∧ w' = afterStart w ev st ∧
      sentBy w ch = []) ∨
    (∃ i ev q ans s, ch = .resume i ans ∧ w.pool[i]? = some ⟨ev, q, true⟩ ∧
      M.seg (M.pid ev) ans q w.st [] = some s ∧ w' = afterResume w i ev s ∧
      sentBy w ch = (M.sent (M.pid ev) ans q w.st []).map (ev, ·)) ∨
    (∃ i ev c k ans r st, ch = .reply i ans ∧ w.pool[i]? = some ⟨ev, .call c k, false⟩ ∧
      M.step (M.pid ev) c w.st (ans c) = some (r, st) ∧ w' = afterReply w i ev c (k r) st ∧
      sentBy w ch = []) ∨
    (∃ p, ch = .crash p ∧ w' = afterCrash w p ∧ sentBy w ch = []) := by
  cases ch with
  | start ev =>
      obtain ⟨st, hst, hw⟩ := Option.map_eq_some_iff.mp h
      exact .inl ⟨ev, st, rfl, hst, hw.symm, rfl⟩
  | resume i ans =>
      simp only [next] at h
      split at h
      next ev q hq =>
        obtain ⟨s, hs, hw⟩ := Option.map_eq_some_iff.mp h
        exact .inr (.inl ⟨i, ev, q, ans, s, rfl, hq, hs, hw.symm, by simp only [sentBy, hq]⟩)
      next => cases h
  | reply i ans =>
      simp only [next] at h
      split at h
      next ev c k hq =>
        split at h
        next => cases h
        next hsync =>
          obtain ⟨⟨r, st⟩, hs, hw⟩ := Option.map_eq_some_iff.mp h
          exact .inr (.inr (.inl ⟨i, ev, c, k, ans, r, st, rfl, hq, hs, hw.symm, rfl⟩))
      next => cases h
  | crash p => exact .inr (.inr (.inr ⟨p, rfl, (Option.some.inj h).symm, rfl⟩))

section

variable {p : M.Pid} {ans : Nat → (c : S.Cmd) → M.Ans c} {α : Type} {c : S.Cmd}
  {k : S.Res c → Prog S ε α} {st : M.St} {out : List S.Cmd}

/-- A segment that starts with a command that is answered on the spot. -/
theorem sent_call_sync {s : M.Seg α} (hc : M.sync c = true)
    (hs : M.seg p ans (.call c k) st out = some s) :
    ∃ r st', M.step p c st (ans out.length c) = some (r, st') ∧
      M.seg p ans (k r) st' (out ++ [c]) = some s ∧
      M.sent p ans (.call c k) st out = c :: M.sent p ans (k r) st' (out ++ [c]) := by
  obtain ⟨r, st', hstep, hrest⟩ := seg_call_sync hc hs
  exact ⟨r, st', hstep, hrest, by simp only [sent, hc, if_true, hstep]⟩

/-- A program that waits has issued its command. -/
theorem sent_call_wait (hc : M.sync c = false) : M.sent p ans (.call c k) st out = [c] := by
  simp [sent, hc]

end

end Machine

end Async
