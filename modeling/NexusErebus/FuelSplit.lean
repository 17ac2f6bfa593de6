import NexusErebus.Trades

/-!
# The fuel split

`burnAndDev` makes two transfers, one to the burn wallet and then one to the developers.  A
transfer ends in one of three ways.  It returns, and then it was confirmed.  It fails although one
of its submissions lands.  It fails and nothing lands.  Nothing undoes the first transfer when the
second fails, and nothing tells a failed transfer that landed from one that was lost.

`burnAndDev_split_iff` says for every pair of endings whether the split is complete or absent.
-/

namespace Nexus

open Async

/-! ## What goes where -/

/-- The account a transaction transfers to. -/
def SignedTx.destination (tx : SignedTx) : Option PublicKey :=
  match tx.body with
  | .transfer ix _ _ => some ix.destination
  | .wire _ => none

/-- The raw amount the chain moves to an account. -/
def Ledger.gone (l : Ledger) (dest : PublicKey) : ℤ :=
  Ledger.moved (l.filter fun sub => sub.tx.destination = some dest)

/-- The node confirms a transaction only if it is on the chain. -/
def Confirms {τ : Type} (strat : (c : Cmd) → τ → c.Ans × τ) : Prop :=
  ∀ tx skip t, (strat (.sendAndConfirmRawTransaction tx skip) t).1.1.isOk = true →
    (strat (.sendAndConfirmRawTransaction tx skip) t).1.2 = true

/-- How a transfer ends. -/
inductive Ending where
  | confirmed
  /-- It fails, and a submission lands. -/
  | landed
  /-- It fails, and nothing lands. -/
  | lost
  deriving DecidableEq, Repr

/-- For which pairs of endings the split is complete or absent, if the shares are `burn` and
`dev`.  The second transfer is only made after the first is confirmed. -/
def Ending.Safe (burn dev : ℚ) : Ending → Ending → Prop
  | .confirmed, .confirmed => True
  | .confirmed, .landed => burn = 0 ∧ dev = 0
  | .confirmed, .lost => burn = 0
  | .landed, _ => burn = 0
  | .lost, _ => True

section

variable (env : Env) (fromKp : Keypair) (n pct : ℚ) {τ : Type} (p : Pid)
  (strat : (c : Cmd) → τ → c.Ans × τ) (s : St × τ)

/-- The ending of a transfer that is made in the state `s`. -/
def ending (q : Prog Unit) : Ending :=
  match q.run (alone p strat) s with
  | (.ok _, _) => .confirmed
  | (.error _, s') =>
      if (Ledger.since s.1.chain s'.1.chain).any Submission.lands then .landed else .lost

/-- The first transfer of `burnAndDev`. -/
def burnLeg : Prog Unit :=
  await (transfer env env.nxrMint fromKp burnWallet (burnShare (some n) (some pct)))

/-- The second transfer of `burnAndDev`. -/
def devLeg : Prog Unit :=
  await (transfer env env.nxrMint fromKp env.devWallet (devShare (some n) (some pct)))

/-- Either both shares have gone to their wallets and the call succeeded, or nothing has moved
and the call failed. -/
def CompleteOrAbsent : Prop :=
  let r := (burnAndDev env fromKp (some n) (some pct)).run (alone p strat) s
  let l := Ledger.since s.1.chain r.2.1.chain
  (r.1 = .ok () ∧ (l.gone burnWallet : ℚ) = (n * pct).floor ∧
      (l.gone env.devWallet : ℚ) = n - (n * pct).floor) ∨
    (r.1 ≠ .ok () ∧ ∀ tx ∈ l.executed, tx.amount = 0)

end

/-! ## The ledger of one transfer -/

/-- Submissions of one transfer: all are one transaction, which transfers `x` to `dest`. -/
def Ledger.Pays (l : Ledger) (dest : PublicKey) (x : ℚ) : Prop :=
  l = [] ∨ ∃ tx : SignedTx, (tx.destination = some dest ∧ (tx.amount : ℚ) = x) ∧
    ∀ sub ∈ l, sub.tx = tx

namespace Ledger.Pays

variable {l : Ledger} {dest : PublicKey} {x : ℚ}

theorem mem (h : l.Pays dest x) {sub : Submission} (hsub : sub ∈ l) :
    sub.tx.destination = some dest ∧ (sub.tx.amount : ℚ) = x := by
  rcases h with rfl | ⟨tx, htx, hall⟩
  · cases hsub
  · rwa [hall sub hsub]

/-- All of it goes to the destination. -/
theorem gone_self (h : l.Pays dest x) : l.gone dest = l.moved := by
  have hfilter : (l.filter fun sub => sub.tx.destination = some dest) = l :=
    List.filter_eq_self.mpr fun sub hsub => decide_eq_true (h.mem hsub).1
  rw [gone, hfilter]

/-- However often it is submitted, the chain moves the amount once if a submission lands. -/
theorem moved_eq (h : l.Pays dest x) (hl : l.any Submission.lands = true) : (l.moved : ℚ) = x := by
  obtain ⟨sub, hsub, hlands⟩ := List.any_eq_true.mp hl
  have hmem : sub.tx ∈ l.executed := mem_executed_iff.mpr ⟨sub, hsub, hlands, rfl⟩
  obtain ⟨hle, hall⟩ := executed_le_one h
  obtain ⟨tx, htx⟩ := List.length_eq_one_iff.mp (le_antisymm hle (List.length_pos_of_mem hmem))
  have hamount := (hall tx (htx ▸ List.mem_singleton_self tx)).2
  simpa [moved, htx] using hamount

/-- Nothing moves if nothing lands or the amount is zero. -/
theorem still_iff (h : l.Pays dest x) :
    (∀ tx ∈ l.executed, tx.amount = 0) ↔ (l.any Submission.lands = true → x = 0) := by
  constructor
  · intro hzero hl
    obtain ⟨sub, hsub, hlands⟩ := List.any_eq_true.mp hl
    have hamount := hzero sub.tx (mem_executed_iff.mpr ⟨sub, hsub, hlands, rfl⟩)
    rw [← (h.mem hsub).2, hamount, Int.cast_zero]
  · intro hzero tx htx
    obtain ⟨sub, hsub, hlands, rfl⟩ := mem_executed_iff.mp htx
    have hamount := (h.mem hsub).2
    rw [hzero (List.any_eq_true.mpr ⟨sub, hsub, hlands⟩)] at hamount
    exact_mod_cast hamount

end Ledger.Pays

/-- What goes to one of two destinations is what was submitted for it. -/
theorem Ledger.gone_append {l₁ l₂ : Ledger} {dest₁ dest₂ : PublicKey} {x₁ x₂ : ℚ}
    (h₁ : l₁.Pays dest₁ x₁) (h₂ : l₂.Pays dest₂ x₂) (hne : dest₂ ≠ dest₁) :
    Ledger.gone (l₁ ++ l₂) dest₁ = l₁.moved ∧ Ledger.gone (l₁ ++ l₂) dest₂ = l₂.moved := by
  have hother : ∀ {l : Ledger} {dest dest' : PublicKey} {x : ℚ}, l.Pays dest x → dest ≠ dest' →
      (l.filter fun sub => sub.tx.destination = some dest') = [] := by
    intro l dest dest' x h hdest
    refine List.filter_eq_nil_iff.mpr fun sub hsub => ?_
    rw [(h.mem hsub).1]
    simpa using hdest
  rw [← h₁.gone_self, ← h₂.gone_self]
  simp only [gone, List.filter_append]
  rw [hother h₂ hne, hother h₁ hne.symm, List.append_nil, List.nil_append]
  exact ⟨rfl, rfl⟩

theorem executed_append {l₁ l₂ : Ledger} {P : SignedTx → Prop} :
    (∀ tx ∈ Ledger.executed (l₁ ++ l₂), P tx) ↔
      (∀ tx ∈ l₁.executed, P tx) ∧ ∀ tx ∈ l₂.executed, P tx := by
  simp only [mem_executed_iff, List.mem_append, or_and_right, exists_or, or_imp, forall_and]

section

variable {env : Env} {fromKp : Keypair} {n pct : ℚ} {τ : Type} {p : Pid}
  {strat : (c : Cmd) → τ → c.Ans × τ}

variable (env fromKp p) in
/-- What one transfer adds to the ledger, as the environment answers it.  If it returns, a
submission has landed. -/
theorem transfer_ledger (hconf : Confirms strat) (mint dest : PublicKey) (x : ℚ) (s : St × τ) :
    ∃ subs : Ledger,
      ((await (transfer env mint fromKp dest (some x))).run (alone p strat) s).2.1.chain =
        s.1.chain ++ subs ∧ subs.Pays dest x ∧
      (∀ sub ∈ subs, ∃ skip t,
        (strat (.sendAndConfirmRawTransaction sub.tx skip) t).1 = (sub.report, sub.lands)) ∧
      (((await (transfer env mint fromKp dest (some x))).run (alone p strat) s).1 = .ok () →
        subs.any Submission.lands = true) := by
  obtain ⟨subs, hchain, hpays, hok⟩ := (pays_transfer env mint fromKp dest (some x)).await s
  obtain ⟨subs', hchain', hanswers⟩ := run_chain p strat
    (await (transfer env mint fromKp dest (some x))) s
  obtain rfl := List.append_cancel_left (hchain.symm.trans hchain')
  refine ⟨subs, hchain, ?_, hanswers, fun hrun => ?_⟩
  · refine hpays.imp_right ?_
    rintro ⟨tx, ⟨source, decimals, -, k, blockhash, hk, rfl⟩, hall⟩
    refine ⟨_, ⟨rfl, ?_⟩, hall⟩
    exact (Option.some.inj hk).symm
  · obtain ⟨sub, hsub, hreport⟩ := hok (by rw [hrun]; rfl)
    obtain ⟨skip, t, hanswer⟩ := hanswers sub hsub
    have hlands := hconf sub.tx skip t (by rw [hanswer]; exact hreport)
    rw [hanswer] at hlands
    exact List.any_eq_true.mpr ⟨sub, hsub, hlands⟩

theorem ending_ok {q : Prog Unit} {s s' : St × τ} (h : q.run (alone p strat) s = (.ok (), s')) :
    ending p strat s q = .confirmed := by
  rw [ending, h]

theorem ending_error {q : Prog Unit} {s s' : St × τ} {e : Err} {subs : Ledger}
    (h : q.run (alone p strat) s = (.error e, s')) (hchain : s'.1.chain = s.1.chain ++ subs) :
    ending p strat s q = if subs.any Submission.lands then .landed else .lost := by
  rw [ending, h]
  simp only [hchain, Ledger.since_append]

/-- The first transfer fails.  Then the call fails, and the second transfer is not made. -/
theorem completeOrAbsent_of_error {s s' : St × τ} {e : Err} {subs : Ledger} {e₂ : Ending}
    (h : (burnLeg env fromKp n pct).run (alone p strat) s = (.error e, s'))
    (hchain : s'.1.chain = s.1.chain ++ subs)
    (hsubs : subs.Pays burnWallet ((n * pct).floor : ℚ)) :
    CompleteOrAbsent env fromKp n pct p strat s ↔
      (ending p strat s (burnLeg env fromKp n pct)).Safe (n * pct).floor (n - (n * pct).floor) e₂ := by
  have hrun : (burnAndDev env fromKp (some n) (some pct)).run (alone p strat) s = (.error e, s') :=
    Prog.run_bind_error h
  rw [ending_error h hchain]
  unfold CompleteOrAbsent
  rw [hrun]
  simp only [hchain, Ledger.since_append, hsubs.still_iff]
  cases subs.any Submission.lands with
  | true => simp [Ending.Safe]
  | false => simp [Ending.Safe]

/-- The first transfer is confirmed.  Then it depends on the second. -/
theorem completeOrAbsent_of_ok {s s' : St × τ} {subs : Ledger} (hconf : Confirms strat)
    (hdev : env.devWallet ≠ burnWallet)
    (h : (burnLeg env fromKp n pct).run (alone p strat) s = (.ok (), s'))
    (hchain : s'.1.chain = s.1.chain ++ subs)
    (hsubs : subs.Pays burnWallet ((n * pct).floor : ℚ))
    (hlands : subs.any Submission.lands = true) :
    CompleteOrAbsent env fromKp n pct p strat s ↔
      Ending.Safe (n * pct).floor (n - (n * pct).floor) .confirmed
        (ending p strat s' (devLeg env fromKp n pct)) := by
  have hrun : (burnAndDev env fromKp (some n) (some pct)).run (alone p strat) s =
      (devLeg env fromKp n pct).run (alone p strat) s' :=
    Prog.run_bind_ok h
  obtain ⟨subs₂, hchain₂, hsubs₂, -, hok₂⟩ :=
    transfer_ledger env fromKp p hconf env.nxrMint env.devWallet (n - (n * pct).floor) s'
  cases hrun₂ : (devLeg env fromKp n pct).run (alone p strat) s' with
  | mk r s₂ =>
      have hleg : (await (transfer env env.nxrMint fromKp env.devWallet
          (some (n - (n * pct).floor)))).run (alone p strat) s' = (r, s₂) := hrun₂
      rw [hleg] at hchain₂ hok₂
      have hwhole : s₂.1.chain = s.1.chain ++ (subs ++ subs₂) := by
        rw [hchain₂, hchain, List.append_assoc]
      unfold CompleteOrAbsent
      rw [hrun, hrun₂]
      simp only [hwhole, Ledger.since_append]
      cases r with
      | ok u =>
          rw [ending_ok hrun₂]
          obtain ⟨hburn, hdevs⟩ := Ledger.gone_append hsubs hsubs₂ hdev
          refine iff_of_true (.inl ⟨rfl, ?_, ?_⟩) trivial
          · rw [hburn, hsubs.moved_eq hlands]
          · rw [hdevs, hsubs₂.moved_eq (hok₂ rfl)]
      | error e =>
          rw [ending_error hrun₂ hchain₂, executed_append, hsubs.still_iff, hsubs₂.still_iff, hlands]
          cases subs₂.any Submission.lands with
          | true => simp [Ending.Safe]
          | false => simp [Ending.Safe]

end

/-- The split is complete or absent if and only if the two transfers end in a safe pair.  That is
not so when the first is confirmed and the second fails, or when a transfer that failed has landed,
unless the shares that have moved are zero. -/
theorem burnAndDev_split_iff (env : Env) (fromKp : Keypair) (n pct : ℚ)
    (hdev : env.devWallet ≠ burnWallet) {τ : Type} (p : Pid) (strat : (c : Cmd) → τ → c.Ans × τ)
    (hconf : Confirms strat) (s : St × τ) :
    CompleteOrAbsent env fromKp n pct p strat s ↔
      (ending p strat s (burnLeg env fromKp n pct)).Safe (n * pct).floor (n - (n * pct).floor)
        (ending p strat ((burnLeg env fromKp n pct).run (alone p strat) s).2
          (devLeg env fromKp n pct)) := by
  obtain ⟨subs, hchain, hsubs, -, hok⟩ :=
    transfer_ledger env fromKp p hconf env.nxrMint burnWallet ((n * pct).floor : ℚ) s
  cases hrun : (burnLeg env fromKp n pct).run (alone p strat) s with
  | mk r s' =>
      have hleg : (await (transfer env env.nxrMint fromKp burnWallet
          (some ((n * pct).floor : ℚ)))).run (alone p strat) s = (r, s') := hrun
      rw [hleg] at hchain hok
      cases r with
      | error e => exact completeOrAbsent_of_error hrun hchain hsubs
      | ok u =>
          rw [ending_ok hrun]
          exact completeOrAbsent_of_ok hconf hdev hrun hchain hsubs (hok rfl)

namespace Sample

/-- Services that work, except that transfers to the developers are rejected if `rejects`. -/
def splitting (rejects : Bool) (c : Cmd) (t : Unit) : c.Ans × Unit :=
  match c with
  | .sendAndConfirmRawTransaction tx skip =>
      if rejects ∧ tx.destination = some env.devWallet then
        ((.error (.new "Transaction simulation failed: Blockhash not found"), false), t)
      else trading (.sendAndConfirmRawTransaction tx skip) t
  | c => trading c t

theorem splitting_taken {rejects : Bool} {tx : SignedTx} (skip : Bool) (t : Unit)
    (h : ¬ (rejects = true ∧ tx.destination = some env.devWallet)) :
    splitting rejects (.sendAndConfirmRawTransaction tx skip) t =
      trading (.sendAndConfirmRawTransaction tx skip) t :=
  if_neg h

theorem splitting_rejected {tx : SignedTx} (skip : Bool) (t : Unit)
    (h : tx.destination = some env.devWallet) :
    splitting true (.sendAndConfirmRawTransaction tx skip) t =
      ((.error (.new "Transaction simulation failed: Blockhash not found"), false), t) :=
  if_pos ⟨rfl, h⟩

theorem splitting_confirms (rejects : Bool) : Confirms (splitting rejects) := by
  intro tx skip t h
  by_cases hr : rejects = true ∧ tx.destination = some env.devWallet
  · obtain ⟨rfl, hd⟩ := hr
    rw [splitting_rejected skip t hd] at h
    cases h
  · rw [splitting_taken skip t hr]
    rfl

theorem transfer_splitting {rejects : Bool} {dest : PublicKey}
    (h : ¬ (rejects = true ∧ dest = env.devWallet)) (n : ℤ) (s : St × Unit) : ∃ s',
      (await (transfer env env.nxrMint alice dest (some n))).run
        (alone .worker (splitting rejects)) s = (.ok (), s') := by
  have hreturns : (transfer env env.nxrMint alice dest (some n)).Returns
      (alone .worker (splitting rejects)) fun _ => True := by
    refine transfer_returns_of rfl (fun _ => ⟨some 6, rfl⟩) (fun _ => ⟨_, rfl⟩) fun d b t => ?_
    rw [splitting_taken]
    · exact ⟨_, rfl⟩
    · rintro ⟨hr, hd⟩
      exact h ⟨hr, Option.some.inj hd⟩
  obtain ⟨_, s', hrun, -⟩ := returns_await hreturns s
  exact ⟨s', hrun⟩

theorem burnLeg_splitting (rejects : Bool) (s : St × Unit) : ∃ s',
    (burnLeg env alice 4120000 (40 / 100)).run (alone .worker (splitting rejects)) s =
      (.ok (), s') := by
  have hshare : burnShare (some 4120000) (some (40 / 100)) = some ((1648000 : ℤ) : ℚ) := by
    decide +kernel
  rw [burnLeg, hshare]
  exact transfer_splitting (fun h => absurd h.2 (by decide)) 1648000 s

/-- A rejected transfer fails, and nothing lands. -/
theorem devLeg_splitting (s : St × Unit) :
    ending .worker (splitting true) s (devLeg env alice 4120000 (40 / 100)) = .lost := by
  obtain ⟨subs, hchain, hsubs, hanswers, hok⟩ := transfer_ledger env alice .worker
    (splitting_confirms true) env.nxrMint env.devWallet (4120000 - (4120000 * (40 / 100) : ℚ).floor) s
  have hnone : subs.any Submission.lands = false := by
    refine List.any_eq_false.mpr fun sub hsub => ?_
    obtain ⟨skip, t, hanswer⟩ := hanswers sub hsub
    rw [splitting_rejected skip t (hsubs.mem hsub).1] at hanswer
    rw [← (Prod.mk.inj hanswer).2]
    exact Bool.false_ne_true
  cases hrun : (devLeg env alice 4120000 (40 / 100)).run (alone .worker (splitting true)) s with
  | mk r s' =>
      have hleg : (await (transfer env env.nxrMint alice env.devWallet
          (some (4120000 - (4120000 * (40 / 100) : ℚ).floor)))).run
            (alone .worker (splitting true)) s = (r, s') := hrun
      rw [hleg] at hchain hok
      cases r with
      | ok u => exact absurd (hok rfl) (by rw [hnone]; exact Bool.false_ne_true)
      | error e => rw [ending_error hrun hchain, hnone]; rfl

/-- The burn is confirmed and the transfer to the developers is rejected.  The call fails with
the burn made. -/
theorem burnAndDev_torn : Confirms (splitting true) ∧ env.devWallet ≠ burnWallet ∧
    ¬ CompleteOrAbsent env alice 4120000 (40 / 100) .worker (splitting true) (St.fresh env 0, ()) := by
  have hdev : env.devWallet ≠ burnWallet := by decide
  refine ⟨splitting_confirms true, hdev, fun h => ?_⟩
  obtain ⟨subs, hchain, hsubs, -, hok⟩ := transfer_ledger env alice .worker
    (splitting_confirms true) env.nxrMint burnWallet ((4120000 * (40 / 100) : ℚ).floor : ℚ)
    (St.fresh env 0, ())
  obtain ⟨s', hrun⟩ := burnLeg_splitting true (St.fresh env 0, ())
  have hleg : (await (transfer env env.nxrMint alice burnWallet
      (some ((4120000 * (40 / 100) : ℚ).floor : ℚ)))).run (alone .worker (splitting true))
        (St.fresh env 0, ()) = (.ok (), s') := hrun
  rw [hleg] at hchain hok
  rw [completeOrAbsent_of_ok (splitting_confirms true) hdev hrun hchain hsubs (hok rfl),
    devLeg_splitting] at h
  exact absurd h (by simp only [Ending.Safe]; decide +kernel)

/-- With a node that takes both transfers the split is complete. -/
theorem burnAndDev_split_both : Confirms (splitting false) ∧
    CompleteOrAbsent env alice 4120000 (40 / 100) .worker (splitting false) (St.fresh env 0, ()) := by
  refine ⟨splitting_confirms false, ?_⟩
  refine (burnAndDev_split_iff env alice 4120000 (40 / 100) (by decide) .worker (splitting false)
    (splitting_confirms false) (St.fresh env 0, ())).mpr ?_
  obtain ⟨s', hrun⟩ := burnLeg_splitting false (St.fresh env 0, ())
  have hshare : devShare (some 4120000) (some (40 / 100)) = some ((2472000 : ℤ) : ℚ) := by
    decide +kernel
  obtain ⟨s₂, hrun₂⟩ : ∃ s₂, (devLeg env alice 4120000 (40 / 100)).run
      (alone .worker (splitting false)) s' = (.ok (), s₂) := by
    rw [devLeg, hshare]
    exact transfer_splitting (fun h => Bool.false_ne_true h.1) 2472000 s'
  rw [hrun, ending_ok hrun, ending_ok hrun₂]
  trivial

end Sample

end Nexus
