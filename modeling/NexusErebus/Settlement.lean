import NexusErebus.Sample
import NexusErebus.Solana
import Mathlib.Algebra.Order.BigOperators.Group.List
import Mathlib.Data.List.Perm.Subperm
import Mathlib.Tactic.Linarith

/-!
# What lands on the chain

A submission may land although the confirmation call reports an error, and then the
retry loop submits again.  Whether the same payment is made twice depends on what is
submitted again.

* `transfer` and `transferToken` submit one signed transaction over and over
  (`pays_submitLoop`).  The chain carries it out at most once.
* `executeSwap` fetches a new transaction for every attempt.  It carries out one swap
  at most just in case no two attempts land, of those the loop reaches
  (`executeSwap_once_iff`).

The first is proved for every strategy of the environment.  For the second, the
behaviour of the environment is given attempt by attempt (`SwapBehaviour`).
-/

namespace Nexus

open Async

/-! ## Programs that submit nothing -/

/-- The command submits a transaction. -/
def Cmd.isSend : Cmd → Bool
  | .sendAndConfirmRawTransaction _ _ => true
  | _ => false

theorem exec_chain (p : Pid) (c : Cmd) (st : St) (a : c.Ans) (hc : c.isSend = false) :
    (exec p c st a).2.chain = st.chain := by
  cases c with
  | sendAndConfirmRawTransaction tx b => cases hc
  | _ => rfl

/-- The program submits nothing. -/
def Quiet {α : Type} (q : Prog α) : Prop := q.Issues fun c : Cmd => c.isSend = false

section

variable {α : Type} {τ : Type} {p : Pid} {strat : (c : Cmd) → τ → c.Ans × τ}

variable (p strat) in
theorem Quiet.chain {q : Prog α} (h : Quiet q) (s : St × τ) :
    (q.run (alone p strat) s).2.1.chain = s.1.chain :=
  h.run_inv (I := fun s' : St × τ => s'.1.chain = s.1.chain)
    (fun c s' hc hs' => (exec_chain p c s'.1 _ hc).trans hs') rfl

variable (p strat) in
/-- A program only adds submissions, and the environment answers each of them. -/
theorem run_chain (q : Prog α) (s : St × τ) : ∃ subs : Ledger,
    (q.run (alone p strat) s).2.1.chain = s.1.chain ++ subs ∧ ∀ sub ∈ subs, ∃ skip t,
      (strat (.sendAndConfirmRawTransaction sub.tx skip) t).1 = (sub.report, sub.lands) := by
  refine Prog.Issues.run_inv (I := fun s' : St × τ => ∃ subs : Ledger,
    s'.1.chain = s.1.chain ++ subs ∧ ∀ sub ∈ subs, ∃ skip t,
      (strat (.sendAndConfirmRawTransaction sub.tx skip) t).1 = (sub.report, sub.lands)) ?_
    (Prog.issues_of_forall (fun _ => trivial) q) ⟨[], (List.append_nil _).symm, nofun⟩
  rintro c s' - ⟨subs, hs, hsubs⟩
  by_cases hc : c.isSend = true
  · cases c with
    | sendAndConfirmRawTransaction tx skip =>
        have hsend : (alone p strat (.sendAndConfirmRawTransaction tx skip) s').2.1.chain =
            s'.1.chain ++ [⟨tx, _, _⟩] := rfl
        refine ⟨subs ++ _, by rw [hsend, hs, List.append_assoc], fun sub hsub => ?_⟩
        rcases List.mem_append.mp hsub with h | h
        · exact hsubs sub h
        · cases List.mem_singleton.mp h
          exact ⟨skip, s'.2, rfl⟩
    | _ => cases hc
  · exact ⟨subs, (exec_chain p c s'.1 _ (by simpa using hc)).trans hs, hsubs⟩

theorem quiet_ofExcept (x : Except Err α) : Quiet (.ofExcept x : Prog α) := Prog.issues_ofExcept x

theorem run_ofExcept_ok {x : Except Err α} {a : α} {s s' : St × τ}
    (h : (Prog.ofExcept x : Prog α).run (alone p strat) s = (.ok a, s')) : x = .ok a := by
  rw [Prog.run_ofExcept] at h
  exact congrArg Prod.fst h

theorem quiet_await {q : Prog α} (h : Quiet q) : Quiet (await q) := issues_await rfl h

theorem isSend_plumbing (c : Cmd) (hc : c.plumbing = true) : c.isSend = false := by
  cases c with
  | sendAndConfirmRawTransaction tx b => cases hc
  | _ => rfl

theorem quiet_decimalsOf (mint : PublicKey) : Quiet (decimalsOf mint) :=
  issues_decimalsOf isSend_plumbing mint

theorem quiet_getDecimals (env : Env) (mint : PublicKey) : Quiet (getDecimals env mint) := by
  refine Prog.issues_bind (issues_redis rfl) fun cached => ?_
  split
  next => exact .ret _
  next =>
    refine Prog.issues_bind (issues_attempt (issues_ask rfl)) fun info => ?_
    refine Prog.issues_bind (issues_parsedDecimals info) fun d => ?_
    exact Prog.issues_bind (issues_setEx fun _ => rfl) fun _ => .ret d

theorem quiet_rpcFailed (env : Env) (event : List (String × Json)) (e : Err) :
    Quiet (rpcFailed env event e : Prog α) :=
  issues_rpcFailed isSend_plumbing event e

theorem quiet_signTransfer (source mint destination : PublicKey) (fromKp : Keypair)
    (amount decimals : Number) : Quiet (signTransfer source mint destination fromKp amount decimals) :=
  issues_signTransfer isSend_plumbing source mint destination fromKp amount decimals

end

/-! ## One payment at most -/

/-- From `before` to `after` at most one transaction was submitted, however often, and it
satisfies `P`.  If the program returned, a submission was reported confirmed. -/
def PaysOnce {α : Type} (P : SignedTx → Prop) (before : Ledger) (r : Except Err α)
    (after : Ledger) : Prop :=
  ∃ subs, after = before ++ subs ∧ (subs = [] ∨ ∃ tx, P tx ∧ ∀ sub ∈ subs, sub.tx = tx) ∧
    (r.isOk = true → ∃ sub ∈ subs, sub.report.isOk = true)

theorem paysOnce_error {α : Type} {P : SignedTx → Prop} (l : Ledger) (e : Err) :
    PaysOnce P l (.error e : Except Err α) l :=
  ⟨[], by simp, .inl rfl, by simp [Except.isOk, Except.toBool]⟩

theorem length_dedup_le_one {β : Type} [DecidableEq β] {a : β} {l : List β}
    (h : ∀ b ∈ l, b = a) : l.dedup.length ≤ 1 := by
  have hsub : l.dedup ⊆ [a] := fun b hb => List.mem_singleton.mpr (h b (List.mem_dedup.mp hb))
  exact ((List.nodup_dedup l).subperm hsub).length_le

theorem mem_executed_iff {l : Ledger} {tx : SignedTx} :
    tx ∈ l.executed ↔ ∃ sub ∈ l, sub.lands = true ∧ sub.tx = tx := by
  simp [Ledger.executed, and_assoc]

theorem mem_executed {l : Ledger} {tx : SignedTx} (h : tx ∈ l.executed) :
    ∃ sub ∈ l, sub.tx = tx :=
  (mem_executed_iff.mp h).imp fun _ hsub => ⟨hsub.1, hsub.2.2⟩

/-- However the submissions land, the chain carries out one transaction at most. -/
theorem executed_le_one {l : Ledger} {P : SignedTx → Prop}
    (h : l = [] ∨ ∃ tx, P tx ∧ ∀ sub ∈ l, sub.tx = tx) :
    l.executed.length ≤ 1 ∧ ∀ tx ∈ l.executed, P tx := by
  rcases h with rfl | ⟨tx, hP, htx⟩
  · exact ⟨by simp [Ledger.executed], by simp [Ledger.executed]⟩
  · constructor
    · refine length_dedup_le_one (a := tx) fun b hb => ?_
      obtain ⟨sub, hsub, rfl⟩ := List.mem_map.mp hb
      exact htx sub (List.mem_of_mem_filter hsub)
    · intro tx' htx'
      obtain ⟨sub, hsub, rfl⟩ := mem_executed htx'
      exact htx sub hsub ▸ hP

/-- The chain carries out one transaction at most if and only if all that landed are the
same. -/
theorem executed_le_one_iff {l : Ledger} : l.executed.length ≤ 1 ↔
    ∀ tx, (∃ sub ∈ l, sub.lands = true ∧ sub.tx = tx) →
      ∀ tx', (∃ sub ∈ l, sub.lands = true ∧ sub.tx = tx') → tx = tx' := by
  simp only [← mem_executed_iff]
  constructor
  · intro h tx htx tx' htx'
    obtain ⟨a, ha⟩ := List.length_eq_one_iff.mp (le_antisymm h (List.length_pos_of_mem htx))
    rw [ha, List.mem_singleton] at htx htx'
    exact htx.trans htx'.symm
  · intro h
    cases hl : l.executed with
    | nil => simp
    | cons a rest =>
        rw [← hl]
        have ha : a ∈ l.executed := hl ▸ List.mem_cons_self
        exact length_dedup_le_one fun b hb => h b (List.mem_dedup.mpr hb) a ha

/-! ## The retry loop around one transaction -/

section

variable {τ : Type} {p : Pid} {strat : (c : Cmd) → τ → c.Ans × τ}

variable (p strat) in
/-- The program pays once at most, against this strategy. -/
def Pays {α : Type} (P : SignedTx → Prop) (q : Prog α) : Prop :=
  ∀ s : St × τ, PaysOnce P s.1.chain (q.run (alone p strat) s).1
    (q.run (alone p strat) s).2.1.chain

variable (p strat) in
/-- One submission, whose report is the outcome. -/
theorem await_submit_run (tx : SignedTx) (s : St × τ) :
    ∃ r lands s', (await (submit tx)).run (alone p strat) s = (r, s') ∧
      s'.1.chain = s.1.chain ++ [⟨tx, lands, r⟩] := by
  obtain ⟨st, t⟩ := s
  obtain ⟨⟨⟨r, lands⟩, t'⟩, ha⟩ :
      ∃ x, strat (.sendAndConfirmRawTransaction tx false) t = x := ⟨_, rfl⟩
  have hask : (ask (.sendAndConfirmRawTransaction tx false)).run (alone p strat) (st, t) =
      (.ok r, ({ st with chain := st.chain ++ [⟨tx, lands, r⟩] }, t')) := by
    refine (run_ask _ _ _).trans ?_
    rw [ha]
    rfl
  have hsubmit : (submit tx).run (alone p strat) (st, t) =
      (r, ({ st with chain := st.chain ++ [⟨tx, lands, r⟩] }, t')) :=
    (Prog.run_bind_ok hask).trans (Prog.run_ofExcept _ _)
  cases r with
  | ok sig => exact ⟨.ok sig, lands, _, Prog.run_bind_ok hsubmit, rfl⟩
  | error e => exact ⟨.error e, lands, _, Prog.run_bind_error hsubmit, rfl⟩

variable (p strat) in
/-- Every attempt submits the same signed transaction. -/
theorem pays_submitLoop (tx : SignedTx) (opts : RetryOpts) :
    Pays p strat (· = tx) (withRetry (submit tx) opts) := by
  intro s
  -- before every call, only `tx` has been submitted
  obtain ⟨hok, herr⟩ := retryLoop_rule (alone p strat) (submit tx) opts.delay opts.factor
    (I := fun s' => ∃ subs, s'.1.chain = s.1.chain ++ subs ∧ ∀ sub ∈ subs, sub.tx = tx)
    (G := fun _ s' => ∃ subs, s'.1.chain = s.1.chain ++ subs ∧ (∀ sub ∈ subs, sub.tx = tx) ∧
      ∃ sub ∈ subs, sub.report.isOk = true)
    (by
      rintro s₁ a s₂ ⟨subs, hs, hsubs⟩ hrun
      obtain ⟨r, lands, s', hrun', hchain⟩ := await_submit_run p strat tx s₁
      rw [hrun] at hrun'
      obtain ⟨hr, rfl⟩ := Prod.mk.inj hrun'
      rw [hs, ← hr, List.append_assoc] at hchain
      refine ⟨_, hchain, ?_, ⟨tx, lands, .ok a⟩, by simp, rfl⟩
      intro sub hsub
      rcases List.mem_append.mp hsub with h | h
      · exact hsubs sub h
      · exact (List.mem_singleton.mp h) ▸ rfl)
    (by
      rintro s₁ e s₂ ⟨subs, hs, hsubs⟩ hrun
      obtain ⟨r, lands, s', hrun', hchain⟩ := await_submit_run p strat tx s₁
      rw [hrun] at hrun'
      obtain ⟨hr, rfl⟩ := Prod.mk.inj hrun'
      rw [hs, ← hr, List.append_assoc] at hchain
      refine ⟨_, hchain, ?_⟩
      intro sub hsub
      rcases List.mem_append.mp hsub with h | h
      · exact hsubs sub h
      · exact (List.mem_singleton.mp h) ▸ rfl)
    (fun _ _ h => h) opts.attempts 0 none s ⟨[], by simp, by simp⟩
  unfold withRetry
  cases hrun : (retryLoop (submit tx) opts.delay opts.factor opts.attempts 0 none).run
      (alone p strat) s with
  | mk r s' =>
      cases r with
      | ok a =>
          obtain ⟨subs, hs, hsubs, hconf⟩ := hok a s' hrun
          exact ⟨subs, hs, .inr ⟨tx, rfl, hsubs⟩, fun _ => hconf⟩
      | error e =>
          obtain ⟨subs, hs, hsubs⟩ := herr e s' hrun
          exact ⟨subs, hs, .inr ⟨tx, rfl, hsubs⟩, by simp [Except.isOk, Except.toBool]⟩

/-! ## Transfers -/

section Rules

variable {α β : Type} {P P' : SignedTx → Prop} {q : Prog α} {f : α → Prog β}

theorem Pays.mono (h : Pays p strat P q) (hP : ∀ tx, P tx → P' tx) : Pays p strat P' q := by
  intro s
  obtain ⟨subs, hs, htx, hok⟩ := h s
  exact ⟨subs, hs, htx.imp_right fun ⟨tx, hp, h⟩ => ⟨tx, hP tx hp, h⟩, hok⟩

/-- What comes before the payment submits nothing. -/
theorem Quiet.pays_bind (hq : Quiet q)
    (hf : ∀ a s s', q.run (alone p strat) s = (.ok a, s') → Pays p strat P (f a)) :
    Pays p strat P (q.bind f) := by
  intro s
  cases hr : q.run (alone p strat) s with
  | mk r s' =>
      have hchain : s'.1.chain = s.1.chain := by
        have h := hq.chain p strat s
        rwa [hr] at h
      rw [← hchain]
      cases r with
      | ok a =>
          rw [Prog.run_bind_ok hr]
          exact hf a s s' hr s'
      | error e =>
          rw [Prog.run_bind_error hr]
          exact paysOnce_error _ e

/-- What comes after the payment neither fails nor submits. -/
theorem Pays.andThen (h : Pays p strat P q)
    (hf : ∀ a (s : St × τ), ∃ b s', (f a).run (alone p strat) s = (.ok b, s') ∧
      s'.1.chain = s.1.chain) : Pays p strat P (q.bind f) := by
  intro s
  have hs := h s
  cases hq : q.run (alone p strat) s with
  | mk r s' =>
      rw [hq] at hs
      cases r with
      | ok a =>
          obtain ⟨b, s'', hb, hs''⟩ := hf a s'
          rw [Prog.run_bind_ok hq, hb]
          simp only [hs'']
          exact hs
      | error e =>
          rw [Prog.run_bind_error hq]
          exact hs

theorem Pays.await (h : Pays p strat P q) : Pays p strat P (Nexus.await q) :=
  h.andThen fun a _ => ⟨a, _, rfl, rfl⟩

/-- Reporting a failure submits nothing and does not hide it. -/
theorem Pays.rpcFailed (h : Pays p strat P q) (env : Env) (event : List (String × Json)) :
    Pays p strat P (q.tryCatch (Nexus.rpcFailed env event)) := by
  intro s
  have hs := h s
  rw [Prog.run_tryCatch]
  cases hq : q.run (alone p strat) s with
  | mk r s' =>
      rw [hq] at hs
      cases r with
      | ok a => exact hs
      | error e =>
          have hchain := (quiet_rpcFailed (α := α) env event e).chain p strat s'
          simp only [hchain]
          exact hs

end Rules

theorem transferInstruction_ok {source mint destination owner : PublicKey} {amount decimals : Number}
    {ix : TransferChecked}
    (h : transferInstruction source mint destination owner amount decimals = .ok ix) :
    amount = some (ix.amount : ℚ) ∧
      ix = ⟨source, mint, destination, owner, ix.amount, decimals⟩ := by
  unfold transferInstruction at h
  split at h
  next => cases h
  next q =>
    split at h
    next hden =>
      cases h
      exact ⟨congrArg some (Rat.den_eq_one_iff q |>.mp hden).symm, rfl⟩
    next => cases h

/-- A transaction that transfers exactly an amount. -/
def Transfers (source mint destination : PublicKey) (fromKp : Keypair) (amount decimals : Number)
    (tx : SignedTx) : Prop :=
  ∃ (n : ℤ) (blockhash : String), amount = some (n : ℚ) ∧
    tx = transferTx ⟨source, mint, destination, fromKp.publicKey, n, decimals⟩ fromKp blockhash

theorem signTransfer_transfers {source mint destination : PublicKey} {fromKp : Keypair}
    {amount decimals : Number} {tx : SignedTx} {s s' : St × τ}
    (h : (signTransfer source mint destination fromKp amount decimals).run (alone p strat) s =
      (.ok tx, s')) : Transfers source mint destination fromKp amount decimals tx := by
  cases hix : transferInstruction source mint destination fromKp.publicKey amount decimals with
  | error e =>
      simp only [signTransfer, hix] at h
      cases h
  | ok ix =>
      obtain ⟨hamount, heq⟩ := transferInstruction_ok hix
      have hrun : (signTransfer source mint destination fromKp amount decimals).run
          (alone p strat) s = ((attempt (ask .getLatestBlockhash)).bind fun blockhash =>
            .ret (transferTx ix fromKp blockhash)).run (alone p strat) s := by
        simp only [signTransfer, hix]
        rfl
      rw [hrun, Prog.run_bind] at h
      split at h
      next blockhash s₁ _ =>
        cases h
        exact ⟨ix.amount, blockhash, hamount, by rw [← heq]⟩
      next => cases h

theorem pays_transfer (env : Env) (mint : PublicKey) (fromKp : Keypair) (dest : PublicKey)
    (lamports : Number) :
    Pays p strat (fun tx => ∃ source decimals, env.ata mint fromKp.publicKey = .ok source ∧
        Transfers source mint dest fromKp lamports decimals tx)
      (transfer env mint fromKp dest lamports) := by
  refine (quiet_ofExcept _).pays_bind fun source _ _ hsource => ?_
  refine (quiet_await (quiet_decimalsOf mint)).pays_bind fun decimals _ _ _ => ?_
  refine (quiet_signTransfer ..).pays_bind fun tx _ _ htx => ?_
  have hloop := ((pays_submitLoop p strat tx .defaults).rpcFailed env
    [("event", .str "transfer_failure"), ("from", .str fromKp.address),
      ("to", .str dest.toBase58)]).await
  refine (hloop.andThen fun _ s => ⟨(), s, rfl, rfl⟩).mono ?_
  rintro _ rfl
  exact ⟨source, decimals, run_ofExcept_ok hsource, signTransfer_transfers htx⟩

theorem pays_transferToken (env : Env) (mint : PublicKey) (fromKp : Keypair)
    (toPubkey : PublicKey) (amount : Number) :
    Pays p strat (fun tx => ∃ source destination decimals,
        env.ata mint fromKp.publicKey = .ok source ∧ env.ata mint toPubkey = .ok destination ∧
        Transfers source mint destination fromKp (rawAmount amount decimals) decimals tx)
      (transferToken env mint fromKp toPubkey amount) := by
  refine (quiet_ofExcept _).pays_bind fun source _ _ hsource => ?_
  refine (quiet_ofExcept _).pays_bind fun destination _ _ hdest => ?_
  refine (quiet_await (quiet_getDecimals env mint)).pays_bind fun decimals _ _ _ => ?_
  refine (quiet_signTransfer ..).pays_bind fun tx _ _ htx => ?_
  refine (pays_submitLoop p strat tx .defaults).await.mono ?_
  rintro _ rfl
  exact ⟨source, destination, decimals, run_ofExcept_ok hsource, run_ofExcept_ok hdest,
    signTransfer_transfers htx⟩

/-! ## The fuel split -/

end

/-- The raw amount a transaction moves. -/
def SignedTx.amount (tx : SignedTx) : ℤ :=
  match tx.body with
  | .transfer ix _ _ => ix.amount
  | .wire _ => 0

/-- The raw amount the chain moves. -/
def Ledger.moved (l : Ledger) : ℤ := (l.executed.map SignedTx.amount).sum

/-- What is moved is no more than what the submitted transactions amount to, each taken once. -/
theorem moved_le {l : Ledger} {txs : List SignedTx} (h : ∀ sub ∈ l, sub.tx ∈ txs)
    (hpos : ∀ tx ∈ txs, 0 ≤ tx.amount) : l.moved ≤ (txs.map SignedTx.amount).sum := by
  have hsub : l.executed ⊆ txs := by
    intro tx htx
    obtain ⟨sub, hmem, rfl⟩ := mem_executed htx
    exact h sub hmem
  obtain ⟨l', hperm, hl'⟩ := (List.nodup_dedup _).subperm hsub
  have hsum : l.moved = (l'.map SignedTx.amount).sum := ((hperm.map _).sum_eq).symm
  rw [hsum]
  refine (hl'.map _).sum_le_sum fun n hn => ?_
  obtain ⟨tx, htx, rfl⟩ := List.mem_map.mp hn
  exact hpos tx htx

section

variable {τ : Type} {p : Pid} {strat : (c : Cmd) → τ → c.Ans × τ}

variable (p strat) in
/-- The transactions of a `transfer` are none, or one that moves the amount. -/
theorem transfer_txs (env : Env) (mint : PublicKey) (fromKp : Keypair) (dest : PublicKey)
    (lamports : Number) (s : St × τ) : ∃ subs txs,
      ((Nexus.await (transfer env mint fromKp dest lamports)).run (alone p strat) s).2.1.chain =
        s.1.chain ++ subs ∧
      (∀ sub ∈ subs, sub.tx ∈ txs) ∧
      (txs = [] ∨ ∃ tx, txs = [tx] ∧ lamports = some (tx.amount : ℚ)) := by
  obtain ⟨subs, hs, htx, -⟩ := (pays_transfer env mint fromKp dest lamports).await s
  rcases htx with rfl | ⟨tx, ⟨_, _, _, n, blockhash, hn, rfl⟩, htx⟩
  · exact ⟨[], [], hs, by simp, .inl rfl⟩
  · exact ⟨subs, [_], hs, fun sub hsub => List.mem_singleton.mpr (htx sub hsub),
      .inr ⟨_, rfl, hn⟩⟩

/-- The two shares are not negative and add up. -/
theorem shares {x pct : ℚ} (hx : 0 ≤ x) (h0 : 0 ≤ pct) (h1 : pct ≤ 1) :
    ∃ burn : ℤ, 0 ≤ burn ∧ (burn : ℚ) ≤ x ∧
      burnShare (some x) (some pct) = some (burn : ℚ) ∧
      devShare (some x) (some pct) = some (x - burn) := by
  have hle : (((x * pct).floor : ℤ) : ℚ) ≤ x * pct := Rat.floor_le _
  have hmul : x * pct ≤ x := mul_le_of_le_one_right hx h1
  refine ⟨(x * pct).floor, ?_, hle.trans hmul, rfl, rfl⟩
  exact Rat.le_floor_iff.mpr (by simpa using mul_nonneg hx h0)

/-- The transactions of a transfer of a share that is not negative. -/
theorem share_txs {txs : List SignedTx} {share : ℚ} (hs : 0 ≤ share)
    (h : txs = [] ∨ ∃ tx, txs = [tx] ∧ some share = some (tx.amount : ℚ)) :
    (∀ tx ∈ txs, 0 ≤ tx.amount) ∧ (((txs.map SignedTx.amount).sum : ℤ) : ℚ) ≤ share := by
  rcases h with rfl | ⟨tx, rfl, htx⟩
  · exact ⟨by simp, by simpa using hs⟩
  · have ha : (tx.amount : ℚ) = share := (Option.some.inj htx).symm
    refine ⟨?_, by simp [ha]⟩
    intro tx' htx'
    rw [List.mem_singleton.mp htx']
    exact_mod_cast ha ▸ hs

/-- The two transfers together move no more than the amount that is split. -/
theorem burnAndDev_moved (env : Env) (fromKp : Keypair) {x pct : ℚ} (hx : 0 ≤ x) (h0 : 0 ≤ pct)
    (h1 : pct ≤ 1) (s : St × τ) : ∃ subs : Ledger,
      ((burnAndDev env fromKp (some x) (some pct)).run (alone p strat) s).2.1.chain =
        s.1.chain ++ subs ∧ (subs.moved : ℚ) ≤ x := by
  obtain ⟨burn, hburn, hle, hb, hd⟩ := shares hx h0 h1
  obtain ⟨subs₁, txs₁, hs₁, hmem₁, htxs₁⟩ := transfer_txs p strat env env.nxrMint
    fromKp burnWallet (burnShare (some x) (some pct)) s
  rw [hb] at htxs₁
  obtain ⟨hpos₁, hsum₁⟩ := share_txs (by exact_mod_cast hburn) htxs₁
  cases hr : (Nexus.await (transfer env env.nxrMint fromKp burnWallet
      (burnShare (some x) (some pct)))).run (alone p strat) s with
  | mk r s' =>
      rw [hr] at hs₁
      cases r with
      | error e =>
          refine ⟨subs₁, ?_, ?_⟩
          · have hrun : (burnAndDev env fromKp (some x) (some pct)).run (alone p strat) s = _ :=
              Prog.run_bind_error hr
            rw [hrun]
            exact hs₁
          · have hm := moved_le hmem₁ hpos₁
            exact (by exact_mod_cast hm : (subs₁.moved : ℚ) ≤ _).trans (hsum₁.trans hle)
      | ok u =>
          obtain ⟨subs₂, txs₂, hs₂, hmem₂, htxs₂⟩ := transfer_txs p strat env
            env.nxrMint fromKp env.devWallet (devShare (some x) (some pct)) s'
          rw [hd] at htxs₂
          obtain ⟨hpos₂, hsum₂⟩ := share_txs (sub_nonneg.mpr hle) htxs₂
          refine ⟨subs₁ ++ subs₂, ?_, ?_⟩
          · have hrun : (burnAndDev env fromKp (some x) (some pct)).run (alone p strat) s = _ :=
              Prog.run_bind_ok hr
            rw [hrun, hs₂, ← List.append_assoc]
            exact congrArg (· ++ subs₂) hs₁
          · have hm : Ledger.moved (subs₁ ++ subs₂) ≤
                ((txs₁ ++ txs₂).map SignedTx.amount).sum := by
              refine moved_le ?_ ?_
              · intro sub hsub
                exact List.mem_append.mpr ((List.mem_append.mp hsub).imp (hmem₁ sub) (hmem₂ sub))
              · intro tx htx
                exact (List.mem_append.mp htx).elim (hpos₁ tx) (hpos₂ tx)
            rw [List.map_append, List.sum_append] at hm
            have hq : ((subs₁ ++ subs₂ : Ledger).moved : ℚ) ≤
                (((txs₁.map SignedTx.amount).sum : ℤ) : ℚ) + ((txs₂.map SignedTx.amount).sum : ℤ) := by
              exact_mod_cast hm
            linarith

/-! ## At most once -/

/-- From `before` to `after` the chain carries out one transaction at most, which satisfies `P`.
If the program returned, a submission was reported confirmed. -/
def SettlesOnce {α : Type} (P : SignedTx → Prop) (before : Ledger) (r : Except Err α)
    (after : Ledger) : Prop :=
  ∃ subs : Ledger, after = before ++ subs ∧ subs.executed.length ≤ 1 ∧
    (∀ tx ∈ subs.executed, P tx) ∧ (r.isOk = true → ∃ sub ∈ subs, sub.report.isOk = true)

theorem PaysOnce.settlesOnce {α : Type} {P : SignedTx → Prop} {l l' : Ledger} {r : Except Err α}
    (h : PaysOnce P l r l') : SettlesOnce P l r l' := by
  obtain ⟨subs, hs, htx, hok⟩ := h
  exact ⟨subs, hs, (executed_le_one htx).1, (executed_le_one htx).2, hok⟩

end

/-- Every submission lands and no confirmation arrives. -/
def Sample.noConfirmation (c : Cmd) (t : Unit) : c.Ans × Unit :=
  match c with
  | .getParsedAccountInfo _ => (.ok (some (some 6)), t)
  | .getLatestBlockhash => (.ok "EkSnNWid2cvwEVnVx9aBqawnmiCNiDgp3gUdkDPTKN1N", t)
  | .sendAndConfirmRawTransaction _ _ =>
      ((.error (.new "Transaction was not confirmed in 30.00 seconds."), true), t)
  | c => (Sample.offline c, t)

/-- What the environment does in one attempt of a swap: the answer of the swap endpoint, whether
the transaction lands, and what the confirmation call reports. -/
structure SwapBehaviour where
  response : Except Err Response
  lands : Bool
  report : Except Err String

/-- The environment that behaves so, attempt by attempt.  Its state counts the requests to the
swap endpoint.  What it answers to anything else is `rest`. -/
def swapStrategy (b : Nat → SwapBehaviour) (rest : (c : Cmd) → c.Ans) :
    (c : Cmd) → Nat → c.Ans × Nat
  | .fetch _, k => ((b k).response, k + 1)
  | .sendAndConfirmRawTransaction _ _, k => (((b (k - 1)).report, (b (k - 1)).lands), k)
  | c, k => (rest c, k)

section

variable (env : Env) (kp : Keypair) (b : Nat → SwapBehaviour)

/-- The transaction of an attempt, if it gets as far as signing one. -/
def attemptTx (k : Nat) : Option SignedTx :=
  match (b k).response with
  | .error _ => none
  | .ok res => (Json.parse res.body).bind fun r => (swapTransaction env kp r).toOption

/-- The attempt puts a swap on the chain. -/
def attemptLands (k : Nat) : Bool := (attemptTx env kp b k).isSome && (b k).lands

/-- The attempt fails, as far as the loop can tell. -/
def attemptFails (k : Nat) : Bool := !(attemptTx env kp b k).isSome || !(b k).report.isOk

/-- The submissions of the loop, with so many attempts left, from attempt number `k` on. -/
def swapSubmissions : Nat → Nat → Ledger
  | 0, _ => []
  | left + 1, k =>
      (match attemptTx env kp b k with
        | some tx => [⟨tx, (b k).lands, (b k).report⟩]
        | none => []) ++
      if attemptFails env kp b k then swapSubmissions left (k + 1) else []

end

section

variable {env : Env} {kp : Keypair} {b : Nat → SwapBehaviour} {rest : (c : Cmd) → c.Ans} {p : Pid}
  {route : Json}

variable (b rest p) in
/-- The answer of the swap endpoint, read as JSON. -/
theorem fetchJson_run (req : Request) (st : St) (k : Nat) :
    ∃ r, (fetchJson req).run (alone p (swapStrategy b rest)) (st, k) = (r, (st, k + 1)) ∧
      r.toOption = match (b k).response with
        | .error _ => none
        | .ok res => Json.parse res.body := by
  refine ⟨_, run_fetchJson p (swapStrategy b rest) req st k, ?_⟩
  simp only [swapStrategy]
  cases (b k).response with
  | error e => rfl
  | ok res => exact toOption_parseJson res.body

variable (env kp b rest p route) in
/-- One attempt of the loop. -/
theorem swapAttempt_run (st : St) (k : Nat) :
    ∃ r st', (await (swapAttempt env route kp)).run (alone p (swapStrategy b rest)) (st, k) =
        (r, (st', k + 1)) ∧
      r.isOk = !attemptFails env kp b k ∧
      st'.chain = st.chain ++
        match attemptTx env kp b k with
        | some tx => [⟨tx, (b k).lands, (b k).report⟩]
        | none => [] := by
  obtain ⟨r, hfetch, hr⟩ := fetchJson_run b rest p (swapRequest route kp) st k
  have htx : attemptTx env kp b k =
      r.toOption.bind fun v => (swapTransaction env kp v).toOption := by
    rw [hr, attemptTx]
    cases (b k).response with
    | error e => rfl
    | ok res => rfl
  cases r with
  | error e =>
      -- the endpoint cannot be reached or its answer cannot be read
      refine ⟨.error e, st, Prog.run_bind_error (Prog.run_bind_error hfetch), ?_, ?_⟩
      · simp [attemptFails, htx, Except.toOption]
        rfl
      · simp [htx, Except.toOption]
  | ok v =>
      cases hv : swapTransaction env kp v with
      | error e =>
          -- there is no transaction to sign in the answer
          refine ⟨.error e, st, Prog.run_bind_error ?_, ?_, ?_⟩
          · refine (Prog.run_bind_ok hfetch).trans ?_
            simp only [hv]
            rfl
          · simp [attemptFails, htx, Except.toOption, hv]
            rfl
          · simp [htx, Except.toOption, hv]
      | ok tx =>
          have hfails : attemptFails env kp b k = !(b k).report.isOk := by
            simp [attemptFails, htx, Except.toOption, hv]
          have hsome : attemptTx env kp b k = some tx := by simp [htx, Except.toOption, hv]
          rw [hfails, hsome, Bool.not_not]
          -- the loop goes by the report
          have hsend : (attempt (ask (.sendAndConfirmRawTransaction tx true))).run
              (alone p (swapStrategy b rest)) (st, k + 1) = ((b k).report,
                ({ st with chain := st.chain ++ [⟨tx, (b k).lands, (b k).report⟩] }, k + 1)) :=
            (Prog.run_bind_ok (run_ask _ _ _)).trans (Prog.run_ofExcept _ _)
          have hswap : (swapAttempt env route kp).run (alone p (swapStrategy b rest)) (st, k) =
              ((attempt (ask (.sendAndConfirmRawTransaction tx true))).bind fun _ => .ret ()).run
                (alone p (swapStrategy b rest)) (st, k + 1) := by
            refine (Prog.run_bind_ok hfetch).trans ?_
            simp only [hv]
            rfl
          cases hrep : (b k).report with
          | ok sig =>
              rw [hrep] at hsend
              exact ⟨.ok (), _, Prog.run_bind_ok (hswap.trans (Prog.run_bind_ok hsend)), rfl, rfl⟩
          | error e =>
              rw [hrep] at hsend
              exact ⟨.error e, _, Prog.run_bind_error (hswap.trans (Prog.run_bind_error hsend)),
                rfl, rfl⟩

theorem await_chain {α τ : Type} {strat : (c : Cmd) → τ → c.Ans × τ} (q : Prog α) (s : St × τ) :
    ((await q).run (alone p strat) s).2.1.chain = (q.run (alone p strat) s).2.1.chain := by
  cases hrun : q.run (alone p strat) s with
  | mk r s' =>
      cases r with
      | ok a =>
          rw [show (await q).run (alone p strat) s = _ from Prog.run_bind_ok hrun]
          rfl
      | error e => rw [show (await q).run (alone p strat) s = _ from Prog.run_bind_error hrun]

/-- A handler that submits nothing leaves the chain as the program left it. -/
theorem await_tryCatch_chain {α τ : Type} {strat : (c : Cmd) → τ → c.Ans × τ} {q : Prog α}
    {h : Err → Prog α} (hq : ∀ e, Quiet (h e)) (s : St × τ) :
    ((await (q.tryCatch h)).run (alone p strat) s).2.1.chain =
      (q.run (alone p strat) s).2.1.chain := by
  rw [await_chain, Prog.run_tryCatch]
  cases q.run (alone p strat) s with
  | mk r s' =>
      cases r with
      | ok a => rfl
      | error e => exact (hq e).chain _ _ s'

theorem attemptLands_iff {k : Nat} : attemptLands env kp b k = true ↔
    ∃ tx, attemptTx env kp b k = some tx ∧ (b k).lands = true := by
  simp [attemptLands, Option.isSome_iff_exists]

/-- The chain after the loop. -/
theorem swapLoop_chain : ∀ (left i : Nat) (last : Option Err) (st : St) (k : Nat),
    ((retryLoop (swapAttempt env route kp) 800 2 left i last).run
      (alone p (swapStrategy b rest)) (st, k)).2.1.chain =
        st.chain ++ swapSubmissions env kp b left k
  | 0, i, last, st, k => by simp [retryLoop, swapSubmissions]
  | left + 1, i, last, st, k => by
      obtain ⟨r, st', hrun, hok, hchain⟩ := swapAttempt_run env kp b rest p route st k
      rw [swapSubmissions, ← List.append_assoc, ← hchain]
      cases r with
      | ok u =>
          have hf : attemptFails env kp b k = false := by simpa [Except.isOk, Except.toBool] using hok
          rw [run_retryLoop_ok hrun, hf]
          simp
      | error e =>
          have hf : attemptFails env kp b k = true := by simpa [Except.isOk, Except.toBool] using hok
          rw [run_retryLoop_error hrun, hf, if_pos rfl]
          exact swapLoop_chain left (i + 1) (some e) _ _

/-- The submissions of a swap. -/
theorem executeSwap_chain (st : St) : ((executeSwap env route kp).run
    (alone p (swapStrategy b rest)) (st, 0)).2.1.chain =
      st.chain ++ if Json.truthy (some route) then swapSubmissions env kp b 3 0 else [] := by
  unfold executeSwap
  split
  next =>
    rw [await_tryCatch_chain fun e => quiet_rpcFailed env _ e]
    exact swapLoop_chain 3 0 none st 0
  next =>
    rw [List.append_nil]
    rfl

/-- What the loop lands: the transactions of the attempts it reaches that land. -/
theorem mem_swapSubmissions {tx : SignedTx} : ∀ {left k : Nat},
    (∃ sub ∈ swapSubmissions env kp b left k, sub.lands = true ∧ sub.tx = tx) ↔
      ∃ j, k ≤ j ∧ j < k + left ∧ (∀ m, k ≤ m → m < j → attemptFails env kp b m = true) ∧
        attemptTx env kp b j = some tx ∧ (b j).lands = true
  | 0, k => by
      simp only [swapSubmissions, List.not_mem_nil, false_and, exists_false, false_iff]
      rintro ⟨j, hk, hj, -⟩
      omega
  | left + 1, k => by
      have hhead : (∃ sub ∈ (match attemptTx env kp b k with
          | some tx => [(⟨tx, (b k).lands, (b k).report⟩ : Submission)]
          | none => []), sub.lands = true ∧ sub.tx = tx) ↔
            attemptTx env kp b k = some tx ∧ (b k).lands = true := by
        cases attemptTx env kp b k with
        | none => simp
        | some tx' => simp [and_comm]
      have htail : (∃ sub ∈ (if attemptFails env kp b k then swapSubmissions env kp b left (k + 1)
          else []), sub.lands = true ∧ sub.tx = tx) ↔ attemptFails env kp b k = true ∧
            ∃ sub ∈ swapSubmissions env kp b left (k + 1), sub.lands = true ∧ sub.tx = tx := by
        cases attemptFails env kp b k with
        | true => simp
        | false => simp
      simp only [swapSubmissions, List.mem_append, or_and_right, exists_or, hhead, htail,
        @mem_swapSubmissions tx left]
      constructor
      · rintro (⟨htx, hl⟩ | ⟨hf, j, hk, hj, hm, htx, hl⟩)
        · exact ⟨k, le_refl k, by omega, fun m h₁ h₂ => by omega, htx, hl⟩
        · refine ⟨j, by omega, by omega, fun m h₁ h₂ => ?_, htx, hl⟩
          rcases Nat.eq_or_lt_of_le h₁ with rfl | h₁
          · exact hf
          · exact hm m h₁ h₂
      · rintro ⟨j, hk, hj, hm, htx, hl⟩
        rcases Nat.eq_or_lt_of_le hk with rfl | hk
        · exact .inl ⟨htx, hl⟩
        · exact .inr ⟨hm k (le_refl k) hk, j, hk, by omega, fun m h₁ h₂ => hm m (by omega) h₂,
            htx, hl⟩

end

/-- A swap is carried out at most once just in case no two attempts land, of those the loop
reaches.  It reaches an attempt when all before it failed.  A reported failure does not keep
a transaction from landing, so nothing in the code excludes the case. -/
theorem executeSwap_once_iff (env : Env) (kp : Keypair) (route : Json) (p : Pid)
    (rest : (c : Cmd) → c.Ans) (b : Nat → SwapBehaviour)
    (hfresh : ∀ i j tx, attemptTx env kp b i = some tx → attemptTx env kp b j = some tx → i = j)
    (st : St) :
    (Ledger.since st.chain
        ((executeSwap env route kp).run (alone p (swapStrategy b rest)) (st, 0)).2.1.chain
      ).executed.length ≤ 1 ↔
      (Json.truthy (some route) = true → ∀ i j, i < j → j < 3 →
        (∀ m, m < j → attemptFails env kp b m = true) →
          ¬(attemptLands env kp b i = true ∧ attemptLands env kp b j = true)) := by
  rw [executeSwap_chain, Ledger.since_append]
  cases Json.truthy (some route) with
  | false => simp [Ledger.executed]
  | true =>
      simp only [if_true, forall_const, executed_le_one_iff, mem_swapSubmissions]
      constructor
      · rintro h i j hij hj hm ⟨hi, hj'⟩
        obtain ⟨tx, htx, hl⟩ := attemptLands_iff.mp hi
        obtain ⟨tx', htx', hl'⟩ := attemptLands_iff.mp hj'
        have heq := h tx ⟨i, by omega, by omega, fun m _ h => hm m (by omega), htx, hl⟩
          tx' ⟨j, by omega, by omega, fun m _ h => hm m h, htx', hl'⟩
        have := hfresh i j tx htx (heq ▸ htx')
        omega
      · rintro h tx ⟨i, -, hi, hmi, htx, hl⟩ tx' ⟨j, -, hj, hmj, htx', hl'⟩
        have hi' := attemptLands_iff.mpr ⟨tx, htx, hl⟩
        have hj' := attemptLands_iff.mpr ⟨tx', htx', hl'⟩
        rcases Nat.lt_trichotomy i j with hij | rfl | hij
        · exact absurd ⟨hi', hj'⟩ (h i j hij (by omega) fun m => hmj m (Nat.zero_le m))
        · exact Option.some.inj (htx.symm.trans htx')
        · exact absurd ⟨hj', hi'⟩ (h j i hij (by omega) fun m => hmi m (Nat.zero_le m))

namespace Sample

/-- A transaction for `alice` with one instruction, not signed yet. -/
def swapWire (blockhash : Bytes) : Bytes :=
  1 :: List.replicate 64 0 ++ [1, 0, 1, 2] ++ alice.publicKey.bytes ++ mint.publicKey.bytes ++
    blockhash ++ [1, 1, 1, 0, 0]

/-- The answer of the swap endpoint. -/
def swapAnswer (blockhash : Bytes) : Json :=
  .obj [("swapTransaction", .str (Base64.encode (swapWire blockhash)))]

/-- The first attempt is reported to have failed.  If `lost` holds it lands all the same.  The
second attempt lands and is confirmed. -/
def twoAttempts (lost : Bool) : Nat → SwapBehaviour
  | 0 => ⟨.ok ⟨true, "OK", (swapAnswer (List.replicate 32 1)).stringify⟩, lost,
      .error (.new "Transaction was not confirmed in 30.00 seconds.")⟩
  | 1 => ⟨.ok ⟨true, "OK", (swapAnswer (List.replicate 32 2)).stringify⟩, true, .ok "5VERv8NMvz"⟩
  | _ => ⟨.error ⟨.typeError, "fetch failed"⟩, false, .error (.new "fetch failed")⟩

/-- A route, as the quote endpoint gives it. -/
def route : Json := .obj [("inAmount", .str "20000000"), ("outAmount", .str "4120000")]

theorem parse_swapAnswer (blockhash : Bytes) :
    Json.parse (swapAnswer blockhash).stringify = some (swapAnswer blockhash) :=
  Json.parse_stringify (by simp [swapAnswer, Json.Plain, Json.PlainMembers])

theorem swapTransaction_swapAnswer {blockhash : Bytes}
    (h : env.readsTransaction (swapWire blockhash) alice = true) :
    swapTransaction env alice (swapAnswer blockhash) =
      .ok ⟨.wire (swapWire blockhash), alice⟩ := by
  have hfield : (swapAnswer blockhash).field "swapTransaction" =
      some (.str (Base64.encode (swapWire blockhash))) := rfl
  simp only [swapAnswer] at hfield ⊢
  simp only [swapTransaction, hfield, bufferFrom, Base64.decode_encode, h, if_true]

theorem attemptTx_answer {b : Nat → SwapBehaviour} {k : Nat} {blockhash : Bytes}
    (hb : (b k).response = .ok ⟨true, "OK", (swapAnswer blockhash).stringify⟩)
    (h : env.readsTransaction (swapWire blockhash) alice = true) :
    attemptTx env alice b k = some ⟨.wire (swapWire blockhash), alice⟩ := by
  simp only [attemptTx, hb, parse_swapAnswer, Option.bind_some, swapTransaction_swapAnswer h]
  rfl

theorem attemptTx_twoAttempts (lost : Bool) :
    attemptTx env alice (twoAttempts lost) 0 =
        some ⟨.wire (swapWire (List.replicate 32 1)), alice⟩ ∧
      attemptTx env alice (twoAttempts lost) 1 =
        some ⟨.wire (swapWire (List.replicate 32 2)), alice⟩ ∧
      ∀ k, attemptTx env alice (twoAttempts lost) (k + 2) = none :=
  ⟨attemptTx_answer rfl (by decide), attemptTx_answer rfl (by decide), fun _ => rfl⟩

/-- The two transactions are different. -/
theorem twoAttempts_fresh (lost : Bool) (i j : Nat) (tx : SignedTx)
    (hi : attemptTx env alice (twoAttempts lost) i = some tx)
    (hj : attemptTx env alice (twoAttempts lost) j = some tx) : i = j := by
  obtain ⟨h0, h1, h2⟩ := attemptTx_twoAttempts lost
  rcases i with _ | _ | i
  · rcases j with _ | _ | j
    · rfl
    · exact absurd (h0.symm.trans (hi.trans (hj.symm.trans h1))) (by decide)
    · exact absurd ((h2 j).symm.trans hj) (by simp)
  · rcases j with _ | _ | j
    · exact absurd (h0.symm.trans (hj.trans (hi.symm.trans h1))) (by decide)
    · rfl
    · exact absurd ((h2 j).symm.trans hj) (by simp)
  · exact absurd ((h2 i).symm.trans hi) (by simp)

end Sample

/-- A confirmation is lost and the swap is made twice. -/
theorem executeSwap_twice :
    (∀ i j tx, attemptTx Sample.env Sample.alice (Sample.twoAttempts true) i = some tx →
      attemptTx Sample.env Sample.alice (Sample.twoAttempts true) j = some tx → i = j) ∧
    ¬ (Ledger.since (St.fresh Sample.env 0).chain
        ((executeSwap Sample.env Sample.route Sample.alice).run
          (alone .worker (swapStrategy (Sample.twoAttempts true) Sample.offline))
          (St.fresh Sample.env 0, 0)).2.1.chain).executed.length ≤ 1 := by
  refine ⟨Sample.twoAttempts_fresh true, ?_⟩
  obtain ⟨h0, h1, h2⟩ := Sample.attemptTx_twoAttempts true
  have htruthy : Json.truthy (some Sample.route) = true := rfl
  rw [executeSwap_chain, Ledger.since_append, if_pos htruthy, executed_le_one_iff]
  intro h
  have hfail : attemptFails Sample.env Sample.alice (Sample.twoAttempts true) 0 = true := by
    simp [attemptFails, Sample.twoAttempts, Except.isOk, Except.toBool]
  have heq := h _ (mem_swapSubmissions.mpr
      ⟨0, le_refl 0, by decide, fun m _ hm => absurd hm (Nat.not_lt_zero m), h0, rfl⟩)
    _ (mem_swapSubmissions.mpr ⟨1, Nat.zero_le 1, by decide, fun m _ hm => ?_, h1, rfl⟩)
  · simp only [SignedTx.mk.injEq, TxBody.wire.injEq, and_true] at heq
    revert heq
    decide
  · rwa [Nat.lt_one_iff.mp hm]

/-- When the first transaction does not land, the second attempt makes the only swap. -/
theorem executeSwap_once_sample :
    (Ledger.since (St.fresh Sample.env 0).chain
      ((executeSwap Sample.env Sample.route Sample.alice).run
        (alone .worker (swapStrategy (Sample.twoAttempts false) Sample.offline))
        (St.fresh Sample.env 0, 0)).2.1.chain).executed.length ≤ 1 := by
  refine (executeSwap_once_iff Sample.env Sample.alice Sample.route .worker Sample.offline
    (Sample.twoAttempts false) (Sample.twoAttempts_fresh false) _).mpr ?_
  rintro - i j hij hj - ⟨hi, hj'⟩
  -- the first transaction does not land, and there is no third
  obtain ⟨tx, -, hl⟩ := attemptLands_iff.mp hi
  obtain ⟨tx', htx', -⟩ := attemptLands_iff.mp hj'
  rcases i with _ | i
  · cases hl
  · obtain rfl : j = 2 := by omega
    exact absurd htx' (by simp [(Sample.attemptTx_twoAttempts false).2.2 0])

end Nexus
