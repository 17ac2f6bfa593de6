import NexusErebus.Settlement

/-!
# Two helpers for one transfer

utils-solana.js and utils-token.js each have a function that transfers tokens.  `transfer` takes
the raw amount, `transferToken` the amount in tokens.  Both derive the account of the sender from
the mint and the sender's key.  Only `transferToken` derives the account of the recipient.
`transfer` names the recipient's own key as the destination, which is no token account.

`transfers_never_same` says that the two never build the same instruction, and that the
destination is all they differ in.
-/

namespace Nexus

open Async Text

/-! ## The instruction a helper builds -/

section

variable (env : Env) (mint : PublicKey) (fromKp : Keypair)

/-- What `transfer` does up to its instruction. -/
def buildTransfer (dest : PublicKey) (lamports : Number) : Prog TransferChecked := do
  let srcAta ← .ofExcept (env.ata mint fromKp.publicKey)
  let decimals ← await (decimalsOf mint)
  .ofExcept (transferInstruction srcAta mint dest fromKp.publicKey lamports decimals)

/-- What `transferToken` does up to its instruction. -/
def buildTransferToken (toPubkey : PublicKey) (amount : Number) : Prog TransferChecked := do
  let fromATA ← .ofExcept (env.ata mint fromKp.publicKey)
  let toATA ← .ofExcept (env.ata mint toPubkey)
  let decimals ← await (getDecimals env mint)
  .ofExcept (transferInstruction fromATA mint toATA fromKp.publicKey (rawAmount amount decimals)
    decimals)

/-- Sign a transaction with the instruction. -/
def signInstruction (ix : TransferChecked) : Prog SignedTx := do
  let blockhash ← attempt (ask .getLatestBlockhash)
  return transferTx ix fromKp blockhash

theorem transfer_eq (dest : PublicKey) (lamports : Number) :
    transfer env mint fromKp dest lamports =
      (buildTransfer env mint fromKp dest lamports).bind fun ix =>
        (signInstruction fromKp ix).bind fun tx =>
          (await ((withRetry (submit tx) .defaults).tryCatch
            (rpcFailed env [("event", .str "transfer_failure"),
              ("from", .str fromKp.address), ("to", .str dest.toBase58)]))).bind fun _ => .ret () := by
  simp only [transfer, buildTransfer, signTransfer, signInstruction, Prog.bind_eq, Prog.bind_assoc']
  rfl

theorem transferToken_eq (toPubkey : PublicKey) (amount : Number) :
    transferToken env mint fromKp toPubkey amount =
      (buildTransferToken env mint fromKp toPubkey amount).bind fun ix =>
        (signInstruction fromKp ix).bind fun tx => await (withRetry (submit tx) .defaults) := by
  simp only [transferToken, buildTransferToken, signTransfer, signInstruction, Prog.bind_eq,
    Prog.bind_assoc']

end

/-! ## The decimals of a mint -/

/-- The mint has `d` decimals: the node says so whenever it answers, and no cache says
otherwise. -/
structure HasDecimals {τ : Type} (p : Pid) (strat : (c : Cmd) → τ → c.Ans × τ) (st : St)
    (mint : PublicKey) (d : ℕ) : Prop where
  node : ∀ t info, (strat (.getParsedAccountInfo mint) t).1 = .ok info → info = some (some (d : ℚ))
  memory : ∀ v, (st.mem p).decimals.lookup mint.toBase58 = some v → v = some (d : ℚ)
  cache : ∀ v, (Redis.exec st.clock (.get (decimalsCacheKey mint)) st.redis).1 = some v →
    v ≠ "" → parseInt v = some (d : ℚ)

section

variable {env : Env} {mint : PublicKey} {τ : Type} {p : Pid} {strat : (c : Cmd) → τ → c.Ans × τ}
  {d : ℕ}

theorem cachedDecimals_eq {cached : Option Number} {v : Number}
    (h : cachedDecimals cached = some v) : cached = some v := by
  unfold cachedDecimals at h
  split at h
  · split at h
    · cases h
    · exact h
  · cases h

/-- The node is asked, and it says `d`. -/
theorem parsedDecimals_ok {s s' : St × τ} {v : Number} {f : Number → Prog Number}
    (hnode : ∀ t info, (strat (.getParsedAccountInfo mint) t).1 = .ok info → info = some (some (d : ℚ)))
    (hf : ∀ v w s s', (f v).run (alone p strat) s = (.ok w, s') → w = v)
    (h : ((attempt (ask (.getParsedAccountInfo mint))).bind fun info =>
      (parsedDecimals info).bind f).run (alone p strat) s = (.ok v, s')) : v = some (d : ℚ) := by
  obtain ⟨info, s₁, hinfo, h⟩ := Prog.run_bind_eq_ok h
  have hask := @run_attempt τ p strat _ _ _ _ _ (run_ask (.getParsedAccountInfo mint) s.1 s.2)
  obtain rfl := hnode s.2 info (congrArg Prod.fst (hask.symm.trans hinfo))
  exact hf _ v _ s' h

theorem decimalsOf_ok {s s' : St × τ} {v : Number} (hd : HasDecimals p strat s.1 mint d)
    (h : (decimalsOf mint).run (alone p strat) s = (.ok v, s')) : v = some (d : ℚ) := by
  obtain ⟨cached, s₁, hget, h⟩ := Prog.run_bind_eq_ok h
  have hcached : (s.1.mem p).decimals.lookup mint.toBase58 = cached := by
    cases hget
    rfl
  split at h
  next w hw =>
    cases h
    exact hd.memory _ (hcached.trans (cachedDecimals_eq hw))
  next =>
    refine parsedDecimals_ok hd.node (fun v w s s' hf => ?_) h
    obtain ⟨_, _, -, hret⟩ := Prog.run_bind_eq_ok hf
    cases hret
    rfl

theorem getDecimals_ok {s s' : St × τ} {v : Number} (hd : HasDecimals p strat s.1 mint d)
    (h : (getDecimals env mint).run (alone p strat) s = (.ok v, s')) : v = some (d : ℚ) := by
  obtain ⟨cached, s₁, hget, h⟩ := Prog.run_bind_eq_ok h
  have hcached : (Redis.exec s.1.clock (.get (decimalsCacheKey mint)) s.1.redis).1 = cached := by
    cases hget
    rfl
  split at h
  next hne =>
    cases h
    cases cached with
    | none => exact absurd rfl hne
    | some w => exact hd.cache w hcached hne
  next =>
    refine parsedDecimals_ok hd.node (fun v w s s' hf => ?_) h
    obtain ⟨_, _, -, hret⟩ := Prog.run_bind_eq_ok hf
    cases hret
    rfl

/-- Cached decimals are used. -/
theorem getDecimals_cached {st : St} {t : τ} {v : String}
    (hv : (Redis.exec st.clock (.get (decimalsCacheKey mint)) st.redis).1 = some v)
    (hne : v ≠ "") : ∃ s', (getDecimals env mint).run (alone p strat) (st, t) =
      (.ok (parseInt v), s') := by
  have hget := run_redis p strat (.get (decimalsCacheKey mint)) st t
  rw [hv] at hget
  have hrun : (getDecimals env mint).run (alone p strat) (st, t) =
      (.ok (parseInt v), (st.onRedis (.get (decimalsCacheKey mint)),
        (strat (.redis (.get (decimalsCacheKey mint))) t).2)) := by
    refine (Prog.run_bind_ok hget).trans ?_
    rw [if_pos (by simpa using hne)]
    rfl
  exact ⟨_, hrun⟩

/-- With the accounts and the decimals at hand `transferToken` builds its instruction. -/
theorem buildTransferToken_run {fromKp : Keypair} {toPubkey source destination : PublicKey}
    {amount decimals : Number} {n : ℤ} {s s' : St × τ}
    (hsource : env.ata mint fromKp.publicKey = .ok source)
    (hdest : env.ata mint toPubkey = .ok destination)
    (hdecimals : (getDecimals env mint).run (alone p strat) s = (.ok decimals, s'))
    (hraw : rawAmount amount decimals = some (n : ℚ)) :
    ((buildTransferToken env mint fromKp toPubkey amount).run (alone p strat) s).1 =
      .ok ⟨source, mint, destination, fromKp.publicKey, n, decimals⟩ := by
  obtain ⟨t, hawait⟩ := run_await hdecimals
  have hix : transferInstruction source mint destination fromKp.publicKey (rawAmount amount decimals)
      decimals = .ok ⟨source, mint, destination, fromKp.publicKey, n, decimals⟩ := by
    simp [transferInstruction, hraw]
  have hrun : (buildTransferToken env mint fromKp toPubkey amount).run (alone p strat) s =
      (.ok ⟨source, mint, destination, fromKp.publicKey, n, decimals⟩, (s'.1, t)) := by
    rw [buildTransferToken, hsource, hdest]
    refine (Prog.run_bind_ok hawait).trans ?_
    rw [hix]
    exact Prog.run_ofExcept _ _
  rw [hrun]

/-- Scaling down and up again gives the raw amount back. -/
theorem rawAmount_div (r d : ℕ) : rawAmount (some ((r : ℚ) / 10 ^ d)) (some (d : ℚ)) = some (r : ℚ) := by
  have hpow : Number.pow10 (d : ℤ) = 10 ^ d := if_neg (not_lt.mpr (Int.natCast_nonneg d))
  have hscale : (r : ℚ) / 10 ^ d * 10 ^ d = r := div_mul_cancel₀ _ (by positivity)
  simp only [rawAmount, Number.mul, Number.floor, Option.map_some, Number.floor_natCast, hpow,
    hscale]
  rfl

/-- The instruction of `transfer`. -/
theorem buildTransfer_ok {fromKp : Keypair} {dest : PublicKey} {lamports : Number} {s s' : St × τ}
    {ix : TransferChecked} (hd : HasDecimals p strat s.1 mint d)
    (h : (buildTransfer env mint fromKp dest lamports).run (alone p strat) s = (.ok ix, s')) :
    ∃ source, env.ata mint fromKp.publicKey = .ok source ∧
      lamports = some (ix.amount : ℚ) ∧
      ix = ⟨source, mint, dest, fromKp.publicKey, ix.amount, some (d : ℚ)⟩ := by
  obtain ⟨source, s₁, hsource, h⟩ := Prog.run_bind_eq_ok h
  obtain ⟨v, s₂, hv, h⟩ := Prog.run_bind_eq_ok h
  rw [Prog.run_ofExcept] at hsource h
  obtain ⟨hata, rfl⟩ := Prod.mk.inj hsource
  obtain ⟨s₃, hv⟩ := run_await_ok hv
  obtain rfl := decimalsOf_ok hd hv
  obtain ⟨hamount, hix⟩ := transferInstruction_ok (Prod.mk.inj h).1
  exact ⟨source, hata, hamount, hix⟩

/-- The instruction of `transferToken`. -/
theorem buildTransferToken_ok {fromKp : Keypair} {toPubkey : PublicKey} {amount : Number}
    {s s' : St × τ} {ix : TransferChecked} (hd : HasDecimals p strat s.1 mint d)
    (h : (buildTransferToken env mint fromKp toPubkey amount).run (alone p strat) s =
      (.ok ix, s')) :
    ∃ source destination, env.ata mint fromKp.publicKey = .ok source ∧
      env.ata mint toPubkey = .ok destination ∧
      rawAmount amount (some (d : ℚ)) = some (ix.amount : ℚ) ∧
      ix = ⟨source, mint, destination, fromKp.publicKey, ix.amount, some (d : ℚ)⟩ := by
  obtain ⟨source, s₁, hsource, h⟩ := Prog.run_bind_eq_ok h
  obtain ⟨destination, s₂, hdest, h⟩ := Prog.run_bind_eq_ok h
  obtain ⟨v, s₃, hv, h⟩ := Prog.run_bind_eq_ok h
  rw [Prog.run_ofExcept] at hsource hdest h
  obtain ⟨hata, rfl⟩ := Prod.mk.inj hsource
  obtain ⟨hata', rfl⟩ := Prod.mk.inj hdest
  obtain ⟨s₄, hv⟩ := run_await_ok hv
  obtain rfl := getDecimals_ok hd hv
  obtain ⟨hamount, hix⟩ := transferInstruction_ok (Prod.mk.inj h).1
  exact ⟨source, destination, hata, hata', hamount, hix⟩

end

/-- The instructions agree in everything but the destination. -/
def TransferChecked.AgreesElsewhere (ix ix' : TransferChecked) : Prop :=
  { ix with destination := ix'.destination } = ix'

/-- `transfer` of a raw amount and `transferToken` of the same amount in tokens never build the
same instruction.  When both build one, `transfer` sends to the recipient's own key and
`transferToken` to the recipient's token account, and the rest is the same. -/
theorem transfers_never_same (env : Env)
    (hata : ∀ mint owner account, env.ata mint owner = .ok account → account ≠ owner)
    (mint : PublicKey) (fromKp : Keypair) (toPubkey : PublicKey) (r d : ℕ) {τ : Type} (p : Pid)
    (strat : (c : Cmd) → τ → c.Ans × τ) (s : St × τ) (hd : HasDecimals p strat s.1 mint d) :
    let built := ((buildTransfer env mint fromKp toPubkey (some (r : ℚ))).run (alone p strat) s).1
    let built' := ((buildTransferToken env mint fromKp toPubkey (some ((r : ℚ) / 10 ^ d))).run
      (alone p strat) s).1
    (¬ ∃ ix, built = .ok ix ∧ built' = .ok ix) ∧
      ∀ ix ix', built = .ok ix → built' = .ok ix' →
        ix.destination = toPubkey ∧ env.ata mint toPubkey = .ok ix'.destination ∧
          ix.AgreesElsewhere ix' := by
  intro built built'
  have hboth : ∀ ix ix', built = .ok ix → built' = .ok ix' →
      ix.destination = toPubkey ∧ env.ata mint toPubkey = .ok ix'.destination ∧
        ix.AgreesElsewhere ix' := by
    intro ix ix' hix hix'
    obtain ⟨source, hsource, hamount, hix⟩ := buildTransfer_ok hd (Prod.ext hix rfl)
    obtain ⟨source', dest, hsource', hdest, hamount', hix'⟩ :=
      buildTransferToken_ok hd (Prod.ext hix' rfl)
    obtain rfl := Except.ok.inj (hsource.symm.trans hsource')
    rw [rawAmount_div] at hamount'
    have hsame : ix.amount = ix'.amount := by
      exact_mod_cast Option.some.inj (hamount.symm.trans hamount')
    rw [hix, hix']
    refine ⟨rfl, hdest, ?_⟩
    rw [TransferChecked.AgreesElsewhere, hsame]
  refine ⟨?_, hboth⟩
  rintro ⟨ix, hix, hix'⟩
  obtain ⟨hdest, hata', -⟩ := hboth ix ix hix hix'
  exact hata mint toPubkey ix.destination hata' hdest

namespace Sample

/-- The decimals of the mint are in the cache. -/
def measured : St :=
  { St.fresh env 0 with
    redis := (Redis.exec 0 (.setex (decimalsCacheKey nxrMint) decimalsTtl "6") .empty).2 }

theorem measured_cache :
    (Redis.exec measured.clock (.get (decimalsCacheKey nxrMint)) measured.redis).1 = some "6" := by
  simp [Redis.exec, Redis.Store.string, measured, St.fresh, Redis.past, decimalsTtl]

theorem measured_hasDecimals : HasDecimals .worker noConfirmation measured nxrMint 6 where
  node t info h := by cases h; rfl
  memory v h := by cases h
  cache v h hne := by
    cases measured_cache.symm.trans h
    decide +kernel

theorem ata_ne_owner (mint owner account : PublicKey) (h : env.ata mint owner = .ok account) :
    account ≠ owner := by
  have hall : ∀ kv ∈ tokenAccounts, kv.2 ≠ kv.1.2 := by decide
  unfold Env.ata at h
  split at h
  next account' hlookup =>
    cases h
    obtain ⟨l₁, l₂, heq, -⟩ := List.lookup_eq_some_iff.mp hlookup
    exact hall ((mint, owner), account) (heq ▸ List.mem_append_right _ (List.mem_cons_self ..))
  next => cases h

/-- The developers' share goes to their own key or to their token account. -/
theorem transfers_differ : ∃ ix ix',
    ((buildTransfer env nxrMint alice bob.publicKey (some 2472000)).run
      (alone .worker noConfirmation) (measured, ())).1 = .ok ix ∧
    ((buildTransferToken env nxrMint alice bob.publicKey (some (2472000 / 10 ^ 6))).run
      (alone .worker noConfirmation) (measured, ())).1 = .ok ix' ∧
    ix.destination = bob.publicKey ∧ ix'.destination ≠ bob.publicKey := by
  obtain ⟨ix, hix⟩ : ∃ ix, ((buildTransfer env nxrMint alice bob.publicKey (some 2472000)).run
      (alone .worker noConfirmation) (measured, ())).1 = .ok ix := ⟨_, rfl⟩
  obtain ⟨s', hdecimals⟩ := @getDecimals_cached env nxrMint Unit .worker noConfirmation measured ()
    "6" measured_cache (by decide)
  have hsix : parseInt "6" = some ((6 : ℕ) : ℚ) := by decide +kernel
  rw [hsix] at hdecimals
  have hix' := @buildTransferToken_run env nxrMint Unit .worker noConfirmation alice bob.publicKey _ _
    (some (2472000 / 10 ^ 6)) _ 2472000 _ _ rfl rfl hdecimals (rawAmount_div 2472000 6)
  obtain ⟨_, -, -, heq⟩ := buildTransfer_ok measured_hasDecimals (Prod.ext hix rfl)
  rw [heq] at hix
  exact ⟨_, _, hix, hix', rfl, ata_ne_owner nxrMint bob.publicKey _ rfl⟩

theorem transfers_never_same_measured : HasDecimals .worker noConfirmation measured nxrMint 6 ∧
    ¬ ∃ ix, ((buildTransfer env nxrMint alice bob.publicKey (some ((2472000 : ℕ) : ℚ))).run
          (alone .worker noConfirmation) (measured, ())).1 = .ok ix ∧
        ((buildTransferToken env nxrMint alice bob.publicKey
          (some (((2472000 : ℕ) : ℚ) / 10 ^ 6))).run
          (alone .worker noConfirmation) (measured, ())).1 = .ok ix :=
  ⟨measured_hasDecimals, (transfers_never_same env ata_ne_owner nxrMint alice bob.publicKey 2472000 6
    .worker noConfirmation (measured, ()) measured_hasDecimals).1⟩

end Sample

end Nexus
