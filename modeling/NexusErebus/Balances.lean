import NexusErebus.Boot
import NexusErebus.TokenViews
import NexusErebus.Trades

/-!
# Amounts of agent tokens

The raw amount of a token account has 64 bits.  `refreshBalances` makes a number of it, which has
53, and `updateBalances` and the trade jobs store that number as a text.  `initializeUsers` reads
the text.

`balances_exact_iff` says which amounts come through: the ones that have no bits beyond the
significand and are written with their own digits.  These are all the amounts below `2 ^ 53`
(`Number.exact_of_lt`) and some of the larger ones.  The first two amounts that are stored alike
are `2 ^ 53` and its successor (`Sample.amounts_stored_alike`).
-/

namespace Nexus

open Async Text

section

variable {τ : Type} (env : Env) (strat : (c : Cmd) → τ → c.Ans × τ)

/-- The RPC node tells the raw amount in the account of agent tokens of an owner. -/
structure TellsAmount (owner : PublicKey) (a : Nat) : Prop where
  balance : ∀ t, ∃ lamports : Nat, (strat (.getBalance owner) t).1 = .ok lamports
  account : ∃ ata, env.ata env.agentMint owner = .ok ata ∧
    ∀ t, ∃ data, (strat (.getAccountInfo ata) t).1 = .ok (some data) ∧
      readBigUInt64LE data = .ok a

/-- The process holds the amount. -/
def HoldsAmount (p : Pid) (h : String) (a : Nat) (st : St) : Prop :=
  ∃ u, (st.mem p).users.lookup (some h) = some u ∧ u.tierBal = some (a : ℚ)

/-- The stored text denotes the amount, and a process that loads the user holds it. -/
structure StoresAmount (h : String) (a : Nat) (st : St) : Prop where
  stored : ∃ text, (userHash st h).lookup "tierBal" = some text ∧ Number.ofText text = some (a : ℚ)
  loaded : ∀ q t kp, bootKey env ((userHash st h).lookup "wallet") = .ok (some kp) →
    ∃ s', (hydrate env h).run (alone q strat) (st, t) = (.ok (), s') ∧ HoldsAmount q h a s'.1

end

section

variable {τ : Type} {env : Env} {strat : (c : Cmd) → τ → c.Ans × τ} {p : Pid} {h : String}
  {a : Nat}

theorem TellsAmount.refreshBalances_returns {owner : PublicKey}
    (hnode : TellsAmount env strat owner a) :
    (refreshBalances env owner).Returns (alone p strat) fun b => b.2 = Number.ofBigInt a := by
  obtain ⟨ata, hata, hinfo⟩ := hnode.account
  have hdata : ∀ t, ∃ data : Option Bytes, (strat (.getAccountInfo ata) t).1 = .ok data ∧
      data.map readBigUInt64LE = (some a).map .ok := fun t => by
    obtain ⟨data, hdata, hread⟩ := hinfo t
    exact ⟨some data, hdata, congrArg some hread⟩
  refine (Nexus.refreshBalances_returns hnode.balance hata hdata).mono fun b hb => ?_
  rwa [Option.getD_some] at hb

/-- What is stored of an amount, and what is loaded again. -/
theorem storesAmount_iff {st : St}
    (hst : (userHash st h).lookup "tierBal" = some (Number.ofBigInt a).shortText)
    (hround : Number.round a = a) :
    StoresAmount env strat h a st ↔ Number.printed a = a := by
  have htext : Number.ofText (Number.ofBigInt a).shortText = some (Number.printed a : ℚ) := by
    rw [Number.ofBigInt_eq, hround, Number.ofText_shortText]
  constructor
  · rintro ⟨⟨text, hstored, hdenotes⟩, -⟩
    obtain rfl : _ = text := Option.some.inj (hst.symm.trans hstored)
    exact_mod_cast Option.some.inj (htext.symm.trans hdenotes)
  · intro hprinted
    refine ⟨⟨_, hst, by rw [htext, hprinted]⟩, fun q t kp hkey => ?_⟩
    obtain ⟨t', hrun⟩ := hydrate_run env q strat h st t
    rw [hkey] at hrun
    refine ⟨_, hrun, bootUser kp (userHash st h), by simp [St.load], ?_⟩
    rw [bootUser, hst, Option.getD_some, Number.ofBigInt_eq, hround,
      Number.held_parseFloat_shortText, hprinted, hround]

theorem lookup_persisted (st : St) (u : User) :
    (userHash (st.persisted (some h) u) h).lookup "tierBal" = some u.tierBal.shortText := by
  simp [userHash, St.persisted, St.onRedis, Redis.exec, Assoc.lookup_setAll, publicFields,
    List.lookup_cons]

/-- A trade job stores the amount. -/
theorem storeBalances_stores {w : Keypair} (hnode : TellsAmount env strat w.publicKey a)
    (s : St × τ) : ∃ s', (storeBalances env w (some h)).run (alone p strat) s = (.ok (), s') ∧
      (userHash s'.1 h).lookup "tierBal" = some (Number.ofBigInt a).shortText := by
  obtain ⟨b, s₁, hb, hamount⟩ := returns_await
    (hnode.refreshBalances_returns (p := p)) s
  have hupsert : ∃ t, (upsertUser env (some h)
      [("sol", some b.1.shortText), ("tierBal", some b.2.shortText)]).run (alone p strat) s₁ =
        (.ok (), ((s₁.1.onRedis (.sadd usersSetKey h)).onRedis (.hset (userKey (some h))
          [("sol", b.1.shortText), ("tierBal", b.2.shortText)]), t)) := by
    rw [upsertUser_public rfl rfl]
    exact ⟨_, rfl⟩
  obtain ⟨t, hupsert⟩ := hupsert
  obtain ⟨t', hawait⟩ := run_await hupsert
  refine ⟨_, (Prog.run_bind_ok hb).trans hawait, ?_⟩
  rw [← hamount]
  simp [userHash, St.onRedis, Redis.exec, Assoc.lookup_setAll]

end

/-- The amounts that are held, stored and loaded again as they are on the chain. -/
theorem balances_exact_iff (env : Env) {τ : Type} (p q : Pid) (strat : (c : Cmd) → τ → c.Ans × τ)
    (h : String) {s s₀ : St × τ} {u : User} {a : Nat}
    (hu : (s.1.mem p).users.lookup (some h) = some u)
    (hnode : TellsAmount env strat u.wallet.publicKey a) :
    ∃ b s₁ s₂, (updateBalances env (some h)).run (alone p strat) s = (.ok b, s₁) ∧
      (storeBalances env u.wallet (some h)).run (alone q strat) s₀ = (.ok (), s₂) ∧
      (HoldsAmount p h a s₁.1 ∧ StoresAmount env strat h a s₁.1 ∧ StoresAmount env strat h a s₂.1 ↔
        Number.Exact a) := by
  have hknown : Knows p (some h) u.wallet s.1 := ⟨u, hu, rfl⟩
  obtain ⟨b, st, u', t, hupdate, hb, hu', -, htier⟩ :=
    hknown.updateBalances_stores hnode.refreshBalances_returns
  obtain ⟨s₂, hstore, hstored₂⟩ := storeBalances_stores hnode s₀
  rw [hb] at htier
  have hstored₁ : (userHash (st.persisted (some h) u') h).lookup "tierBal" =
      some (Number.ofBigInt a).shortText := by rw [lookup_persisted, htier]
  refine ⟨b, _, s₂, hupdate, hstore, ?_⟩
  have hmemory : HoldsAmount p h a (st.persisted (some h) u') ↔ Number.round a = a := by
    have hlookup : ((st.persisted (some h) u').mem p).users.lookup (some h) = some u' := hu'
    rw [HoldsAmount, hlookup]
    rw [Number.ofBigInt_eq] at htier
    simp [htier]
  rw [hmemory, Number.exact_iff]
  constructor
  · rintro ⟨hround, h₁, -⟩
    exact ⟨hround, by rw [hround]; exact (storesAmount_iff hstored₁ hround).mp h₁⟩
  · rintro ⟨hround, hprinted⟩
    rw [hround] at hprinted
    exact ⟨hround, (storesAmount_iff hstored₁ hround).mpr hprinted,
      (storesAmount_iff hstored₂ hround).mpr hprinted⟩

namespace Sample

/-- A node that tells of one token account with this amount. -/
def treasury (n : Nat) (c : Cmd) (t : Unit) : c.Ans × Unit :=
  match c with
  | .getBalance _ => (.ok 1000000000, t)
  | .getAccountInfo _ =>
      (.ok (some (List.replicate 64 0 ++ (List.range 8).map fun i => UInt8.ofNat (n / 256 ^ i))), t)
  | c => (offline c, t)

theorem treasury_tells {n : Nat} (h : readBigUInt64LE (List.replicate 64 0 ++
    (List.range 8).map fun i => UInt8.ofNat (n / 256 ^ i)) = .ok n) :
    TellsAmount env (treasury n) alice.publicKey n where
  balance _ := ⟨_, rfl⟩
  account := ⟨aliceAta, by decide +kernel, fun _ => ⟨_, rfl, h⟩⟩

/-- The amount is in the account of `alice`, and it is reported and stored as `2 ^ 53`. -/
def StoredAsLimit (a : Nat) : Prop :=
  TellsAmount env (treasury a) alice.publicKey a ∧ ∃ b s',
    (updateBalances env (some "alice")).run (alone .agent (treasury a)) (depositor, ()) =
      (.ok b, s') ∧
    b.2 = some (2 ^ 53) ∧
    (userHash s'.1 "alice").lookup "tierBal" = some (Number.ofBigInt (2 ^ 53)).shortText

theorem storedAsLimit_of_tells {a : Nat}
    (hnode : TellsAmount env (treasury a) alice.publicKey a)
    (hround : Number.ofBigInt a = some (2 ^ 53)) : StoredAsLimit a := by
  have hknown : Knows .agent (some "alice") alice depositor := ⟨_, rfl, rfl⟩
  obtain ⟨b, st, u, t, hrun, hb, -, -, htier⟩ := @Knows.updateBalances_stores env Unit .agent
    (treasury a) (some "alice") alice _ (depositor, ()) hknown hnode.refreshBalances_returns
  refine ⟨hnode, b, _, hrun, hb.trans hround, ?_⟩
  rw [lookup_persisted, htier, hb, hround]
  decide +kernel

/-- Two amounts that are stored alike. -/
theorem amounts_stored_alike : StoredAsLimit (2 ^ 53) ∧ StoredAsLimit (2 ^ 53 + 1) := by
  have h₀ := @treasury_tells (2 ^ 53) (by decide +kernel)
  have h₁ := @treasury_tells (2 ^ 53 + 1) (by decide +kernel)
  exact ⟨storedAsLimit_of_tells h₀ (by decide +kernel),
    storedAsLimit_of_tells h₁ (by decide +kernel)⟩

/-- An amount below `2 ^ 53` comes through. -/
theorem amount_comes_through : TellsAmount env (treasury 1500000000000) alice.publicKey
      1500000000000 ∧
    ∃ b s₁ s₂, (updateBalances env (some "alice")).run (alone .agent (treasury 1500000000000))
        (depositor, ()) = (.ok b, s₁) ∧
      (storeBalances env alice (some "alice")).run (alone .worker (treasury 1500000000000))
        (depositor, ()) = (.ok (), s₂) ∧
      HoldsAmount .agent "alice" 1500000000000 s₁.1 ∧
      StoresAmount env (treasury 1500000000000) "alice" 1500000000000 s₁.1 ∧
      StoresAmount env (treasury 1500000000000) "alice" 1500000000000 s₂.1 := by
  have hnode := @treasury_tells 1500000000000 (by decide +kernel)
  obtain ⟨b, s₁, s₂, hupdate, hstore, hiff⟩ := balances_exact_iff env .agent .worker
    (treasury 1500000000000) "alice" (s := (depositor, ()))
    (u := ⟨alice, some 1, some 0, true, some "med"⟩) rfl hnode
  exact ⟨hnode, b, s₁, s₂, hupdate, hstore, hiff.mpr (Number.exact_of_lt (by norm_num))⟩

end Sample

end Nexus
