import NexusErebus.Portfolios

/-!
# Two views of the agent token

The balance of agent tokens and the portfolio come from different queries.  `refreshBalances`
derives the address of the user's account under Token-2022 and reads the account that is there.
`getPortfolio` asks for the user's accounts under the classic token program, and for no others.

Here the token accounts are those of a chain, and the RPC node answers from it (`Shows`).
`views_agree_iff` says that the portfolio accounts for the reported balance just when the user's
classic accounts hold at least as much.  A mint belongs to one program, so a balance under
Token-2022 is never in the portfolio (`Sample.views_disagree`).
-/

namespace Nexus

open Async Text

/-! ## The chain -/

structure TokenAccount where
  address : PublicKey
  owner : PublicKey
  mint : PublicKey
  program : TokenProgram
  /-- The raw amount. -/
  amount : Nat
  deriving DecidableEq

/-- The token accounts of an owner under a program. -/
def accountsOf (chain : List TokenAccount) (owner : PublicKey) (program : TokenProgram) :
    List TokenAccount :=
  chain.filter fun a => a.owner = owner ∧ a.program = program

/-- The raw amount at an address. -/
def amountAt (chain : List TokenAccount) (address : PublicKey) : Nat :=
  ((chain.find? fun a => a.address = address).map TokenAccount.amount).getD 0

/-- The raw amount of a mint in some accounts. -/
def rawAmountOf (accounts : List TokenAccount) (mint : PublicKey) : Nat :=
  ((accounts.filter fun a => a.mint = mint).map TokenAccount.amount).sum

/-- The mint of an account, and its amount as a decimal text. -/
def TokenAccount.Row (decimals : PublicKey → Nat) (a : TokenAccount) (row : String × String) :
    Prop :=
  row.1 = a.mint.toBase58 ∧
    Number.parseFloat row.2 = some ((a.amount : ℚ) / 10 ^ decimals a.mint)

/-- The RPC node answers from the chain, and the services for prices do not answer `null`. -/
structure Shows {τ : Type} (chain : List TokenAccount) (decimals : PublicKey → Nat)
    (strat : (c : Cmd) → τ → c.Ans × τ) : Prop where
  balance : ∀ pk t, ∃ lamports : Nat, (strat (.getBalance pk) t).1 = .ok lamports
  /-- `getAccountInfo` returns the data of the account at an address, if there is one. -/
  info : ∀ pk t, ∃ data : Option Bytes, (strat (.getAccountInfo pk) t).1 = .ok data ∧
    data.map readBigUInt64LE = (chain.find? fun a => a.address = pk).map fun a => .ok a.amount
  /-- `getParsedTokenAccountsByOwner` returns the accounts of the owner under the program. -/
  parsed : ∀ owner program, ∃ rows,
    (∀ t, (strat (.getParsedTokenAccountsByOwner owner program) t).1 = .ok rows) ∧
      List.Forall₂ (TokenAccount.Row decimals) (accountsOf chain owner program) rows
  prices : ∀ r t res, (strat (.fetch r) t).1 = .ok res → Json.parse res.body ≠ some .null

/-! ## What each view says -/

/-- The rows of a mint add up to its raw amount. -/
theorem held_rows {decimals : PublicKey → Nat} {accounts : List TokenAccount}
    {rows : List (String × String)} (h : List.Forall₂ (TokenAccount.Row decimals) accounts rows)
    (mint : PublicKey) :
    held rows mint.toBase58 = (rawAmountOf accounts mint : ℚ) / 10 ^ decimals mint := by
  induction h with
  | nil => simp [held, rawAmountOf]
  | @cons a row accounts rows hrow _ ih =>
      rw [held_cons, ih, hrow.1, hrow.2]
      by_cases hm : a.mint = mint
      · subst hm
        simp [rawAmountOf, add_div]
      · have hne : a.mint.toBase58 ≠ mint.toBase58 := fun he => hm (PublicKey.toBase58_injective he)
        simp [rawAmountOf, hm, hne]

theorem nonneg_rows {decimals : PublicKey → Nat} {accounts : List TokenAccount}
    {rows : List (String × String)} (h : List.Forall₂ (TokenAccount.Row decimals) accounts rows) :
    ∀ row ∈ rows, (Number.parseFloat row.2).Nonneg := by
  induction h with
  | nil => simp
  | cons hrow _ ih =>
      refine List.forall_mem_cons.mpr ⟨?_, ih⟩
      rw [hrow.2]
      exact .some (div_nonneg (Nat.cast_nonneg _) (by positivity))

section

variable {env : Env} {τ : Type} {p : Pid} {strat : (c : Cmd) → τ → c.Ans × τ}
  {chain : List TokenAccount} {decimals : PublicKey → Nat}

/-- The reported balance is the amount at the derived address. -/
theorem Shows.refreshBalances_returns (hs : Shows chain decimals strat) {owner ata : PublicKey}
    (hata : env.ata env.agentMint owner = .ok ata) :
    (refreshBalances env owner).Returns (alone p strat) fun b =>
      b.2 = Number.ofBigInt (amountAt chain ata) := by
  refine Nexus.refreshBalances_returns (hs.balance owner) hata fun t => ?_
  rw [Option.map_map]
  exact hs.info ata t

theorem fetchSolPrice_returns : (fetchSolPrice env).Returns (alone p strat) fun _ => True := by
  have hjupiter : (fetchSolPrice.jupiter env).Returns (alone p strat) fun _ => True := by
    refine Prog.returns_seq (Prog.returns_outcome fun _ _ _ _ => trivial) fun route => ?_
    cases route with
    | error e => exact Prog.returns_ret trivial
    | ok route =>
        dsimp only
        split
        · exact Prog.returns_ret trivial
        · exact Prog.returns_ret trivial
  have hgecko : (fetchSolPrice.coinGecko env).Returns (alone p strat) fun _ => True := by
    refine Prog.returns_seq (Prog.returns_outcome fun _ _ _ _ => trivial) fun gecko => ?_
    split
    · split
      · exact Prog.returns_ret trivial
      · exact hjupiter
    · exact hjupiter
  refine Prog.returns_seq (Prog.returns_outcome fun _ _ _ _ => trivial) fun binance => ?_
  split
  · split
    · exact Prog.returns_ret trivial
    · exact hgecko
  · exact hgecko

theorem Shows.fetchTokenPrices_returns (hs : Shows chain decimals strat) (mints : List String) :
    (fetchTokenPrices mints).Returns (alone p strat) (· ≠ .null) := by
  refine Nexus.fetchTokenPrices_returns nofun (fun r s v s' hrun => ?_) mints
  rw [run_fetchJson] at hrun
  cases hres : (strat (.fetch r) s.2).1 with
  | error e =>
      rw [hres] at hrun
      cases hrun
  | ok res =>
      rw [hres] at hrun
      have hparse : parseJson (some res.body) = .ok v := congrArg Prod.fst hrun
      rintro rfl
      refine hs.prices r s.2 res hres ?_
      rw [← toOption_parseJson, hparse]
      rfl

end

/-! ## Agreement -/

/-- The portfolio lists a mint with at least this amount. -/
def Portfolio.Lists (P : Portfolio) (mint : PublicKey) (x : ℚ) : Prop :=
  ∃ t ∈ P.tokens, t.mint = mint.toBase58 ∧ ∃ q, t.amount = some q ∧ x ≤ q

/-- A positive balance of agent tokens is in the portfolio. -/
def ViewsAgree (env : Env) (decimals : PublicKey → Nat) (b : Number × Number) (P : Portfolio) :
    Prop :=
  ∀ x, b.2 = some x → 0 < x → P.Lists env.agentMint (x / 10 ^ decimals env.agentMint)

theorem portfolioOf_lists_iff {x : Holdings}
    (hamounts : ∀ a ∈ x.accounts, (Number.parseFloat a.2).Nonneg) (mint : PublicKey) {y : ℚ}
    (hy : 0 < y) : (portfolioOf x).Lists mint y ↔ y ≤ held x.accounts mint.toBase58 := by
  constructor
  · rintro ⟨t, ht, hmint, q, hq, hle⟩
    have hamount := portfolioOf_amount hamounts ht
    rw [hq, hmint] at hamount
    exact hle.trans_eq (Option.some.inj hamount)
  · intro hle
    have hlisted := (portfolioOf_listed hamounts mint.toBase58).mpr (hy.trans_le hle)
    obtain ⟨t, ht, hmint⟩ := List.mem_map.mp hlisted
    refine ⟨t, ht, hmint, _, portfolioOf_amount hamounts ht, ?_⟩
    rwa [hmint]

theorem nonneg_ofBigInt (n : Nat) : ∃ q, Number.ofBigInt n = some q ∧ 0 ≤ q :=
  ⟨_, rfl, Nat.cast_nonneg _⟩

/-- What the two functions return for a known user. -/
theorem Shows.views {env : Env} {chain : List TokenAccount} {decimals : PublicKey → Nat} {τ : Type}
    {p : Pid} {strat : (c : Cmd) → τ → c.Ans × τ} (hs : Shows chain decimals strat) {handle : Str}
    {s : St × τ} {w : Keypair} (hknown : Knows p handle w s.1) {ata : PublicKey}
    (hata : env.ata env.agentMint w.publicKey = .ok ata) :
    ∃ b s₁ P s₂, (updateBalances env handle).run (alone p strat) s = (.ok b, s₁) ∧
      (getPortfolio env handle).run (alone p strat) s = (.ok P, s₂) ∧
      b.2 = Number.ofBigInt (amountAt chain ata) ∧
      ∀ x, 0 < x → (P.Lists env.agentMint (x / 10 ^ decimals env.agentMint) ↔
        x ≤ rawAmountOf (accountsOf chain w.publicKey .token) env.agentMint) := by
  have hrefresh := @Shows.refreshBalances_returns env τ p strat chain decimals hs _ _ hata
  obtain ⟨b, s₁, hupdate, hb, -⟩ := hknown.updateBalances_run hrefresh
  obtain ⟨rows, hparsed, hrows⟩ := hs.parsed w.publicKey .token
  obtain ⟨x, s₂, hx, rfl, -, htable⟩ := hknown.gather_run fetchSolPrice_returns
    (hrefresh.mono fun _ _ => trivial) hparsed hs.fetchTokenPrices_returns
  obtain ⟨s₃, hreport⟩ := report_run htable s₂
  have hportfolio : (getPortfolio env handle).run (alone p strat) s =
      (.ok (portfolioOf x), s₃) := by
    rw [getPortfolio_eq]
    exact (Prog.run_bind_ok hx).trans hreport
  refine ⟨b, s₁, portfolioOf x, s₃, hupdate, hportfolio, hb, fun y hy => ?_⟩
  have hten : (0 : ℚ) < 10 ^ decimals env.agentMint := by positivity
  rw [portfolioOf_lists_iff (nonneg_rows hrows) _ (div_pos hy hten), held_rows hrows,
    div_le_div_iff_of_pos_right hten]

namespace Sample

/-- The data of a token account with a small amount. -/
def accountData (a : TokenAccount) : Bytes :=
  List.replicate 64 0 ++ UInt8.ofNat a.amount :: List.replicate 7 0

/-- A node that knows these token accounts, of mints with six decimals. -/
def nodeOf (chain : List TokenAccount) (c : Cmd) (t : Unit) : c.Ans × Unit :=
  match c with
  | .getBalance _ => (.ok 1000000000, t)
  | .getAccountInfo pk => (.ok ((chain.find? fun a => a.address = pk).map accountData), t)
  | .getParsedTokenAccountsByOwner owner program =>
      (.ok ((accountsOf chain owner program).map fun a =>
        (a.mint.toBase58, Number.toFixed 6 (some ((a.amount : ℚ) / 10 ^ 6)))), t)
  | c => (offline c, t)

theorem readBigUInt64LE_accountData {a : TokenAccount} (h : a.amount < 256) :
    readBigUInt64LE (accountData a) = .ok a.amount := by
  simp [readBigUInt64LE, accountData, Nat.mod_eq_of_lt h]

theorem parseFloat_amount (n : Nat) :
    Number.parseFloat (Number.toFixed 6 (some ((n : ℚ) / 10 ^ 6))) = some ((n : ℚ) / 10 ^ 6) := by
  have hunits : Number.units 6 ((n : ℚ) / 10 ^ 6) = n := by
    have hadd := Number.units_add le_rfl 6 n
    rwa [zero_add, show Number.units 6 0 = 0 from rfl, Nat.zero_add] at hadd
  rw [Number.parseFloat_toFixed (by omega) (div_nonneg (Nat.cast_nonneg n) (by norm_num)), hunits]

theorem nodeOf_shows {chain : List TokenAccount} (h : ∀ a ∈ chain, a.amount < 256) :
    Shows chain (fun _ => 6) (nodeOf chain) where
  balance _ _ := ⟨_, rfl⟩
  info pk t := by
    refine ⟨_, rfl, ?_⟩
    cases hfind : chain.find? fun a => a.address = pk with
    | none => rfl
    | some a =>
        exact congrArg some (readBigUInt64LE_accountData (h a (List.mem_of_find?_eq_some hfind)))
  parsed owner program := by
    refine ⟨_, fun _ => rfl, List.forall₂_map_right_iff.mpr (List.forall₂_same.mpr fun a _ => ?_)⟩
    exact ⟨rfl, parseFloat_amount a.amount⟩
  prices _ _ _ hres := by cases hres

/-- The account of agent tokens that is derived for `alice`. -/
def aliceAta : PublicKey :=
  ⟨[177, 90, 220, 82, 210, 99, 63, 149, 233, 86, 109, 236, 209, 65, 220, 191, 212, 210, 108, 245,
    91, 160, 15, 59, 243, 195, 112, 186, 148, 128, 225, 225]⟩

/-- `alice` holds agent tokens under Token-2022. -/
def chain2022 : List TokenAccount :=
  [⟨aliceAta, alice.publicKey, mint.publicKey, .token2022, 200⟩]

-- the account is not among the classic ones
example : amountAt chain2022 aliceAta = 200 ∧ accountsOf chain2022 alice.publicKey .token = [] := by
  decide +kernel

/-- The same account, and a classic account with more. -/
def chainBoth : List TokenAccount :=
  ⟨bob.publicKey, alice.publicKey, mint.publicKey, .token, 250⟩ :: chain2022

end Sample

end Nexus
