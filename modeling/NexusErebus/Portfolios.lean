import NexusErebus.Deposits
import NexusErebus.Footprint
import NexusErebus.Text.Fixed

/-!
# Portfolios

A portfolio shows the SOL balance with its value, a line for each mint, and a total.  A user can
have several token accounts of one mint, and their amounts are added up.  The SOL value is rounded
for its line, and so is the value of each token.  The total adds the rounded token values to the
SOL value before that was rounded, and is rounded at the end.

`getPortfolio` asks for what it needs (`gather`) and then makes the portfolio out of it
(`report`).  `portfolio_adds_up` says that each mint with a positive amount is listed once, with
the sum of its accounts, and that the lines that are shown add up to the total that is shown.
-/

namespace Nexus

open Async Text

/-! ## The two halves of `getPortfolio` -/

/-- What a portfolio is made of. -/
structure Holdings where
  sol : Number
  solPrice : Option Price
  /-- The mint and the amount of each token account. -/
  accounts : List (String × String)
  prices : Json

namespace Holdings

def balances (x : Holdings) : List (String × Number) := tokenBalances x.accounts []

def solUsd (x : Holdings) : String :=
  match x.solPrice with
  | some price => (x.sol.mul price.toNum).toFixed 2
  | none => "N/A"

def solValue (x : Holdings) : Number :=
  match x.solPrice with
  | some price => x.sol.mul price.toNum
  | none => some 0

end Holdings

section

variable (env : Env) (handle : Str)

/-- What `getPortfolio` asks for. -/
def gather : Prog Holdings := do
  let wallet ← await (ensure env handle)
  let solPrice ← await (fetchSolPrice env)
  let balances ← await (updateBalances env handle)
  let raw ← attempt (ask (.getParsedTokenAccountsByOwner wallet.publicKey .token))
  let prices ← await (fetchTokenPrices ((tokenBalances raw []).map Prod.fst))
  return ⟨balances.1, solPrice, raw, prices⟩

/-- The portfolio, which is kept for analysis. -/
def report (x : Holdings) : Prog Portfolio := do
  let (tokens, totalUsd) ← tokenLines x.prices x.balances x.solValue
  let ts : Nat ← ask .now
  redis (.xadd (portfolioKey handle)
    [("data", Json.stringify (snapshotJson ts x.sol x.solUsd tokens))])
  return ⟨x.sol, x.solUsd, tokens, totalUsd.toFixed 2⟩

theorem getPortfolio_eq :
    getPortfolio env handle = (gather env handle).bind (report handle) := by
  simp only [gather, Prog.bind_eq, Prog.bind_assoc']
  rfl

end

/-! ## The amounts -/

/-- The amounts of the accounts of a mint, added up. -/
def held (accounts : List (String × String)) (mint : String) : ℚ :=
  ((accounts.filter fun a => a.1 = mint).map fun a => (Number.parseFloat a.2).getD 0).sum

theorem held_cons (a : String × String) (accounts : List (String × String)) (mint : String) :
    held (a :: accounts) mint =
      (if a.1 = mint then (Number.parseFloat a.2).getD 0 else 0) + held accounts mint := by
  by_cases h : a.1 = mint
  · simp [held, h]
  · simp [held, h]

/-- Positive amounts, at most one for each mint. -/
structure Tally (l : List (String × Number)) : Prop where
  nodup : (Assoc.keys l).Nodup
  positive : ∀ kv ∈ l, ∃ q, kv.2 = some q ∧ 0 < q

/-- The amount of a mint. -/
def amountOf (l : List (String × Number)) (mint : String) : ℚ :=
  ((l.lookup mint).getD (some 0)).getD 0

namespace Tally

variable {l : List (String × Number)} (h : Tally l)

include h

theorem lookup (mint : String) :
    (l.lookup mint).getD (some 0) = some (amountOf l mint) ∧ 0 ≤ amountOf l mint := by
  cases hl : l.lookup mint with
  | none => simp [amountOf, hl]
  | some x =>
      obtain ⟨q, hq, hpos⟩ := h.positive _ ((Assoc.lookup_eq_some_iff h.nodup).mp hl)
      obtain rfl : x = some q := hq
      simpa [amountOf, hl] using hpos.le

theorem mem_keys_iff (mint : String) : mint ∈ Assoc.keys l ↔ 0 < amountOf l mint := by
  cases hl : l.lookup mint with
  | none => simp [amountOf, hl, Assoc.lookup_eq_none.mp hl]
  | some x =>
      have hmem := (Assoc.lookup_eq_some_iff h.nodup).mp hl
      obtain ⟨q, hq, hpos⟩ := h.positive _ hmem
      obtain rfl : x = some q := hq
      exact iff_of_true (List.mem_map_of_mem hmem) (by simpa [amountOf, hl] using hpos)

theorem amount_eq {kv : String × Number} (hkv : kv ∈ l) : kv.2 = some (amountOf l kv.1) := by
  have hl : l.lookup kv.1 = some kv.2 := (Assoc.lookup_eq_some_iff h.nodup).mpr hkv
  rw [← (h.lookup kv.1).1, hl]
  rfl

theorem set (mint : String) {q : ℚ} (hq : 0 < q) : Tally (Assoc.set mint (some q) l) where
  nodup := Assoc.nodup_keys_set h.nodup _ _
  positive kv hkv := by
    rcases Assoc.mem_set hkv with rfl | hl
    · exact ⟨q, rfl, hq⟩
    · exact h.positive kv hl

end Tally

theorem amountOf_set (l : List (String × Number)) (mint : String) (q : ℚ) (m : String) :
    amountOf (Assoc.set mint (some q) l) m = if mint = m then q else amountOf l m := by
  rw [amountOf, Assoc.lookup_set]
  split
  · rfl
  · rfl

/-- The loop over the accounts adds to each mint what its accounts hold. -/
theorem tokenBalances_spec : ∀ {accounts : List (String × String)} {l : List (String × Number)},
    (∀ a ∈ accounts, (Number.parseFloat a.2).Nonneg) → Tally l →
      Tally (tokenBalances accounts l) ∧
        ∀ mint, amountOf (tokenBalances accounts l) mint = amountOf l mint + held accounts mint
  | [], l, _, hl => ⟨hl, fun mint => (add_zero _).symm⟩
  | (mint, text) :: accounts, l, hamounts, hl => by
      have hrest : ∀ a ∈ accounts, (Number.parseFloat a.2).Nonneg := fun a ha =>
        hamounts a (List.mem_cons_of_mem _ ha)
      rw [tokenBalances]
      dsimp only
      split
      next hgt =>
        obtain ⟨q, hq, hpos⟩ : ∃ q, Number.parseFloat text = some q ∧ 0 < q := by
          cases hp : Number.parseFloat text with
          | none => simp [hp, Number.gt] at hgt
          | some q => exact ⟨q, rfl, by simpa [hp, Number.gt] using hgt⟩
        obtain ⟨hlookup, hnonneg⟩ := hl.lookup mint
        rw [hq, hlookup, Number.add]
        obtain ⟨htally, ih⟩ :=
          tokenBalances_spec hrest (hl.set mint (add_pos_of_nonneg_of_pos hnonneg hpos))
        refine ⟨htally, fun m => ?_⟩
        rw [ih, amountOf_set, held_cons, hq]
        by_cases hm : mint = m
        · subst hm
          simp only [if_true, Option.getD_some]
          ring
        · simp only [if_neg hm, zero_add]
      next hgt =>
        have hzero : (Number.parseFloat text).getD 0 = 0 := by
          have hnonneg := hamounts _ (List.mem_cons_self ..)
          cases hp : Number.parseFloat text with
          | none => rfl
          | some q =>
              have hle : q ≤ 0 := by simpa [hp, Number.gt] using hgt
              exact le_antisymm hle (hnonneg q hp)
        obtain ⟨htally, ih⟩ := tokenBalances_spec hrest hl
        refine ⟨htally, fun m => ?_⟩
        rw [ih, held_cons, hzero, ite_self, zero_add]

/-! ## The lines -/

/-- The price of a mint in a table. -/
def priceFor (prices : Json) (mint : String) : Option Json :=
  let usd := optProp (prices.field (toLowerCase mint)) "usd"
  if Json.nullish usd then some (.num 0) else usd

/-- The line of a mint. -/
def lineOf (prices : Json) (kv : String × Number) : Token :=
  ⟨kv.1, kv.2, priceFor prices kv.1, (kv.2.mul (Json.toNumber (priceFor prices kv.1))).toFixed 2⟩

/-- The values that are shown. -/
def usdValues (tokens : List Token) : List Number :=
  tokens.map fun t => Number.parseFloat t.usdValue

/-- A property of `null` cannot be read, and of nothing else. -/
theorem prop_some {v : Json} (h : v ≠ .null) (key : String) :
    prop (some v) key = .ret (v.field key) := by
  cases v with
  | null => exact absurd rfl h
  | _ => rfl

theorem tokenLines_eq {prices : Json} (h : prices ≠ .null) :
    ∀ (l : List (String × Number)) (total : Number), tokenLines prices l total =
      .ret (l.map (lineOf prices), (usdValues (l.map (lineOf prices))).foldl Number.add total)
  | [], _ => rfl
  | (mint, amt) :: l, total => by
      rw [tokenLines, prop_some h, Prog.bind_eq]
      dsimp only [Prog.bind]
      rw [tokenLines_eq h l]
      rfl

/-! ## The total -/

/-- The value of the SOL line.  Without a price it shows none. -/
def solLine (x : Holdings) (P : Portfolio) : Number :=
  if x.solPrice.isSome then Number.parseFloat P.solUsd else some 0

/-- The portfolio is a correct account of the holdings. -/
structure AddsUp (x : Holdings) (P : Portfolio) : Prop where
  once : (P.tokens.map Token.mint).Nodup
  listed : ∀ mint, mint ∈ P.tokens.map Token.mint ↔ 0 < held x.accounts mint
  amount : ∀ t ∈ P.tokens, t.amount = some (held x.accounts t.mint)
  total : Number.parseFloat P.totalUsd = (usdValues P.tokens).foldl Number.add (solLine x P)

/-- The portfolio that `report` returns. -/
def portfolioOf (x : Holdings) : Portfolio :=
  let tokens := x.balances.map (lineOf x.prices)
  ⟨x.sol, x.solUsd, tokens, ((usdValues tokens).foldl Number.add x.solValue).toFixed 2⟩

section

variable {env : Env} {τ : Type} {p : Pid} {strat : (c : Cmd) → τ → c.Ans × τ} {handle : Str}

theorem report_run {x : Holdings} (h : x.prices ≠ .null) (s : St × τ) :
    ∃ s', (report handle x).run (alone p strat) s = (.ok (portfolioOf x), s') := by
  rw [report, tokenLines_eq h]
  exact ⟨_, rfl⟩

theorem portfolioOf_tokens (x : Holdings) :
    (portfolioOf x).tokens.map Token.mint = Assoc.keys x.balances := by
  simp only [portfolioOf, List.map_map, Assoc.keys]
  rfl

/-- A table of prices that are not negative. -/
structure PriceTable (prices : Json) : Prop where
  ne_null : prices ≠ .null
  nonneg : ∀ mint, (Json.toNumber (priceFor prices mint)).Nonneg

/-- No price is negative. -/
structure Priced (x : Holdings) : Prop where
  sol : ∀ price, x.solPrice = some price → price.toNum.Nonneg
  tokens : PriceTable x.prices

theorem portfolioOf_total {x : Holdings} (hp : Priced x) (hsol : x.sol.Nonneg)
    (hl : Tally x.balances) : Number.parseFloat (portfolioOf x).totalUsd =
      (usdValues (portfolioOf x).tokens).foldl Number.add (solLine x (portfolioOf x)) := by
  have hwhole : ∀ v ∈ usdValues (portfolioOf x).tokens, Number.Whole 2 v := by
    intro v hv
    simp only [usdValues, portfolioOf, List.mem_map] at hv
    obtain ⟨t, ⟨kv, hkv, rfl⟩, rfl⟩ := hv
    obtain ⟨q, hq, hpos⟩ := hl.positive kv hkv
    refine Number.whole_toFixed (by omega) (Number.Nonneg.mul ?_ (hp.tokens.nonneg _))
    rw [hq]
    exact .some hpos.le
  have hvalue : x.solValue.Nonneg := by
    rw [Holdings.solValue]
    split
    next price hprice => exact hsol.mul (hp.sol price hprice)
    next => exact .some le_rfl
  have hline : Number.parseFloat (x.solValue.toFixed 2) = solLine x (portfolioOf x) := by
    simp only [solLine, portfolioOf, Holdings.solValue, Holdings.solUsd]
    cases x.solPrice with
    | some price => rfl
    | none =>
        refine (Number.parseFloat_toFixed (by omega) le_rfl).trans ?_
        simp [Number.units]
  rw [← hline]
  exact Number.parseFloat_toFixed_foldl (by omega) hvalue hwhole

section

variable {x : Holdings} (hamounts : ∀ a ∈ x.accounts, (Number.parseFloat a.2).Nonneg)

include hamounts

theorem balances_spec :
    Tally x.balances ∧ ∀ mint, amountOf x.balances mint = held x.accounts mint := by
  have hnil : Tally [] := ⟨List.nodup_nil, fun _ h => absurd h List.not_mem_nil⟩
  obtain ⟨hl, hheld⟩ := tokenBalances_spec hamounts hnil
  exact ⟨hl, fun mint => (hheld mint).trans (zero_add _)⟩

theorem portfolioOf_listed (mint : String) :
    mint ∈ (portfolioOf x).tokens.map Token.mint ↔ 0 < held x.accounts mint := by
  obtain ⟨hl, hheld⟩ := balances_spec hamounts
  rw [portfolioOf_tokens, ← hheld]
  exact hl.mem_keys_iff mint

theorem portfolioOf_amount {t : Token} (ht : t ∈ (portfolioOf x).tokens) :
    t.amount = some (held x.accounts t.mint) := by
  obtain ⟨hl, hheld⟩ := balances_spec hamounts
  obtain ⟨kv, hkv, rfl⟩ := List.mem_map.mp ht
  exact (hl.amount_eq hkv).trans (congrArg some (hheld kv.1))

theorem portfolioOf_addsUp (hp : Priced x) (hsol : x.sol.Nonneg) : AddsUp x (portfolioOf x) where
  once := by
    rw [portfolioOf_tokens]
    exact (balances_spec hamounts).1.nodup
  listed := portfolioOf_listed hamounts
  amount _ := portfolioOf_amount hamounts
  total := portfolioOf_total hp hsol (balances_spec hamounts).1

end

/-! ## The SOL balance -/

theorem refreshBalances_sol {owner : PublicKey} {s s' : St × τ} {b : Number × Number}
    (h : (refreshBalances env owner).run (alone p strat) s = (.ok b, s')) : b.1.Nonneg := by
  obtain ⟨lamports, s₁, -, h⟩ := Prog.run_bind_eq_ok h
  obtain ⟨ata, s₂, -, h⟩ := Prog.run_bind_eq_ok h
  obtain ⟨info, s₃, -, h⟩ := Prog.run_bind_eq_ok h
  have hsol : Number.Nonneg (some ((lamports : ℚ) / lamportsPerSol)) :=
    .some (div_nonneg (Nat.cast_nonneg lamports) (by decide))
  cases info with
  | none =>
      cases h
      exact hsol
  | some data =>
      obtain ⟨n, s₄, -, h⟩ := Prog.run_bind_eq_ok h
      cases h
      exact hsol

theorem updateBalances_sol {s s' : St × τ} {b : Number × Number}
    (h : (updateBalances env handle).run (alone p strat) s = (.ok b, s')) : b.1.Nonneg := by
  obtain ⟨wallet, s₁, -, h⟩ := Prog.run_bind_eq_ok h
  obtain ⟨b', s₂, hrefresh, h⟩ := Prog.run_bind_eq_ok h
  obtain ⟨_, s₃, -, h⟩ := Prog.run_bind_eq_ok h
  obtain ⟨_, s₄, -, h⟩ := Prog.run_bind_eq_ok h
  obtain ⟨_, s₅, -, h⟩ := Prog.run_bind_eq_ok h
  obtain ⟨s₆, hrefresh⟩ := run_await_ok hrefresh
  cases h
  exact refreshBalances_sol hrefresh

theorem gather_sol {s s' : St × τ} {x : Holdings}
    (h : (gather env handle).run (alone p strat) s = (.ok x, s')) : x.sol.Nonneg := by
  obtain ⟨wallet, s₁, -, h⟩ := Prog.run_bind_eq_ok h
  obtain ⟨solPrice, s₂, -, h⟩ := Prog.run_bind_eq_ok h
  obtain ⟨b, s₃, hupdate, h⟩ := Prog.run_bind_eq_ok h
  obtain ⟨raw, s₄, -, h⟩ := Prog.run_bind_eq_ok h
  obtain ⟨prices, s₅, -, h⟩ := Prog.run_bind_eq_ok h
  obtain ⟨s₆, hupdate⟩ := run_await_ok hupdate
  cases h
  exact updateBalances_sol hupdate

end

/-! ## Running to the end -/

/-- The process knows the handle with this wallet. -/
def Knows (p : Pid) (h : Str) (w : Keypair) (st : St) : Prop :=
  ∃ u, (st.mem p).users.lookup h = some u ∧ u.wallet = w

section

variable {env : Env} {τ : Type} {p : Pid} {strat : (c : Cmd) → τ → c.Ans × τ} {h : Str}
  {w : Keypair}

/-- Errands give nobody another wallet. -/
theorem knows_exec {c : Cmd} (hc : c.errand h) (st : St) (a : c.Ans) (hk : Knows p h w st) :
    Knows p h w (exec p c st a).2 := by
  cases c with
  | usersAssign h' f =>
      obtain ⟨u, hu, hw⟩ := hk
      refine ⟨if h' = h then f.apply u else u, ?_, ?_⟩
      · simp only [exec, St.onMem_self, Assoc.lookup_modify, hu]
        split
        · rfl
        · rfl
      · split
        · exact (Assign.apply_wallet f u).trans hw
        · exact hw
  | usersSet => cases hc
  | watch => cases hc
  | ready => cases hc
  | decimalsSet => simpa only [Knows, exec, St.onMem_self] using hk
  | manualAdd => simpa only [Knows, exec, St.onMem_self] using hk
  | manualDelete => simpa only [Knows, exec, St.onMem_self] using hk
  | configSet => simpa only [Knows, exec, St.onMem_self] using hk
  | hpSet => simpa only [Knows, exec, St.onMem_self] using hk
  | lastIncidentSet => simpa only [Knows, exec, St.onMem_self] using hk
  | _ => exact hk

/-- An errand that returns leaves the wallet known. -/
theorem Knows.after {α : Type} {q : Prog α} {Q : α → Prop} (hq : q.Returns (alone p strat) Q)
    (hissues : q.Issues (Cmd.errand h)) {s : St × τ} (hk : Knows p h w s.1) :
    ∃ a s', q.run (alone p strat) s = (.ok a, s') ∧ Q a ∧ Knows p h w s'.1 :=
  @Prog.Returns.inv _ _ _ _ _ _ _ _ (fun s => Knows p h w s.1) hq hissues
    (fun _ s hc hs => knows_exec hc s.1 _ hs) s hk

variable (strat) in
theorem Knows.usersGet_run {s : St × τ} (hk : Knows p h w s.1) : ∃ u t, u.wallet = w ∧
    (ask (.usersGet h)).run (alone p strat) s = (.ok (some u), (s.1, t)) := by
  obtain ⟨u, hu, hw⟩ := hk
  refine ⟨u, (strat (.usersGet h) s.2).2, hw, (run_ask _ _ _).trans ?_⟩
  simp only [exec, hu]

theorem Knows.ensure_run {s : St × τ} (hk : Knows p h w s.1) :
    ∃ t, (await (ensure env h)).run (alone p strat) s = (.ok w, (s.1, t)) := by
  obtain ⟨u, t, rfl, hget⟩ := hk.usersGet_run strat
  have hrun : (ensure env h).run (alone p strat) s = (.ok u.wallet, (s.1, t)) :=
    Prog.run_bind_ok hget
  obtain ⟨t', hawait⟩ := run_await hrun
  exact ⟨t', hawait⟩

/-- What the node says about an account is what a refresh returns. -/
theorem refreshBalances_returns {owner ata : PublicKey} {amount : Option Nat}
    (hbalance : ∀ t, ∃ lamports : Nat, (strat (.getBalance owner) t).1 = .ok lamports)
    (hata : env.ata env.agentMint owner = .ok ata)
    (hinfo : ∀ t, ∃ data : Option Bytes, (strat (.getAccountInfo ata) t).1 = .ok data ∧
      data.map readBigUInt64LE = amount.map .ok) :
    (refreshBalances env owner).Returns (alone p strat) fun b =>
      b.2 = Number.ofBigInt (amount.getD 0) := by
  refine Prog.returns_seq (returns_attempt (Prog.returns_ask fun s => ?_)) fun lamports => ?_
  · obtain ⟨n, hn⟩ := hbalance s.2
    exact ⟨n, hn, trivial⟩
  refine Prog.returns_bind (Prog.returns_ofExcept ⟨ata, hata, rfl⟩) ?_
  rintro _ rfl
  refine Prog.returns_bind (returns_attempt (Prog.returns_ask fun s => hinfo s.2)) ?_
  intro data hdata
  cases amount with
  | none =>
      cases data with
      | some data => cases hdata
      | none =>
          exact Prog.returns_ret (show some 0 = Number.ofBigInt 0 by decide +kernel)
  | some a =>
      cases data with
      | none => cases hdata
      | some data =>
          refine Prog.returns_bind (Prog.returns_ofExcept ⟨_, Option.some.inj hdata, rfl⟩) ?_
          rintro _ rfl
          exact Prog.returns_ret rfl

/-- The balances of a known user are refreshed, kept and stored. -/
theorem Knows.updateBalances_stores {Q : Number × Number → Prop} {s : St × τ}
    (hk : Knows p h w s.1)
    (hrefresh : (refreshBalances env w.publicKey).Returns (alone p strat) Q) :
    ∃ b, ∃ (st : St) (u : User) (t : τ),
      (updateBalances env h).run (alone p strat) s = (.ok b, (st.persisted h u, t)) ∧
      Q b ∧ (st.mem p).users.lookup h = some u ∧ u.wallet = w ∧ u.tierBal = b.2 := by
  obtain ⟨u, t, rfl, hget⟩ := hk.usersGet_run strat
  have hwallet : (knownWallet env h).run (alone p strat) s = (.ok u.wallet, (s.1, t)) :=
    Prog.run_bind_ok hget
  obtain ⟨b, s₁, hb, hQ, hk₁⟩ := Knows.after (returns_await hrefresh)
    (errand_await (errand_refreshBalances u.wallet.publicKey)) (s := (s.1, t)) hk
  obtain ⟨u₁, hu₁, hw₁⟩ := hk₁
  let u₂ := (Assign.tierBal b.2).apply ((Assign.sol b.1).apply u₁)
  let st₂ := (s₁.1.assigned p h (.sol b.1)).assigned p h (.tierBal b.2)
  have hu₂ : (st₂.mem p).users.lookup h = some u₂ := lookup_assigned (lookup_assigned hu₁ _) _
  have hsol : (ask (.usersAssign h (.sol b.1))).run (alone p strat) s₁ =
      (.ok (), (s₁.1.assigned p h (.sol b.1), (strat (.usersAssign h (.sol b.1)) s₁.2).2)) := rfl
  have htier : (ask (.usersAssign h (.tierBal b.2))).run (alone p strat)
      (s₁.1.assigned p h (.sol b.1), (strat (.usersAssign h (.sol b.1)) s₁.2).2) =
        (.ok (), (st₂, _)) := rfl
  obtain ⟨t₄, hpersist⟩ := persist_run hu₂ _
  obtain ⟨t₅, hawait⟩ := run_await hpersist
  refine ⟨b, st₂, u₂, t₅, ?_, hQ, hu₂, hw₁, rfl⟩
  exact (Prog.run_bind_ok hwallet).trans ((Prog.run_bind_ok hb).trans ((Prog.run_bind_ok hsol).trans
    ((Prog.run_bind_ok htier).trans (Prog.run_bind_ok hawait))))

theorem Knows.updateBalances_run {Q : Number × Number → Prop} {s : St × τ} (hk : Knows p h w s.1)
    (hrefresh : (refreshBalances env w.publicKey).Returns (alone p strat) Q) :
    ∃ b s', (updateBalances env h).run (alone p strat) s = (.ok b, s') ∧
      Q b ∧ Knows p h w s'.1 := by
  obtain ⟨b, st, u, t, hrun, hQ, hu, hw, -⟩ := hk.updateBalances_stores hrefresh
  exact ⟨b, _, hrun, hQ, u, hu, hw⟩

theorem fetchTokenPrices_returns {Q : Json → Prop} (hempty : Q (.obj []))
    (hfetch : ∀ r s v s', (fetchJson r).run (alone p strat) s = (.ok v, s') → Q v)
    (mints : List String) : (fetchTokenPrices mints).Returns (alone p strat) Q := by
  rw [fetchTokenPrices]
  split
  · exact Prog.returns_ret hempty
  · refine Prog.returns_bind (P := fun r => ∀ v, r = .ok v → Q v)
      (Prog.returns_outcome fun s r s' hrun v hv => hfetch _ s v s' (hrun.trans (by rw [hv])))
      fun r hr => ?_
    cases r with
    | ok v => exact Prog.returns_ret (hr v rfl)
    | error e => exact Prog.returns_ret hempty

/-- What `gather` gets from sources that answer. -/
theorem Knows.gather_run {Qs : Option Price → Prop} {Qt : Json → Prop}
    {accounts : List (String × String)} {s : St × τ} (hk : Knows p h w s.1)
    (hprice : (fetchSolPrice env).Returns (alone p strat) Qs)
    (hrefresh : (refreshBalances env w.publicKey).Returns (alone p strat) fun _ => True)
    (haccounts : ∀ t, (strat (.getParsedTokenAccountsByOwner w.publicKey .token) t).1 =
      .ok accounts)
    (htable : ∀ mints, (fetchTokenPrices mints).Returns (alone p strat) Qt) :
    ∃ x s', (gather env h).run (alone p strat) s = (.ok x, s') ∧
      x.accounts = accounts ∧ Qs x.solPrice ∧ Qt x.prices := by
  obtain ⟨t₁, hensure⟩ := hk.ensure_run
  obtain ⟨solPrice, s₂, hsol, hQs, hk₂⟩ := Knows.after (returns_await hprice)
    (errand_await errand_fetchSolPrice) (s := (s.1, t₁)) hk
  obtain ⟨b, s₃, hupdate, -, hk₃⟩ := hk₂.updateBalances_run hrefresh
  obtain ⟨t₃, hupdate⟩ := run_await hupdate
  have hraw : (attempt (ask (.getParsedTokenAccountsByOwner w.publicKey .token))).run
      (alone p strat) (s₃.1, t₃) = (.ok accounts, (s₃.1, _)) :=
    run_attempt ((run_ask _ _ _).trans (by simp only [exec, haccounts]; rfl))
  obtain ⟨prices, s₅, hprices, hQt⟩ := returns_await
    (htable ((tokenBalances accounts []).map Prod.fst)) (s₃.1, _)
  refine ⟨⟨b.1, solPrice, accounts, prices⟩, s₅, ?_, rfl, hQs, hQt⟩
  exact (Prog.run_bind_ok hensure).trans ((Prog.run_bind_ok hsol).trans
    ((Prog.run_bind_ok hupdate).trans ((Prog.run_bind_ok hraw).trans (Prog.run_bind_ok hprices))))

end

/-- Whatever token accounts, balance and prices `getPortfolio` is told of, it returns a portfolio
whose lines are the sums of the accounts and add up to its total. -/
theorem portfolio_adds_up (env : Env) {τ : Type} (p : Pid) (strat : (c : Cmd) → τ → c.Ans × τ)
    (handle : Str) {s s₁ : St × τ} {x : Holdings}
    (hx : (gather env handle).run (alone p strat) s = (.ok x, s₁))
    (hamounts : ∀ a ∈ x.accounts, (Number.parseFloat a.2).Nonneg) (hprices : Priced x) :
    ∃ P s', (getPortfolio env handle).run (alone p strat) s = (.ok P, s') ∧ AddsUp x P := by
  obtain ⟨s', hreport⟩ := report_run hprices.tokens.ne_null s₁
  refine ⟨portfolioOf x, s', ?_, portfolioOf_addsUp hamounts hprices (gather_sol hx)⟩
  rw [getPortfolio_eq]
  exact (Prog.run_bind_ok hx).trans hreport

namespace Sample

/-- What the services for prices answer. -/
def quotes : Json := .obj [("price", .str "150"), ("agent", .obj [("usd", .num 2)])]

/-- A user has two accounts of one mint, and an empty one of another. -/
def market (c : Cmd) (t : Unit) : c.Ans × Unit :=
  match c with
  | .getBalance _ => (.ok 1500000000, t)
  | .getAccountInfo _ => (.ok none, t)
  | .getParsedTokenAccountsByOwner _ _ =>
      (.ok [("Agent", "2.5"), ("Other", "0"), ("Agent", "1.25")], t)
  | .fetch _ => (.ok ⟨true, "OK", Json.stringify quotes⟩, t)
  | c => (offline c, t)

theorem fetchJson_market (r : Request) (s : St × Unit) :
    (fetchJson r).run (alone .agent market) s = (.ok quotes, s) := by
  have hparse : parseJson (some (Json.stringify quotes)) = .ok quotes := by
    simp only [parseJson, Str.text_some]
    rw [Json.parse_stringify]
    simp only [quotes, Json.Plain, Json.PlainMembers, and_true, true_and]
    exact ⟨2, rfl⟩
  refine (run_fetchJson .agent market r s.1 s.2).trans ?_
  rw [show (market (.fetch r) s.2).1 = .ok ⟨true, "OK", Json.stringify quotes⟩ from rfl,
    Except.bind, hparse]

theorem fetchSolPrice_market :
    (fetchSolPrice env).Returns (alone .agent market) (· = some (.num (some 150))) := by
  refine Prog.returns_bind (P := (· = .ok (some (.str "150"))))
    (Prog.returns_outcome fun s r s' hrun => ?_) fun r hr => ?_
  · rw [Prog.bind_eq, Prog.run_bind_ok (fetchJson_market _ s)] at hrun
    cases hrun
    rfl
  · subst hr
    exact Prog.returns_ret (congrArg (fun x => some (Price.num x))
      (by decide +kernel : Number.parseFloat "150" = some 150))

theorem refreshBalances_market (owner : PublicKey) {ata : PublicKey}
    (hata : env.ata env.agentMint owner = .ok ata) :
    (refreshBalances env owner).Returns (alone .agent market) fun _ => True := by
  refine Prog.returns_seq (returns_attempt (Prog.returns_ask fun _ => ⟨_, rfl, trivial⟩)) fun _ => ?_
  refine Prog.returns_seq (Prog.returns_ofExcept ⟨ata, hata, trivial⟩) fun _ => ?_
  refine Prog.returns_bind (returns_attempt (Prog.returns_ask fun _ => ⟨none, rfl, rfl⟩)) ?_
  rintro _ rfl
  exact Prog.returns_ret trivial

theorem priceTable_quotes : PriceTable quotes := by
  refine ⟨nofun, fun mint => ?_⟩
  by_cases hagent : toLowerCase mint = "agent"
  · have hprice : priceFor quotes mint = some (.num 2) := by
      rw [priceFor, hagent]
      rfl
    rw [hprice]
    exact .some (by norm_num)
  · by_cases hp : toLowerCase mint = "price"
    · have hprice : priceFor quotes mint = some (.num 0) := by
        rw [priceFor, hp]
        rfl
      rw [hprice]
      exact .some le_rfl
    · have hfield : quotes.field (toLowerCase mint) = none := by
        simp [quotes, Json.field, Ne.symm hagent, Ne.symm hp]
      rw [priceFor, hfield]
      exact .some le_rfl

/-- Two accounts of one mint make one line. -/
theorem portfolio_alice : ∃ x P s',
    x.accounts = [("Agent", "2.5"), ("Other", "0"), ("Agent", "1.25")] ∧
    x.solPrice = some (.num (some 150)) ∧
    (getPortfolio env (some "alice")).run (alone .agent market) (depositor, ()) = (.ok P, s') ∧
      AddsUp x P := by
  have hknown : Knows .agent (some "alice") alice depositor := ⟨_, rfl, rfl⟩
  have hempty : PriceTable (.obj []) := ⟨nofun, fun _ => .some le_rfl⟩
  have hfetch : ∀ r s v s', (fetchJson r).run (alone .agent market) s = (.ok v, s') →
      PriceTable v := by
    intro r s v s' hrun
    rw [fetchJson_market] at hrun
    cases hrun
    exact priceTable_quotes
  obtain ⟨x, s₁, hx, haccounts, hsol, htable⟩ := @Knows.gather_run _ _ _ _ _ _ _ _ _ (depositor, ())
    hknown fetchSolPrice_market (refreshBalances_market _ rfl) (fun _ => rfl)
    (fetchTokenPrices_returns hempty hfetch)
  have hamounts : ∀ a ∈ x.accounts, (Number.parseFloat a.2).Nonneg := by
    have hparse : Number.parseFloat "2.5" = some (5 / 2) ∧ Number.parseFloat "0" = some 0 ∧
        Number.parseFloat "1.25" = some (5 / 4) := by decide +kernel
    simp only [haccounts, List.forall_mem_cons, hparse]
    exact ⟨.some (by norm_num), .some le_rfl, .some (by norm_num), by simp⟩
  have hprices : Priced x := by
    refine ⟨fun price hp => ?_, htable⟩
    obtain rfl : Price.num (some 150) = price := Option.some.inj (hsol.symm.trans hp)
    exact .some (by norm_num)
  obtain ⟨P, s', hP, hadds⟩ := portfolio_adds_up env .agent market _ hx hamounts hprices
  exact ⟨x, P, s', haccounts, hsol, hP, hadds⟩

end Sample

end Nexus
