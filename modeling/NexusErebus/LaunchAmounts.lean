import NexusErebus.LauncherRuns
import NexusErebus.Text.Double
import NexusErebus.TwoLaunchers

/-!
# The numbers of a launch

A token is launched by `launchTokenInternal`, by `POST /launch-token`, or by `POST /create-token`
and `POST /create-pool` one after the other.  All of them take the number of decimals and the
supply from parameters that may be anything, and none of them looks at the two before it calls
`createMint`.

`launch_usable_iff` says when nothing unusable reaches the chain: there are no parameters or no
key pair, or the parameters happen to be usable and the amount has no bits beyond the significand
of a number.

The pool is told of the supply in whole tokens, which is also what it may sell and what is
locked.  `pools_never_fit` says that no pool fits the token it is for.
-/

namespace Nexus

open Async Text

/-! ## Launches -/

/-- A request to launch a token, or the first half of one. -/
inductive LaunchCall where
  | launchTokenInternal (params : Json) (userId : Str)
  | launchToken (body : Option Json) (userId : String)
  | createToken (body : Option Json) (userId : String)

namespace LaunchCall

/-- The parameters of the launch. -/
def params : LaunchCall → Option Json
  | .launchTokenInternal params _ => some params
  | .launchToken body _ => body
  | .createToken body _ => body

def userId : LaunchCall → Str
  | .launchTokenInternal _ userId => userId
  | .launchToken _ userId => some userId
  | .createToken _ userId => some userId

def decimals (l : LaunchCall) : Option Json := l.params.bind (Json.field "decimals")

def supply (l : LaunchCall) : Option Json := l.params.bind (Json.field "supply")

/-- What the launch does. -/
def prog (env : Env) : LaunchCall → Prog Unit
  | .launchTokenInternal params userId =>
      (Nexus.launchTokenInternal env params userId).bind fun _ => .ret ()
  | .launchToken body userId => (Nexus.launchToken env body userId).bind fun _ => .ret ()
  | .createToken body userId => (Nexus.createToken env body userId).bind fun _ => .ret ()

end LaunchCall

/-- The decimals and the supply can be used. -/
structure Usable (l : LaunchCall) (d n : Nat) : Prop where
  decimals : l.decimals = some (.num d)
  supply : l.supply = some (.num n)
  positive : 0 < n
  /-- The amount has 64 bits. -/
  fits : n * 10 ^ d ≤ 2 ^ 64 - 1

theorem Usable.unique {l : LaunchCall} {d d' n n' : Nat} (h : Usable l d n) (h' : Usable l d' n') :
    d = d' ∧ n = n' := by
  have hd := h.decimals.symm.trans h'.decimals
  have hn := h.supply.symm.trans h'.supply
  simp only [Option.some.injEq, Json.num.injEq, Nat.cast_inj] at hd hn
  exact ⟨hd, hn⟩

/-- Of some commands, `createMint` is among them only for usable parameters, and `mintTo` issues
the whole supply. -/
structure ReachesUsable (l : LaunchCall) (cs : List Cmd) : Prop where
  created : ∀ kp x, Cmd.createMint kp x ∈ cs → ∃ d n, Usable l d n
  issued : ∀ d n, Usable l d n → ∀ kp mint account x, Cmd.mintTo kp mint account x ∈ cs →
    x = some ((n * 10 ^ d : Nat) : ℚ)

/-- The key pair the launchers find for a user. -/
def launchKeyOf (env : Env) (st : St) (userId : Str) : Option Keypair :=
  let stored := st.redis.string st.clock (launchWalletKey userId)
  if stored.getD "" = "" then none else (readKeypair env stored).toOption

/-! ## What is sent to the chain -/

/-- The steps that all launches have in common, and what comes after them. -/
def minting {α : Type} (userKP : Keypair) (decimals : Option Json) (amount : Number)
    (rest : PublicKey → PublicKey → Prog α) : Prog α := do
  let mint ← attempt (ask (.createMint userKP decimals))
  let account ← attempt (ask (.getOrCreateAssociatedTokenAccount userKP mint userKP.publicKey))
  attempt (ask (.mintTo userKP mint account amount))
  rest mint account

section

variable (env : Env)

theorem launchWith_eq (userKP : Keypair) (params : Json) (logo : Prog String) :
    ∃ rest, launchWith env userKP params logo = minting userKP (params.field "decimals")
      (mintAmount (params.field "supply") (params.field "decimals")) rest :=
  ⟨_, rfl⟩

theorem createToken_eq (body : Option Json) (userId : String) :
    ∃ rest : Json → Keypair → PublicKey → PublicKey → Prog Answer, createToken env body userId =
      endpoint env ((requestBody body "decimals").bind fun v =>
        (await (getUserKP env userId)).bind fun kp => minting kp (v.field "decimals")
          (mintAmount (v.field "supply") (v.field "decimals")) (rest v kp)) :=
  ⟨_, rfl⟩

end

/-- The commands of a launch with these decimals, this supply and this amount. -/
def Cmd.mintsAs (decimals supply totalSellA : Option Json) (amount : Number) : Cmd → Prop
  | .createMint _ x => x = decimals
  | .mintTo _ _ _ x => x = amount
  | .createLaunchpadPool _ pool _ _ =>
      pool.lookup "decimals" = some decimals ∧ pool.lookup "supply" = some supply ∧
        pool.lookup "totalSellA" = some totalSellA ∧ pool.lookup "totalLockedAmount" = some supply
  | _ => True

section

variable {env : Env} {decimals supply totalSellA : Option Json} {amount : Number} {α : Type}

theorem mintsAs_aside {c : Cmd} (hc : c.aside) : c.mintsAs decimals supply totalSellA amount := by
  cases c with
  | createMint | mintTo | createLaunchpadPool => cases hc
  | _ => trivial

theorem mintsAs_minting {userKP : Keypair} {rest : PublicKey → PublicKey → Prog α}
    (hrest : ∀ mint account,
      (rest mint account).Issues (Cmd.mintsAs decimals supply totalSellA amount)) :
    (minting userKP decimals amount rest).Issues (Cmd.mintsAs decimals supply totalSellA amount) := by
  refine Prog.issues_bind (issues_attempt (issues_ask rfl)) fun mint => ?_
  refine Prog.issues_bind (issues_attempt (issues_ask trivial)) fun account => ?_
  exact Prog.issues_bind (issues_attempt (issues_ask rfl)) fun _ => hrest mint account

/-- The rest of a launch. -/
theorem mintsAs_launchWith {userKP : Keypair} {params : Json} {logo : Prog String}
    (hlogo : logo.Issues Cmd.aside) :
    (launchWith env userKP params logo).Issues (Cmd.mintsAs (params.field "decimals")
      (params.field "supply") (params.field "supply")
      (mintAmount (params.field "supply") (params.field "decimals"))) := by
  refine mintsAs_minting fun mint account => ?_
  refine Prog.issues_bind (Prog.issues_mono (fun _ => mintsAs_aside) hlogo) fun imageUrl => ?_
  refine Prog.issues_bind (Prog.issues_ofExcept _) fun name => ?_
  refine Prog.issues_bind (issues_attempt (issues_ask trivial)) fun _ => ?_
  refine Prog.issues_bind (issues_ask trivial) fun now => ?_
  refine Prog.issues_bind (Prog.issues_ofExcept _) fun tokenB => ?_
  refine Prog.issues_bind (issues_attempt (issues_ask ⟨rfl, rfl, rfl, rfl⟩)) fun tx => ?_
  exact Prog.issues_bind (issues_attempt (issues_ask trivial)) fun _ => .ret _

theorem mintsAs_asks {h : Str} {c : Cmd} (hc : c.asks h) :
    c.mintsAs decimals supply totalSellA amount := by
  cases c with
  | createMint | mintTo | createLaunchpadPool => cases hc
  | _ => trivial

/-- The endpoints read the request and load the key pair before anything else. -/
theorem mintsAs_request {body : Option Json} {userId : String} {rest : Json → Keypair → Prog α}
    (hrest : ∀ v kp, body = some v →
      (rest v kp).Issues (Cmd.mintsAs decimals supply totalSellA amount)) (key : String) :
    ((requestBody body key).bind fun v => (await (getUserKP env userId)).bind (rest v)).Issues
      (Cmd.mintsAs decimals supply totalSellA amount) := by
  refine issues_requestBody_bind fun v hv => ?_
  refine Prog.issues_bind (issues_await trivial (issues_launchKeypair fun c hc => ?_)) fun kp =>
    hrest v kp hv
  exact mintsAs_asks hc

theorem mintsAs_endpoint {q : Prog Answer}
    (hq : q.Issues (Cmd.mintsAs decimals supply totalSellA amount)) :
    (endpoint env q).Issues (Cmd.mintsAs decimals supply totalSellA amount) :=
  issues_endpoint (fun _ hc => mintsAs_aside (aside_firewall hc)) hq

theorem aside_serverLogo (prompt : Option Json) :
    (await (generateImage env prompt)).Issues Cmd.aside :=
  issues_await trivial (issues_generateImage (fun _ hc => hc) _)

theorem mintsAs_createToken (body : Option Json) (userId : String) :
    (createToken env body userId).Issues (Cmd.mintsAs (body.bind (Json.field "decimals"))
      (body.bind (Json.field "supply")) totalSellA (mintAmount (body.bind (Json.field "supply"))
        (body.bind (Json.field "decimals")))) := by
  refine mintsAs_endpoint (mintsAs_request (fun v kp hv => ?_) "decimals")
  subst hv
  refine mintsAs_minting fun mint account => ?_
  refine Prog.issues_bind (Prog.issues_mono (fun _ => mintsAs_aside) (aside_serverLogo _))
    fun imageUrl => ?_
  refine Prog.issues_bind (Prog.issues_ofExcept _) fun name => ?_
  exact Prog.issues_bind (issues_tryRedis trivial) fun _ => .ret _

theorem mintsAs_createPool {body : Json} (userId : String) :
    (createPool env (some body) userId).Issues (Cmd.mintsAs (some (.num 6)) (body.field "supply")
      (body.field "totalSellA") amount) := by
  refine mintsAs_endpoint (mintsAs_request (fun v kp hv => ?_) "tokenAMint")
  obtain rfl := Option.some.inj hv
  refine Prog.issues_bind (issues_ask trivial) fun now => ?_
  refine Prog.issues_bind (Prog.issues_ofExcept _) fun tokenA => ?_
  refine Prog.issues_bind (Prog.issues_ofExcept _) fun tokenB => ?_
  refine Prog.issues_bind (issues_attempt (issues_ask ⟨rfl, rfl, rfl, rfl⟩)) fun tx => ?_
  exact Prog.issues_bind (issues_attempt (issues_ask trivial)) fun _ => .ret _

variable (env) in
/-- What a launch sends to the chain. -/
theorem LaunchCall.mintsAs (l : LaunchCall) : (l.prog env).Issues
    (Cmd.mintsAs l.decimals l.supply l.supply (mintAmount l.supply l.decimals)) := by
  cases l with
  | launchTokenInternal params userId =>
      refine Prog.issues_bind ?_ fun _ => .ret _
      refine Prog.issues_bind (issues_launchKeypair fun _ => mintsAs_asks) fun kp => ?_
      refine Prog.issues_bind (issues_prop _ _) fun _ => mintsAs_launchWith ?_
      refine Prog.issues_bind (issues_await trivial (issues_askOllama (fun _ hc => hc) _)) fun _ => ?_
      exact aside_serverLogo _
  | launchToken body userId =>
      rw [LaunchCall.prog, launchToken_eq]
      refine Prog.issues_bind (mintsAs_endpoint ?_) fun _ => .ret _
      refine Prog.issues_bind (mintsAs_request (fun v kp hv => ?_) _) fun _ => .ret _
      subst hv
      exact mintsAs_launchWith (aside_serverLogo _)
  | createToken body userId =>
      exact Prog.issues_bind (mintsAs_createToken body userId) fun _ => .ret _

end

/-! ## The key pair -/

section

variable {τ : Type} {env : Env} {p : Pid} {strat : (c : Cmd) → τ → c.Ans × τ}

variable (env p strat) in
/-- What the launchers find is the stored key pair, unless Redis fails. -/
theorem launchKeypair_run (userId : Str) (st : St) (t : τ) :
    ∃ r s', (launchKeypair env userId).run (alone p strat) (st, t) = (r, s') ∧
      (∀ kp, r = .ok kp → launchKeyOf env st userId = some kp) ∧
      ((strat (.tryRedis (.get (launchWalletKey userId))) t).1 = none →
        ∀ kp, launchKeyOf env st userId = some kp → r = .ok kp) := by
  cases hans : (strat (.tryRedis (.get (launchWalletKey userId))) t).1 with
  | some e => exact ⟨_, _, Prog.run_bind_error (run_tryRedis_error p st hans), nofun, nofun⟩
  | none =>
      have hread := run_tryRedis_ok p st hans
      rw [launchKeypair, Prog.bind_eq, Prog.run_bind_ok hread]
      by_cases hempty : (st.redis.string st.clock (launchWalletKey userId)).getD "" = ""
      · obtain ⟨s', hs⟩ := onError_run env p strat (st.onRedis (.get (launchWalletKey userId)),
          (strat (.tryRedis (.get (launchWalletKey userId))) t).2)
        simp only [Redis.exec, launchKeyOf, hempty, if_true]
        refine ⟨_, _, Prog.run_bind_ok hs, fun kp h => ?_, fun _ kp h => ?_⟩
        · cases h
        · cases h
      · simp only [Redis.exec, launchKeyOf, hempty, if_false]
        refine ⟨_, _, Prog.run_ofExcept _ _, fun kp hkp => by rw [hkp]; rfl, fun _ kp hkp => ?_⟩
        cases hkey : readKeypair env (st.redis.string st.clock (launchWalletKey userId)) with
        | error e =>
            rw [hkey] at hkp
            cases hkp
        | ok kp' =>
            rw [hkey] at hkp
            exact congrArg Except.ok (Option.some.inj hkp)

/-- What is signed after the key pair was loaded shows that it was found. -/
theorem key_of_signed {α : Type} {userId : Str} {f : Keypair → Prog α} {st : St} {t : τ} {c : Cmd}
    (hsigned : ¬ c.unsigned)
    (hc : c ∈ ((launchKeypair env userId).bind f).trace (alone p strat) (st, t)) :
    ∃ kp s', launchKeyOf env st userId = some kp ∧ c ∈ (f kp).trace (alone p strat) s' := by
  rcases Prog.mem_trace_bind_iff.mp hc with hc | ⟨kp, s', hrun, hc⟩
  · exact absurd ((unsigned_launchKeypair userId).trace c hc) hsigned
  · obtain ⟨r, s'', hrun', hkey, -⟩ := launchKeypair_run env p strat userId st t
    cases hrun.symm.trans hrun'
    exact ⟨kp, s', hkey kp rfl, hc⟩

/-- A launch signs only with a key pair, and only if there are parameters. -/
theorem LaunchCall.key_of_signed {l : LaunchCall} {st : St} {t : τ} {c : Cmd}
    (hsigned : ¬ c.unsigned) (hc : c ∈ (l.prog env).trace (alone p strat) (st, t)) :
    Json.nullish l.params = false ∧ ∃ kp, launchKeyOf env st l.userId = some kp := by
  have hret : ∀ {α : Type} {q : Prog α} {s : St × τ},
      c ∈ (q.bind fun _ => .ret ()).trace (alone p strat) s → c ∈ q.trace (alone p strat) s := by
    intro α q s hc
    rcases Prog.mem_trace_bind_iff.mp hc with hc | ⟨_, _, -, hc⟩
    · exact hc
    · cases hc
  have hrequest : ∀ {α : Type} {body : Option Json} {userId : String}
      {rest : Json → Keypair → Prog α},
      c ∈ ((requestBody body "decimals").bind fun v =>
        (await (getUserKP env userId)).bind (rest v)).trace (alone p strat) (st, t) →
      Json.nullish body = false ∧ ∃ kp, launchKeyOf env st (some userId) = some kp := by
    intro α body userId rest hc
    rcases requestBody_cases body "decimals" with ⟨-, e, hthrow⟩ | ⟨hbody, v, -, hret⟩
    · rw [hthrow] at hc
      cases hc
    · rw [hret, Prog.ret_bind, await, Prog.bind_assoc'] at hc
      obtain ⟨kp, -, hkey, -⟩ := Nexus.key_of_signed hsigned hc
      exact ⟨hbody, kp, hkey⟩
  cases l with
  | launchTokenInternal params userId =>
      obtain ⟨kp, s', hkey, hc⟩ := Nexus.key_of_signed hsigned (hret hc)
      refine ⟨?_, kp, hkey⟩
      cases params with
      | null => cases hc
      | _ => rfl
  | launchToken body userId =>
      have hc := hret hc
      rw [launchToken_eq] at hc
      rcases Prog.mem_trace_bind_iff.mp (mem_trace_endpoint hsigned hc) with hc | ⟨_, _, -, hc⟩
      · exact hrequest hc
      · cases hc
  | createToken body userId => exact hrequest (mem_trace_endpoint hsigned (hret hc))

/-- Where the chain answers, a mint is created and the supply is issued. -/
theorem mem_trace_minting {α : Type} {kp : Keypair} {decimals : Option Json} {amount : Number}
    {rest : PublicKey → PublicKey → Prog α} {mint account : PublicKey}
    (hmint : ∀ t, (strat (.createMint kp decimals) t).1 = .ok mint)
    (haccount : ∀ t, (strat (.getOrCreateAssociatedTokenAccount kp mint kp.publicKey) t).1 =
      .ok account) (s : St × τ) :
    .createMint kp decimals ∈ (minting kp decimals amount rest).trace (alone p strat) s ∧
      .mintTo kp mint account amount ∈ (minting kp decimals amount rest).trace (alone p strat) s := by
  obtain ⟨s₁, hcreated⟩ : ∃ s₁, (attempt (ask (.createMint kp decimals))).run (alone p strat) s =
      (.ok mint, s₁) := ⟨_, run_attempt ((run_ask _ _ _).trans (by simp only [exec, hmint]; rfl))⟩
  obtain ⟨s₂, hfound⟩ : ∃ s₂, (attempt (ask (.getOrCreateAssociatedTokenAccount kp mint
      kp.publicKey))).run (alone p strat) s₁ = (.ok account, s₂) :=
    ⟨_, run_attempt ((run_ask _ _ _).trans (by simp only [exec, haccount]; rfl))⟩
  have hasked : ∀ {β : Type} {c : Cmd} {f : c.Res → Prog β} (s : St × τ),
      c ∈ ((ask c).bind f).trace (alone p strat) s := fun s => List.mem_cons_self ..
  refine ⟨Prog.mem_trace_bind (hasked s), ?_⟩
  refine Prog.mem_trace_bind_ok hcreated (Prog.mem_trace_bind_ok hfound ?_)
  exact Prog.mem_trace_bind (hasked _)

end

/-! ## Usable parameters -/

theorem tenTo_natCast (d : Nat) : tenTo (some (d : ℚ)) = some ((10 ^ d : Nat) : ℚ) := by
  simp [tenTo, Number.pow10]

/-- The amount of usable parameters is rounded. -/
theorem mintAmount_natCast (n d : Nat) : mintAmount (some (.num n)) (some (.num d)) =
    some (Number.round (Number.round n * Number.round (10 ^ d)) : ℚ) := by
  simp only [mintAmount, Json.toNumber, tenTo_natCast, Number.held_natCast, Number.mul]
  rw [← Nat.cast_mul, Number.held_natCast]

/-- The amount is right if it needs no rounding. -/
theorem mintAmount_eq_iff {n d : Nat} (hn : 0 < n) :
    mintAmount (some (.num n)) (some (.num d)) = some ((n * 10 ^ d : Nat) : ℚ) ↔
      2 ^ Number.excess (n * 10 ^ d) ∣ n * 10 ^ d := by
  rw [mintAmount_natCast, Option.some.injEq, Nat.cast_inj]
  constructor
  · intro h
    rw [← h]
    exact Number.bits_round _
  · intro h
    have hne : n * 10 ^ d ≠ 0 := by positivity
    rw [Number.round_eq_self_iff.mpr (Number.bits_of_dvd hne h (Dvd.intro _ rfl)),
      Number.round_eq_self_iff.mpr (Number.bits_of_dvd hne h (Dvd.intro_left _ rfl)),
      Number.round_eq_self_iff.mpr h]

namespace Sample

/-- Services that work. -/
def working (c : Cmd) (t : Unit) : c.Ans × Unit := (launching "out/7.png" 0 c, t)

end Sample

section

variable {env : Env} {p : Pid} {l : LaunchCall} {st : St} {kp : Keypair}

/-- Where everything works, a launch with parameters and a key pair gets to the minting. -/
theorem LaunchCall.gets_to_minting (hparams : Json.nullish l.params = false)
    (hkey : launchKeyOf env st l.userId = some kp) :
    ∃ (α : Type) (rest : PublicKey → PublicKey → Prog α) (s : St × Unit),
      ∀ c ∈ (minting kp l.decimals (mintAmount l.supply l.decimals) rest).trace
        (alone p Sample.working) s, c ∈ (l.prog env).trace (alone p Sample.working) (st, ()) := by
  obtain ⟨r, s', hrun, -, hfound⟩ := launchKeypair_run env p Sample.working l.userId st ()
  obtain rfl := hfound rfl kp hkey
  have hserver : ∀ {α : Type} {body : Option Json} {userId : String}
      {rest : Json → Keypair → Prog α} (v : Json), requestBody body "decimals" = .ret v →
      (launchKeypair env (some userId)).run (alone p Sample.working) (st, ()) = (.ok kp, s') →
      ∃ s'', ∀ c ∈ (rest v kp).trace (alone p Sample.working) s'',
        c ∈ ((requestBody body "decimals").bind fun v =>
          (await (getUserKP env userId)).bind (rest v)).trace (alone p Sample.working) (st, ()) := by
    intro α body userId rest v hbody hrun
    obtain ⟨t', hawait⟩ := run_await hrun
    refine ⟨(s'.1, t'), fun c hc => ?_⟩
    rw [hbody, Prog.ret_bind]
    exact Prog.mem_trace_bind_ok hawait hc
  cases l with
  | launchTokenInternal params userId =>
      have hprop : prop (some params) "decimals" = .ret (params.field "decimals") := by
        cases params with
        | null => cases hparams
        | _ => rfl
      obtain ⟨rest, hrest⟩ := launchWith_eq env kp params do
        let logoDesc ← await (generateImageDescription env (params.field "tokenName"))
        await (generateImage env (some (.str logoDesc)))
      refine ⟨_, rest, s', fun c hc => Prog.mem_trace_bind (Prog.mem_trace_bind_ok hrun ?_)⟩
      rw [hprop, Prog.bind_eq, Prog.ret_bind, hrest]
      exact hc
  | launchToken body userId =>
      rcases requestBody_cases body "decimals" with ⟨hnull, -⟩ | ⟨-, v, rfl, hbody⟩
      · cases hparams.symm.trans hnull
      · obtain ⟨s'', hmem⟩ := hserver v hbody hrun
        obtain ⟨rest, hrest⟩ := launchWith_eq env kp v (await (generateImage env
          (some (.str ("Logo for " ++ Json.text (v.field "tokenName"))))))
        refine ⟨_, rest, s'', fun c hc => ?_⟩
        rw [LaunchCall.prog, launchToken_eq]
        refine Prog.mem_trace_bind (Prog.mem_trace_tryCatch (Prog.mem_trace_bind (hmem c ?_)))
        rw [hrest]
        exact hc
  | createToken body userId =>
      rcases requestBody_cases body "decimals" with ⟨hnull, -⟩ | ⟨-, v, rfl, hbody⟩
      · cases hparams.symm.trans hnull
      · obtain ⟨rest, hrest⟩ := createToken_eq env (some v) userId
        obtain ⟨s'', hmem⟩ := hserver v hbody hrun
        refine ⟨_, rest v kp, s'', fun c hc => ?_⟩
        rw [LaunchCall.prog, hrest]
        exact Prog.mem_trace_bind (Prog.mem_trace_tryCatch (hmem c hc))

end

/-- A launch reaches the chain with usable parameters only, if it does not reach it at all or its
parameters happen to be usable and give an amount that needs no rounding. -/
theorem launch_usable_iff (env : Env) (p : Pid) (l : LaunchCall) (st : St) :
    (∀ (τ : Type) (strat : (c : Cmd) → τ → c.Ans × τ) (t : τ),
      ReachesUsable l ((l.prog env).trace (alone p strat) (st, t))) ↔
    Json.nullish l.params = true ∨ launchKeyOf env st l.userId = none ∨
      ∃ d n, Usable l d n ∧ 2 ^ Number.excess (n * 10 ^ d) ∣ n * 10 ^ d := by
  constructor
  · intro hall
    cases hparams : Json.nullish l.params with
    | true => exact .inl rfl
    | false =>
        cases hkey : launchKeyOf env st l.userId with
        | none => exact .inr (.inl rfl)
        | some kp =>
            obtain ⟨α, rest, s, hmem⟩ := LaunchCall.gets_to_minting (p := p) hparams hkey
            obtain ⟨hcreated, hissued⟩ := @mem_trace_minting Unit p Sample.working α kp l.decimals
              (mintAmount l.supply l.decimals) rest _ _ (fun _ => rfl) (fun _ => rfl) s
            obtain ⟨hcreate, hissue⟩ := hall Unit Sample.working ()
            obtain ⟨d, n, husable⟩ := hcreate _ _ (hmem _ hcreated)
            have hamount := hissue d n husable _ _ _ _ (hmem _ hissued)
            rw [husable.supply, husable.decimals, mintAmount_eq_iff husable.positive] at hamount
            exact .inr (.inr ⟨d, n, husable, hamount⟩)
  · intro hcond τ strat t
    have hreached : ∀ c ∈ (l.prog env).trace (alone p strat) (st, t), ¬ c.unsigned →
        ∃ d n, Usable l d n ∧ 2 ^ Number.excess (n * 10 ^ d) ∣ n * 10 ^ d := by
      intro c hc hsigned
      obtain ⟨hparams, kp, hkey⟩ := LaunchCall.key_of_signed hsigned hc
      rw [hparams, hkey] at hcond
      simpa using hcond
    constructor
    · intro kp x hc
      obtain ⟨d, n, husable, -⟩ := hreached _ hc nofun
      exact ⟨d, n, husable⟩
    · intro d n husable kp mint account x hc
      obtain ⟨d', n', husable', hbits⟩ := hreached _ hc nofun
      obtain ⟨rfl, rfl⟩ := husable.unique husable'
      have hx : x = mintAmount l.supply l.decimals := (l.mintsAs env).trace _ hc
      rw [hx, husable.supply, husable.decimals, mintAmount_eq_iff husable.positive]
      exact hbits

namespace Sample

theorem launchKeyOf_imported : launchKeyOf env imported (some "alice") = some alice := by
  have hstring : imported.redis.string imported.clock (launchWalletKey (some "alice")) =
      some (Json.stringify (bytesJson alice.secretKey)) := rfl
  have hne : Json.stringify (bytesJson alice.secretKey) ≠ "" := by
    intro he
    have hparse := parse_bytesJson alice.secretKey
    rw [he] at hparse
    cases hparse
  rw [launchKeyOf, hstring, readKeypair_bytesJson, Option.getD_some, if_neg hne]
  rfl

/-- A supply that does not fit into 64 bits with nine decimals. -/
def tooMany : LaunchCall :=
  .launchTokenInternal (.obj [("decimals", .num 9), ("supply", .num 100000000000)]) (some "alice")

/-- It reaches the chain. -/
theorem tooMany_reaches :
    ¬ ReachesUsable tooMany ((tooMany.prog env).trace (alone .agent working) (imported, ())) := by
  intro hreaches
  obtain ⟨α, rest, s, hmem⟩ := @LaunchCall.gets_to_minting env .agent tooMany imported alice rfl
    launchKeyOf_imported
  have hcreated := (@mem_trace_minting Unit .agent working α alice tooMany.decimals
    (mintAmount tooMany.supply tooMany.decimals) rest _ _ (fun _ => rfl) (fun _ => rfl) s).1
  obtain ⟨d, n, husable⟩ := hreaches.created _ _ (hmem _ hcreated)
  have hd : (9 : ℚ) = d := Json.num.inj (Option.some.inj husable.decimals)
  have hn : (100000000000 : ℚ) = n := Json.num.inj (Option.some.inj husable.supply)
  have hfits := husable.fits
  obtain rfl : 9 = d := by exact_mod_cast hd
  obtain rfl : 100000000000 = n := by exact_mod_cast hn
  norm_num at hfits

end Sample

/-! ## Pools -/

/-- A request for a pool for the token that was created, with the same supply. -/
def poolRequest (l : LaunchCall) (created : Answer) (pool : List (String × Json)) : Json :=
  .obj (pool ++ definedProps [("tokenAMint", created.2.field "mint"), ("supply", l.supply)])

/-- A launch with its pool.  `POST /create-token` is followed by `POST /create-pool`. -/
def LaunchCall.withPool (env : Env) (pool : List (String × Json)) : LaunchCall → Prog Unit
  | .createToken body userId =>
      (Nexus.createToken env body userId).bind fun created =>
        (createPool env (some (poolRequest (.createToken body userId) created pool)) userId).bind
          fun _ => .ret ()
  | l => l.prog env

/-- The number in a field of the parameters of a pool. -/
def poolNumber (pool : List (String × Option Json)) (key : String) : Number :=
  Json.toNumber (pool.lookup key).join

/-- The pool fits a token with `d` decimals of which so many base units were issued. -/
structure Fits (pool : List (String × Option Json)) (d : Nat) (issued : Number) : Prop where
  decimals : poolNumber pool "decimals" = some (d : ℚ)
  supply : poolNumber pool "supply" = issued
  shares : ∀ sell locked supply, poolNumber pool "totalSellA" = some sell →
    poolNumber pool "totalLockedAmount" = some locked → poolNumber pool "supply" = some supply →
    sell ≤ supply → sell + locked ≤ supply

/-- What a launch tells of its token: what it issues and what its pool is told. -/
def Cmd.poolsAs (l : LaunchCall) : Cmd → Prop
  | .mintTo _ _ _ x => x = mintAmount l.supply l.decimals
  | .createLaunchpadPool _ pool _ _ => poolNumber pool "supply" = Json.toNumber l.supply ∧
      poolNumber pool "totalLockedAmount" = Json.toNumber l.supply ∧
      (poolNumber pool "totalSellA" = Json.toNumber l.supply ∨ poolNumber pool "decimals" = some 6)
  | _ => True

theorem poolsAs_mintsAs {l : LaunchCall} {decimals totalSellA : Option Json}
    (hpool : totalSellA = l.supply ∨ decimals = some (.num 6)) {c : Cmd}
    (hc : c.mintsAs decimals l.supply totalSellA (mintAmount l.supply l.decimals)) :
    c.poolsAs l := by
  cases c with
  | mintTo => exact hc
  | createLaunchpadPool kp pool config program =>
      obtain ⟨hdecimals, hsupply, hsell, hlocked⟩ := hc
      have hfield : ∀ {key : String} {x : Option Json}, pool.lookup key = some x →
          poolNumber pool key = Json.toNumber x := fun h => by rw [poolNumber, h]; rfl
      refine ⟨hfield hsupply, hfield hlocked, ?_⟩
      rcases hpool with rfl | rfl
      · exact .inl (hfield hsell)
      · exact .inr (hfield hdecimals)
  | _ => trivial

theorem field_poolRequest {l : LaunchCall} (created : Answer) (pool : List (String × Json))
    {v : Json} (hv : l.supply = some v) : (poolRequest l created pool).field "supply" = some v := by
  have hprops : definedProps [("tokenAMint", created.2.field "mint"), ("supply", l.supply)] =
      definedProps [("tokenAMint", created.2.field "mint")] ++ [("supply", v)] := by
    rw [hv]
    cases created.2.field "mint" with
    | none => rfl
    | some _ => rfl
  rw [poolRequest, hprops, ← List.append_assoc]
  simp [Json.field]

theorem poolsAs_createPool {env : Env} {l : LaunchCall} (created : Answer)
    (pool : List (String × Json)) (userId : String) {v : Json} (hv : l.supply = some v) :
    (createPool env (some (poolRequest l created pool)) userId).Issues (Cmd.poolsAs l) := by
  have hmints : (createPool env (some (poolRequest l created pool)) userId).Issues (Cmd.mintsAs
      (some (.num 6)) ((poolRequest l created pool).field "supply")
      ((poolRequest l created pool).field "totalSellA") (mintAmount l.supply l.decimals)) :=
    mintsAs_createPool userId
  rw [field_poolRequest created pool hv, ← hv] at hmints
  exact Prog.issues_mono (fun _ => poolsAs_mintsAs (.inr rfl)) hmints

/-- What a launch with its pool tells of its token. -/
theorem LaunchCall.poolsAs (env : Env) {l : LaunchCall} (pool : List (String × Json)) {v : Json}
    (hv : l.supply = some v) : (l.withPool env pool).Issues (Cmd.poolsAs l) := by
  cases l with
  | createToken body userId =>
      have htoken : ∀ c : Cmd, c.mintsAs (LaunchCall.createToken body userId).decimals
          (LaunchCall.createToken body userId).supply (LaunchCall.createToken body userId).supply _ →
          c.poolsAs (.createToken body userId) := fun _ => poolsAs_mintsAs (.inl rfl)
      refine Prog.issues_bind (Prog.issues_mono htoken (mintsAs_createToken body userId))
        fun created => ?_
      exact Prog.issues_bind (poolsAs_createPool created pool userId hv) fun _ => .ret _
  | launchTokenInternal | launchToken =>
      exact Prog.issues_mono (fun _ => poolsAs_mintsAs (.inl rfl)) (LaunchCall.mintsAs env _)

/-- More is issued than the supply, for a token with decimals. -/
theorem lt_mintAmount {supply decimals : Option Json} {q : ℚ}
    (hsupply : Json.toNumber supply = some q) (hpos : 0 < q)
    (hdecimals : Json.toNumber decimals = some 6) :
    ∃ x, mintAmount supply decimals = some x ∧ q < x := by
  have hten : (tenTo (some 6)).held = some 1000000 := by
    have hcast : tenTo (some 6) = some ((10 ^ 6 : Nat) : ℚ) := tenTo_natCast 6
    rw [hcast, Number.held_natCast, Number.round_of_lt (by norm_num)]
    norm_num
  obtain ⟨y, hy, hqy⟩ := Number.held_pos hpos
  obtain ⟨x, hx, hyx⟩ := Number.held_pos (show 0 < y * 1000000 by linarith)
  refine ⟨x, ?_, by linarith⟩
  rw [mintAmount, hsupply, hdecimals, hy, hten]
  exact hx

/-- No pool fits the token it is for. -/
theorem pools_never_fit (env : Env) {τ : Type} (p : Pid) (strat : (c : Cmd) → τ → c.Ans × τ)
    (l : LaunchCall) (request : List (String × Json)) (s : St × τ) {q : ℚ} {d : Nat}
    (hsupply : Json.toNumber l.supply = some q) (hpos : 0 < q)
    (hdecimals : Json.toNumber l.decimals = some (d : ℚ)) {kp : Keypair}
    {pool : List (String × Option Json)} {config : List (String × Json)} {program : PublicKey}
    (hpool : .createLaunchpadPool kp pool config program ∈
      (l.withPool env request).trace (alone p strat) s)
    {payer : Keypair} {mint account : PublicKey} {issued : Number}
    (hissued : .mintTo payer mint account issued ∈
      (l.withPool env request).trace (alone p strat) s) :
    ¬ Fits pool d issued := by
  rintro ⟨hfd, hfs, hshares⟩
  obtain ⟨v, hv⟩ : ∃ v, l.supply = some v := by
    cases hl : l.supply with
    | some v => exact ⟨v, rfl⟩
    | none =>
        rw [hl] at hsupply
        cases hsupply
  have hissues := LaunchCall.poolsAs env request hv
  obtain ⟨htotal, hlocked, hside⟩ := hissues.trace _ hpool
  obtain rfl : issued = _ := hissues.trace _ hissued
  rw [hsupply] at htotal hlocked hside
  rcases hside with hsell | hsix
  · have hle := hshares q q q hsell hlocked htotal le_rfl
    linarith
  · rw [hsix] at hfd
    rw [← hfd] at hdecimals
    obtain ⟨x, hx, hlt⟩ := lt_mintAmount hsupply hpos hdecimals
    rw [htotal, hx] at hfs
    exact hlt.ne (Option.some.inj hfs)

namespace Sample

/-- The command creates a pool for a million tokens. -/
def millionPool : Cmd → Bool
  | .createLaunchpadPool _ pool _ _ => decide (poolNumber pool "supply" = some 1000000 ∧
      poolNumber pool "totalSellA" = some 1000000 ∧
      poolNumber pool "totalLockedAmount" = some 1000000)
  | _ => false

/-- The command issues a million tokens with six decimals. -/
def millionIssued : Cmd → Bool
  | .mintTo _ _ _ x => decide (x = some 1000000000000)
  | _ => false

def millionLaunch : LaunchCall := .launchTokenInternal launchParams (some "alice")

theorem launchKeypair_imported :
    (launchKeypair env (some "alice")).run (alone .agent working) (imported, ()) =
      (.ok alice, (imported, ())) := by
  have hread : (tryRedis (.get (launchWalletKey (some "alice")))).run (alone .agent working)
      (imported, ()) = (.ok (some (Json.stringify (bytesJson alice.secretKey))), (imported, ())) :=
    run_tryRedis_ok .agent imported rfl
  have hne : Json.stringify (bytesJson alice.secretKey) ≠ "" := by
    intro he
    have hparse := parse_bytesJson alice.secretKey
    rw [he] at hparse
    cases hparse
  have hkey : env.keypair alice.secretKey = .ok alice := by decide
  rw [launchKeypair, Prog.bind_eq, Prog.run_bind_ok hread, Option.getD_some, if_neg hne,
    readKeypair_bytesJson, hkey]
  rfl

/-- What is left of the launch once the key pair is there. -/
theorem millionLaunch_eq : ∃ rest : Keypair → Prog Launched,
    millionLaunch.withPool env [] =
      ((launchKeypair env (some "alice")).bind rest).bind (fun _ => .ret ()) ∧
    ((rest alice).trace (alone .agent working) (imported, ())).any millionPool = true ∧
    ((rest alice).trace (alone .agent working) (imported, ())).any millionIssued = true := by
  refine ⟨_, rfl, ?_⟩
  decide +kernel

/-- Both are done in one launch. -/
theorem millionLaunch_trace : ∃ kp pool config program payer mint account,
    .createLaunchpadPool kp pool config program ∈
      (millionLaunch.withPool env []).trace (alone .agent working) (imported, ()) ∧
    .mintTo payer mint account (some 1000000000000) ∈
      (millionLaunch.withPool env []).trace (alone .agent working) (imported, ()) ∧
    poolNumber pool "supply" = some 1000000 ∧ poolNumber pool "totalSellA" = some 1000000 ∧
      poolNumber pool "totalLockedAmount" = some 1000000 := by
  obtain ⟨rest, heq, hany⟩ := millionLaunch_eq
  have hmem : ∀ c ∈ (rest alice).trace (alone .agent working) (imported, ()),
      c ∈ (millionLaunch.withPool env []).trace (alone .agent working) (imported, ()) := by
    intro c hc
    rw [heq]
    exact Prog.mem_trace_bind (Prog.mem_trace_bind_ok launchKeypair_imported hc)
  obtain ⟨c, hc, hpool⟩ := List.any_eq_true.mp hany.1
  obtain ⟨c', hc', hissued⟩ := List.any_eq_true.mp hany.2
  cases c with
  | createLaunchpadPool kp pool config program =>
      cases c' with
      | mintTo payer mint account x =>
          obtain rfl := of_decide_eq_true hissued
          exact ⟨kp, pool, config, program, payer, mint, account, hmem _ hc, hmem _ hc',
            of_decide_eq_true hpool⟩
      | _ => cases hissued
  | _ => cases hpool

/-- A million tokens with six decimals are issued.  The pool is told of a million base units, and
may sell all of them while all are locked. -/
theorem pool_oversold : ∃ kp pool config program payer mint account,
    .createLaunchpadPool kp pool config program ∈
      (millionLaunch.withPool env []).trace (alone .agent working) (imported, ()) ∧
    .mintTo payer mint account (some 1000000000000) ∈
      (millionLaunch.withPool env []).trace (alone .agent working) (imported, ()) ∧
    poolNumber pool "supply" = some 1000000 ∧ ¬ Fits pool 6 (some 1000000000000) := by
  obtain ⟨kp, pool, config, program, payer, mint, account, hpool, hissued, hsupply, hsell, hlocked⟩ :=
    millionLaunch_trace
  refine ⟨kp, pool, config, program, payer, mint, account, hpool, hissued, hsupply, fun hfits => ?_⟩
  have hle := hfits.shares _ _ _ hsell hlocked hsupply le_rfl
  norm_num at hle

/-- The same launch, as one of those no pool of which fits. -/
theorem millionLaunch_never_fits : ∃ kp pool config program payer mint account,
    .createLaunchpadPool kp pool config program ∈
      (millionLaunch.withPool env []).trace (alone .agent working) (imported, ()) ∧
    .mintTo payer mint account (some 1000000000000) ∈
      (millionLaunch.withPool env []).trace (alone .agent working) (imported, ()) ∧
    ¬ Fits pool 6 (some 1000000000000) := by
  obtain ⟨kp, pool, config, program, payer, mint, account, hpool, hissued, -⟩ := millionLaunch_trace
  exact ⟨kp, pool, config, program, payer, mint, account, hpool, hissued,
    pools_never_fit env .agent working millionLaunch [] (imported, ()) (q := 1000000) (d := 6) rfl
      (by norm_num) rfl hpool hissued⟩

end Sample

end Nexus
