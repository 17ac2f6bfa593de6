import NexusErebus.Async.Stages
import NexusErebus.LauncherServer
import NexusErebus.Trades

/-!
# Launches

Two programs launch tokens, `launchTokenInternal` in the agent and `POST /launch-token` of the
launcher server.

* Neither finds the key of a user.  The store of users keeps it encrypted in the hash
  `user:<handle>`, the launchers look for a string under `wallet:<handle>`
  (`launchers_never_find_key`).
* Where a key is found, a launch is a sequence of steps, and nothing takes back what the earlier
  ones did when a later one fails.  It is atomic if and only if the mint is not created, or every
  step after it succeeds (`launch_atomic_iff`).
-/

namespace Nexus

open Async Text

/-! ## The key pair of a launch -/

/-- The key pair a command signs with. -/
def Cmd.signer : Cmd → Option Keypair
  | .createMint payer _ => some payer
  | .getOrCreateAssociatedTokenAccount payer _ _ => some payer
  | .mintTo payer _ _ _ => some payer
  | .createLaunchpadPool wallet _ _ _ => some wallet
  | .buyLaunchpadToken wallet _ _ _ _ => some wallet
  | .sellLaunchpadToken wallet _ _ _ _ => some wallet
  | .sendAndConfirmTransaction _ signer => some signer
  | .sendAndConfirmRawTransaction tx _ => some tx.signer
  | _ => none

/-- Nothing is signed. -/
def Cmd.unsigned (c : Cmd) : Prop := c.signer = none

section

variable {τ : Type} {env : Env} {p : Pid} {strat : (c : Cmd) → τ → c.Ans × τ} {α : Type}

theorem unsigned_asks {h : Str} {c : Cmd} (hc : c.asks h) : c.unsigned := by
  cases c with
  | createMint | getOrCreateAssociatedTokenAccount | mintTo | createLaunchpadPool
  | buyLaunchpadToken | sellLaunchpadToken | sendAndConfirmTransaction
  | sendAndConfirmRawTransaction => cases hc
  | _ => rfl

theorem unsigned_onError : (onError env).Issues Cmd.unsigned :=
  issues_incident fun _ hc => unsigned_asks (h := none) (asks_of_aside hc)

theorem unsigned_launchKeypair (userId : Str) : (launchKeypair env userId).Issues Cmd.unsigned :=
  issues_launchKeypair fun _ => unsigned_asks

variable (env p strat) in
/-- `onError` returns. -/
theorem onError_run (s : St × τ) : ∃ s', (onError env).run (alone p strat) s = (.ok (), s') :=
  ⟨_, rfl⟩

variable (env p strat) in
/-- A user without a string under the key of the launchers. -/
theorem launchKeypair_absent {st : St} {userId : Str} (t : τ)
    (h : st.redis.string st.clock (launchWalletKey userId) = none) :
    ∃ e s', (launchKeypair env userId).run (alone p strat) (st, t) = (.error e, s') ∧
      ((strat (.tryRedis (.get (launchWalletKey userId))) t).1 = none →
        e = .new "Wallet not found") := by
  cases hans : (strat (.tryRedis (.get (launchWalletKey userId))) t).1 with
  | some e =>
      refine ⟨e, _, Prog.run_bind_error (run_tryRedis_error p st hans), fun hno => ?_⟩
      cases hno
  | none =>
      have hget := run_tryRedis_ok p st hans
      rw [show (Redis.exec st.clock (.get (launchWalletKey userId)) st.redis).1 = none from h]
        at hget
      obtain ⟨s', hrun⟩ := onError_run env p strat (st.onRedis (.get (launchWalletKey userId)),
        (strat (.tryRedis (.get (launchWalletKey userId))) t).2)
      refine ⟨.new "Wallet not found", s', ?_, fun _ => rfl⟩
      rw [launchKeypair, Prog.bind_eq, Prog.run_bind_ok hget]
      exact Prog.run_bind_ok hrun

variable (env) in
/-- An endpoint reports its error. -/
theorem endpoint_error {q : Prog Answer} {e : Err} {s s' : St × τ}
    (h : q.run (alone p strat) s = (.error e, s')) :
    ∃ s'', (endpoint env q).run (alone p strat) s = (.ok (errorAnswer 500 e.message), s'') := by
  rw [endpoint, Prog.run_tryCatch, h]
  exact ⟨_, rfl⟩

/-- What comes after an error is not run. -/
theorem unsigned_trace_bind {α β : Type} {q : Prog α} {f : α → Prog β} {e : Err} {s s' : St × τ}
    (h : q.run (alone p strat) s = (.error e, s')) (hq : q.Issues Cmd.unsigned) :
    ∀ c ∈ (q.bind f).trace (alone p strat) s, c.unsigned := by
  rw [Prog.trace_bind, h, List.append_nil]
  exact hq.trace

/-- Whatever an endpoint signs, its body does. -/
theorem mem_trace_endpoint {q : Prog Answer} {s : St × τ} {c : Cmd} (hsigned : ¬ c.unsigned)
    (hc : c ∈ (endpoint env q).trace (alone p strat) s) : c ∈ q.trace (alone p strat) s := by
  rw [endpoint, Prog.trace_tryCatch] at hc
  rcases List.mem_append.mp hc with hc | hc
  · exact hc
  · split at hc
    next => cases hc
    next e s' _ =>
      have hcatch : (do onError env; return errorAnswer 500 e.message : Prog Answer).Issues
        Cmd.unsigned := Prog.issues_bind unsigned_onError fun _ => .ret _
      exact absurd (hcatch.trace c hc) hsigned

theorem unsigned_trace_endpoint {q : Prog Answer} {s : St × τ}
    (hq : ∀ c ∈ q.trace (alone p strat) s, c.unsigned) :
    ∀ c ∈ (endpoint env q).trace (alone p strat) s, c.unsigned := by
  intro c hc
  by_contra hsigned
  exact hsigned (hq c (mem_trace_endpoint hsigned hc))

variable (env p strat) in
/-- A user without a string under the key of the launchers gets an error from every endpoint that
reads the request and loads the key. -/
theorem endpoint_absent {st : St} {h : String} (t : τ) (body : Option Json) (key : String)
    (f : Json → Keypair → Prog Answer)
    (hnone : st.redis.string st.clock (launchWalletKey (some h)) = none) :
    let q := endpoint env ((requestBody body key).bind fun body =>
      (await (getUserKP env h)).bind (f body))
    (∀ c ∈ q.trace (alone p strat) (st, t), c.unsigned) ∧
      ∃ e : Err, (q.run (alone p strat) (st, t)).1 = .ok (errorAnswer 500 e.message) ∧
        ((strat (.tryRedis (.get (launchWalletKey (some h)))) t).1 = none →
          Json.nullish body = false → e = .new "Wallet not found") := by
  intro q
  rcases requestBody_cases body key with ⟨hbody, e, hthrow⟩ | ⟨hbody, v, -, hret⟩
  · have hrun : ((requestBody body key).bind fun body =>
        (await (getUserKP env h)).bind (f body)).run (alone p strat) (st, t) =
          (.error e, (st, t)) := by
      rw [hthrow]
      rfl
    obtain ⟨s', hend⟩ := endpoint_error env hrun
    refine ⟨unsigned_trace_endpoint ?_, e, by rw [hend], fun _ hno => ?_⟩
    · rw [hthrow]
      exact fun c hc => by cases hc
    · cases hbody.symm.trans hno
  · obtain ⟨e, s', hkey, he⟩ := launchKeypair_absent env p strat t hnone
    have hawait : (await (getUserKP env h)).run (alone p strat) (st, t) = (.error e, s') :=
      Prog.run_bind_error hkey
    obtain ⟨s'', hend⟩ := endpoint_error env (Prog.run_bind_error (f := f v) hawait)
    refine ⟨unsigned_trace_endpoint ?_, e, ?_, fun hans _ => he hans⟩
    · have hissues : (await (getUserKP env h)).Issues Cmd.unsigned :=
        issues_await rfl (unsigned_launchKeypair _)
      rw [hret, Prog.ret_bind]
      exact unsigned_trace_bind hawait hissues
    · simp only [q, hret, Prog.ret_bind, hend]

variable (env p strat) in
theorem Endpoint.absent {st : St} {h : String} (t : τ) (body : Option Json) (e : Endpoint)
    (hnone : st.redis.string st.clock (launchWalletKey (some h)) = none) :
    (∀ c ∈ (e.body env body h).trace (alone p strat) (st, t), c.unsigned) ∧
      ∃ err : Err, ((e.body env body h).run (alone p strat) (st, t)).1 =
          .ok (errorAnswer 500 err.message) ∧
        ((strat (.tryRedis (.get (launchWalletKey (some h)))) t).1 = none →
          Json.nullish body = false → err = .new "Wallet not found") := by
  cases e with
  | createToken => exact endpoint_absent env p strat t body "decimals" _ hnone
  | createPool => exact endpoint_absent env p strat t body "tokenAMint" _ hnone
  | buyToken => exact endpoint_absent env p strat t body "poolId" _ hnone
  | sellToken => exact endpoint_absent env p strat t body "poolId" _ hnone
  | launchToken => exact endpoint_absent env p strat t body "decimals" _ hnone

/-! ## The store of users -/

theorem keepsStrings_run (c : StoreCall) :
    (c.run env).Issues fun c : Cmd => c.writesString = false := by
  have hencrypt : ∀ buf, (encrypt env buf).Issues fun c : Cmd => c.writesString = false :=
    fun buf => Prog.issues_bind (issues_ask rfl) fun _ => .ret _
  cases c with
  | setWalletSecret h secret =>
      exact Prog.issues_bind (hencrypt _) fun _ => Prog.issues_bind (issues_redis rfl) fun _ =>
        issues_redis rfl
  | upsertUser h a =>
      have hchat : ∀ key data, (upsertChatId key data).Issues fun c : Cmd =>
          c.writesString = false := by
        intro key data
        unfold upsertChatId
        split
        · exact Prog.issues_bind (issues_redis rfl) fun _ => .ret _
        · exact .ret _
      have hwallet : ∀ data, (upsertWallet env data).Issues fun c : Cmd =>
          c.writesString = false := by
        intro data
        unfold upsertWallet
        split
        · split
          · exact .ret _
          · exact Prog.issues_bind (hencrypt _) fun _ => .ret _
        · exact .ret _
      refine Prog.issues_bind (hchat _ _) fun data => Prog.issues_bind (hwallet _) fun data => ?_
      refine Prog.issues_bind (issues_redis rfl) fun _ => ?_
      split
      · exact .ret _
      · exact issues_redis rfl

variable (env p strat) in
/-- The store of users writes no strings. -/
theorem storeAfter_string (calls : List StoreCall) (s : St × τ) (now : Nat) (key : String) :
    (storeAfter env p strat calls s).1.redis.string now key = none := by
  have hstrings : (storeAfter env p strat calls s).1.redis.strings = fun _ => none :=
    Prog.Issues.run_inv (I := fun s : St × τ => s.1.redis.strings = fun _ => none)
      (fun c s hc hs => (exec_strings p c s.1 _ hc).trans hs)
      (Prog.issues_forEach fun c _ => keepsStrings_run c) rfl
  simp [Redis.Store.string, hstrings]

end

/-- The launchers never sign with the key the store holds.  After any calls of its writers the
store returns the key of a user, and every launcher stops for want of one. -/
theorem launchers_never_find_key (env : Env) {τ : Type} (p q : Pid)
    (strat : (c : Cmd) → τ → c.Ans × τ) (s : St × τ) (calls : List StoreCall) (h : String)
    (K : Bytes) (hK : (accountsAfter calls h).bind Account.secret = some K) :
    ((getWalletSecret env (some h)).run (alone q strat) (storeAfter env p strat calls s)).1 =
        .ok (some K) ∧
      (∀ params, (∀ c ∈ (launchTokenInternal env params (some h)).trace (alone q strat)
            (storeAfter env p strat calls s), c.unsigned) ∧
          ∃ e : Err, ((launchTokenInternal env params (some h)).run (alone q strat)
              (storeAfter env p strat calls s)).1 = .error e ∧
            ((strat (.tryRedis (.get (launchWalletKey (some h))))
              (storeAfter env p strat calls s).2).1 = none → e = .new "Wallet not found")) ∧
      ∀ (endpoint : Endpoint) (body : Option Json),
        (∀ c ∈ (endpoint.body env body h).trace (alone q strat) (storeAfter env p strat calls s),
            c.unsigned) ∧
          ∃ e : Err, ((endpoint.body env body h).run (alone q strat)
              (storeAfter env p strat calls s)).1 = .ok (errorAnswer 500 e.message) ∧
            ((strat (.tryRedis (.get (launchWalletKey (some h))))
              (storeAfter env p strat calls s).2).1 = none → Json.nullish body = false →
              e = .new "Wallet not found") := by
  have hnone := storeAfter_string env p strat calls s (storeAfter env p strat calls s).1.clock
    (launchWalletKey (some h))
  refine ⟨?_, fun params => ?_, fun e body => ?_⟩
  · obtain ⟨s', hrun, hr⟩ := forEach_refines env p strat calls s.1 s.2
    have hs : storeAfter env p strat calls s = s' := congrArg Prod.snd hrun
    rw [hs, getWalletSecret_refines hr, hK]
  · obtain ⟨e, s', hkey, he⟩ := launchKeypair_absent env q strat
      (storeAfter env p strat calls s).2 hnone
    exact ⟨unsigned_trace_bind hkey (unsigned_launchKeypair _), e,
      congrArg Prod.fst (Prog.run_bind_error hkey), he⟩
  · exact e.absent env q strat _ body hnone

theorem launchers_alice :
    ((getWalletSecret Sample.env (some "alice")).run (alone .agent Sample.unplugged)
        Sample.aliceStored).1 = .ok (some Sample.alice.secretKey) ∧
      ∀ params, ∃ e : Err, ((launchTokenInternal Sample.env params (some "alice")).run
        (alone .agent Sample.unplugged) Sample.aliceStored).1 = .error e := by
  obtain ⟨hsecret, hinternal, -⟩ := launchers_never_find_key Sample.env .api .agent Sample.unplugged
    (St.fresh Sample.env 0, ()) [.setWalletSecret "alice" Sample.alice.secretKey] "alice"
    Sample.alice.secretKey rfl
  refine ⟨hsecret, fun params => ?_⟩
  obtain ⟨-, e, he, -⟩ := hinternal params
  exact ⟨e, he⟩

/-- The key of `alice` is in the store and opens, and both launchers say that there is none. -/
theorem wallet_not_found :
    HoldsSecret Sample.env (Sample.aliceStored.1.redis.hashes (userKey (some "alice")))
        (some Sample.alice.secretKey) ∧
      Sample.env.keypair Sample.alice.secretKey = .ok Sample.alice ∧
      (∀ params, ((launchTokenInternal Sample.env params (some "alice")).run
        (alone .agent Sample.unplugged) Sample.aliceStored).1 = .error (.new "Wallet not found")) ∧
      ∀ e : Endpoint, ((e.body Sample.env (some (.obj [])) "alice").run
        (alone .launcher Sample.unplugged) Sample.aliceStored).1 =
          .ok (errorAnswer 500 "Wallet not found") := by
  have hnone := storeAfter_string Sample.env .api Sample.unplugged
    [.setWalletSecret "alice" Sample.alice.secretKey] (St.fresh Sample.env 0, ())
    Sample.aliceStored.1.clock (launchWalletKey (some "alice"))
  refine ⟨Sample.holdsSecret_aliceStored, rfl, fun params => ?_, fun e => ?_⟩
  · obtain ⟨e, s', hkey, he⟩ := launchKeypair_absent Sample.env .agent Sample.unplugged () hnone
    rw [he rfl] at hkey
    exact congrArg Prod.fst (Prog.run_bind_error hkey)
  · obtain ⟨-, err, herr, hmsg⟩ := e.absent Sample.env .launcher Sample.unplugged ()
      (some (.obj [])) hnone
    rw [hmsg rfl rfl] at herr
    exact herr

/-! ## The steps of a launch -/

/-- What a launch leaves behind. -/
inductive LaunchEffect where
  | minted | issued | stored | pooled
  deriving DecidableEq, Repr

/-- The effect of a command that succeeded. -/
def launchEffect : ((c : Cmd) × c.Res) → Option LaunchEffect
  | ⟨.createMint _ _, .ok _⟩ => some .minted
  | ⟨.mintTo _ _ _ _, .ok _⟩ => some .issued
  | ⟨.tryRedis (.hset _ _), .ok _⟩ => some .stored
  | ⟨.sendAndConfirmTransaction _ _, .ok _⟩ => some .pooled
  | _ => none

/-- How the external steps of a launch end.  Everything else is up to a strategy. -/
structure Externals (τ : Type) where
  get : Option Err
  createMint : Except Err PublicKey
  account : Except Err PublicKey
  mintTo : Except Err Unit
  /-- The answer of the language model. -/
  description : Except Err Response
  /-- The answer of the image service. -/
  image : Except Err Response
  hSet : Option Err
  createPool : Except Err String
  confirm : Except Err String
  rest : (c : Cmd) → τ → c.Ans × τ

/-- A request is answered with a status of success, and with what is wanted. -/
def answered (want : Response → Bool) : Except Err Response → Bool
  | .ok res => res.ok && want res
  | .error _ => false

namespace Externals

variable {τ : Type} (x : Externals τ)

/-- The environment in which the steps end so. -/
def strat : (c : Cmd) → τ → c.Ans × τ
  | .tryRedis (.get _), t => (x.get, t)
  | .tryRedis (.hset _ _), t => (x.hSet, t)
  | .createMint _ _, t => (x.createMint, t)
  | .getOrCreateAssociatedTokenAccount _ _ _, t => (x.account, t)
  | .mintTo _ _ _ _, t => (x.mintTo, t)
  | .fetch ⟨_, _, .form _⟩, t => (x.image, t)
  | .fetch _, t => (x.description, t)
  | .createLaunchpadPool _ _ _ _, t => (x.createPool, t)
  | .sendAndConfirmTransaction _ _, t => (x.confirm, t)
  | c, t => x.rest c t

/-- The image service sends an image. -/
def drawn : Bool := answered (fun _ => true) x.image

/-- The language model sends a description. -/
def described : Bool :=
  answered (fun res => match (Json.parse res.body).bind (Json.field "response") with
    | some (.str _) => true
    | _ => false) x.description

/-- The key pair is found. -/
def keyFound (env : Env) (st : St) (userId : Str) : Bool :=
  x.get.isNone && (st.redis.string st.clock (launchWalletKey userId)).getD "" ≠ "" &&
    (readKeypair env (st.redis.string st.clock (launchWalletKey userId))).isOk

/-- The step that creates the mint. -/
def mintStage : Stage LaunchEffect := ⟨x.createMint.isOk, some .minted⟩

/-- The steps after the mint. -/
def afterMint (params : Json) (logo : Bool) : List (Stage LaunchEffect) :=
  [⟨x.account.isOk, none⟩, ⟨x.mintTo.isOk, some .issued⟩, ⟨logo, none⟩,
    ⟨(hSetArg (params.field "tokenName")).isOk, none⟩, ⟨x.hSet.isNone, some .stored⟩,
    ⟨(newPublicKey (params.field "tokenBMint")).isOk, none⟩, ⟨x.createPool.isOk, none⟩,
    ⟨x.confirm.isOk, some .pooled⟩]

end Externals

section

variable {τ : Type} {env : Env} {p : Pid} {x : Externals τ} {α : Type}

/-- The commands that leave nothing behind. -/
def Cmd.traceless : Cmd → Prop
  | .createMint _ _ | .mintTo _ _ _ _ | .tryRedis (.hset _ _) | .sendAndConfirmTransaction _ _ =>
      False
  | _ => True

theorem launchEffect_traceless (c : Cmd) (r : c.Res) (h : c.traceless) :
    launchEffect ⟨c, r⟩ = none := by
  cases c with
  | createMint | mintTo | sendAndConfirmTransaction => exact h.elim
  | tryRedis c =>
      cases c with
      | hset => exact h.elim
      | _ => rfl
  | _ => rfl

/-- A program runs through some stages of a launch. -/
abbrev Launches (p : Pid) (x : Externals τ) (q : Prog α) (s : St × τ)
    (xs : List (Stage LaunchEffect)) : Prop :=
  q.Follows (alone p x.strat) launchEffect s xs

/-- A command that fails throws its error. -/
theorem launches_attempt {q : Prog (Except Err α)} {r : Except Err α} {s s' : St × τ}
    {effect : Option LaunchEffect} (hrun : q.run (alone p x.strat) s = (.ok r, s'))
    (hlog : (q.log (alone p x.strat) s).filterMap launchEffect =
      if r.isOk then effect.toList else []) :
    Launches p x (attempt q) s [⟨r.isOk, effect⟩] := by
  have hlog' : ((attempt q).log (alone p x.strat) s).filterMap launchEffect =
      if r.isOk then effect.toList else [] := by
    rw [attempt, Prog.log_bind, hrun, List.filterMap_append, hlog]
    cases r with
    | ok a => simp [Prog.ofExcept, Prog.log]
    | error e => simp [Prog.ofExcept, Prog.log]
  unfold Launches Prog.Follows
  rw [hlog', attempt, Prog.run_bind_ok hrun, Prog.run_ofExcept]
  cases r with
  | ok a => simp [Stage.outcome, Except.isOk, Except.toBool]
  | error e => simp [Stage.outcome, Except.isOk, Except.toBool]

theorem launches_ofExcept (r : Except Err α) (s : St × τ) :
    Launches p x (.ofExcept r) s [⟨r.isOk, none⟩] := by
  have hf : Launches p x (.ofExcept r) s _ :=
    Prog.follows_quiet launchEffect_traceless (Prog.issues_ofExcept r)
  rwa [Prog.run_ofExcept] at hf

/-- A program that leaves nothing behind is a step without an effect. -/
theorem launches_traceless {q : Prog α} (hq : q.Issues Cmd.traceless) {s s' : St × τ}
    {r : Except Err α} (hrun : q.run (alone p x.strat) s = (r, s')) {ok : Bool} (hok : r.isOk = ok) :
    Launches p x q s [⟨ok, none⟩] := by
  have hf : Launches p x q s _ := Prog.follows_quiet launchEffect_traceless hq
  rwa [hrun, hok] at hf

theorem traceless_asks {h : Str} {c : Cmd} (hc : c.asks h) : c.traceless := by
  cases c with
  | tryRedis c => cases hc; trivial
  | createMint | mintTo | sendAndConfirmTransaction => cases hc
  | _ => trivial

theorem traceless_aside {c : Cmd} (hc : c.aside) : c.traceless :=
  traceless_asks (h := none) (asks_of_aside hc)

theorem traceless_onError : (onError env).Issues Cmd.traceless :=
  issues_incident fun _ => traceless_aside

theorem traceless_launchKeypair (userId : Str) :
    (launchKeypair env userId).Issues Cmd.traceless :=
  issues_launchKeypair fun _ => traceless_asks

theorem launches_launchKeypair (userId : Str) (st : St) (t : τ) :
    Launches p x (launchKeypair env userId) (st, t) [⟨x.keyFound env st userId, none⟩] := by
  have hans : (x.strat (.tryRedis (.get (launchWalletKey userId))) t).1 = x.get := rfl
  cases hget : x.get with
  | some e =>
      have hrun : (launchKeypair env userId).run (alone p x.strat) (st, t) = (.error e, (st, t)) :=
        Prog.run_bind_error (run_tryRedis_error p st (hans.trans hget))
      exact launches_traceless (traceless_launchKeypair userId) hrun
        (by simp [Externals.keyFound, hget, Except.isOk, Except.toBool])
  | none =>
      have hread := run_tryRedis_ok p st (hans.trans hget)
      by_cases hempty : (st.redis.string st.clock (launchWalletKey userId)).getD "" = ""
      · obtain ⟨s', hs⟩ := onError_run env p x.strat
          (st.onRedis (.get (launchWalletKey userId)), t)
        have hrun : (launchKeypair env userId).run (alone p x.strat) (st, t) =
            (.error (.new "Wallet not found"), s') := by
          rw [launchKeypair, Prog.bind_eq, Prog.run_bind_ok hread]
          simp only [Redis.exec, hempty, if_true]
          exact Prog.run_bind_ok hs
        exact launches_traceless (traceless_launchKeypair userId) hrun
          (by simp [Externals.keyFound, hempty, Except.isOk, Except.toBool])
      · have hrun : (launchKeypair env userId).run (alone p x.strat) (st, t) =
            (readKeypair env (st.redis.string st.clock (launchWalletKey userId)),
              (st.onRedis (.get (launchWalletKey userId)), t)) := by
          rw [launchKeypair, Prog.bind_eq, Prog.run_bind_ok hread]
          simp only [Redis.exec, hempty, if_false, Prog.run_ofExcept]
          rfl
        exact launches_traceless (traceless_launchKeypair userId) hrun
          (by simp [Externals.keyFound, hget, hempty])

/-! ### The logo -/

variable (env p) in
/-- A request that has to be answered with a status of success, and what is made of the answer. -/
theorem run_expectOk {β : Type} {req : Request} {ans : Except Err Response} {api : String}
    {f : Response → Prog β} {want : Response → Bool}
    (hans : ∀ t, x.strat (.fetch req) t = (ans, t))
    (hf : ∀ res s, ∃ r s', (f res).run (alone p x.strat) s = (r, s') ∧ r.isOk = want res)
    (s : St × τ) :
    ∃ r s', ((attempt (ask (.fetch req))).bind fun res => (expectOk env api res).bind f).run
        (alone p x.strat) s = (r, s') ∧ r.isOk = answered want ans := by
  obtain ⟨st, t⟩ := s
  have hfetch : (attempt (ask (.fetch req))).run (alone p x.strat) (st, t) = (ans, (st, t)) := by
    refine (Prog.run_bind_ok (run_ask _ _ _)).trans ?_
    rw [hans t]
    exact Prog.run_ofExcept _ _
  cases ans with
  | error e => exact ⟨_, _, Prog.run_bind_error hfetch, rfl⟩
  | ok res =>
      rw [Prog.run_bind_ok hfetch]
      cases hok : res.ok with
      | true =>
          obtain ⟨r, s', hrun, hr⟩ := hf res (st, t)
          refine ⟨r, s', ?_, by simpa [answered, hok] using hr⟩
          simp only [expectOk, hok, if_true, Prog.ret_bind]
          exact hrun
      | false =>
          simp only [expectOk, answered, hok, Bool.false_eq_true, if_false, Bool.false_and]
          exact ⟨_, _, rfl, rfl⟩

variable (env p x) in
theorem generateImage_run (prompt : Option Json) (s : St × τ) :
    ∃ r s', (generateImage env prompt).run (alone p x.strat) s = (r, s') ∧ r.isOk = x.drawn := by
  refine run_expectOk env p (fun _ => ?_) (fun _ s => ?_) s
  · rfl
  · exact ⟨_, s, rfl, rfl⟩

theorem trimmed_run (response : Option Json) (s : St × τ) :
    ∃ r s', (trimmed response).run (alone p x.strat) s = (r, s') ∧
      r.isOk = match response with
        | some (.str _) => true
        | _ => false := by
  cases response with
  | none => exact ⟨_, s, rfl, rfl⟩
  | some v =>
      cases v with
      | _ => exact ⟨_, s, rfl, rfl⟩

variable (env p x) in
theorem generateImageDescription_run (tokenName : Option Json) (s : St × τ) :
    ∃ r s', (generateImageDescription env tokenName).run (alone p x.strat) s = (r, s') ∧
      r.isOk = x.described := by
  refine run_expectOk env p (fun _ => rfl) (fun res s => ?_) s
  simp only [jsonParse, parseJson, Str.text_some]
  cases hbody : Json.parse res.body with
  | none => exact ⟨_, s, rfl, rfl⟩
  | some j =>
      cases j with
      | null => exact ⟨_, s, rfl, rfl⟩
      | obj kvs => exact trimmed_run ((Json.obj kvs).field "response") s
      | bool | num | str | arr => exact trimmed_run none s

/-! ### The launch -/

theorem traceless_await {q : Prog α} (hq : q.Issues Cmd.traceless) :
    (await q).Issues Cmd.traceless :=
  issues_await trivial hq

theorem traceless_generateImage (prompt : Option Json) :
    (generateImage env prompt).Issues Cmd.traceless :=
  issues_generateImage (fun _ => traceless_aside) prompt

theorem traceless_generateImageDescription (tokenName : Option Json) :
    (generateImageDescription env tokenName).Issues Cmd.traceless :=
  issues_askOllama (fun _ => traceless_aside) _

/-- Waiting for a program adds no step. -/
theorem launches_await {q : Prog α} {s : St × τ} {xs : List (Stage LaunchEffect)}
    (hq : Launches p x q s xs) : Launches p x (await q) s xs := by
  unfold Launches Prog.Follows at hq ⊢
  rw [← hq, await, Prog.log_bind, Prog.run_bind, List.filterMap_append]
  cases q.run (alone p x.strat) s with
  | mk r s' =>
      cases r with
      | ok a => simp [ask, Prog.ask, Prog.log, Prog.run, Except.isOk, Except.toBool, launchEffect]
      | error e => simp [Except.isOk, Except.toBool]

/-- The logo of `launchTokenInternal` is described and drawn. -/
theorem launches_internalLogo (tokenName : Option Json) (s : St × τ) :
    Launches p x ((await (generateImageDescription env tokenName)).bind fun logoDesc =>
      await (generateImage env (some (.str logoDesc)))) s [⟨x.described && x.drawn, none⟩] := by
  have hquiet : ((await (generateImageDescription env tokenName)).bind fun logoDesc =>
      await (generateImage env (some (.str logoDesc)))).Issues Cmd.traceless :=
    Prog.issues_bind (traceless_await (traceless_generateImageDescription _)) fun _ =>
      traceless_await (traceless_generateImage _)
  obtain ⟨r, s₁, hrun, hr⟩ := generateImageDescription_run env p x tokenName s
  obtain ⟨t₁, hawait⟩ := run_await hrun
  cases r with
  | error e =>
      refine launches_traceless hquiet (Prog.run_bind_error hawait) ?_
      simp [← hr, Except.isOk, Except.toBool]
  | ok logoDesc =>
      obtain ⟨r', s₃, hrun', hr'⟩ := generateImage_run env p x (some (.str logoDesc)) (s₁.1, t₁)
      obtain ⟨t₃, hawait'⟩ := run_await hrun'
      refine launches_traceless hquiet ((Prog.run_bind_ok hawait).trans hawait') ?_
      rw [hr', ← hr]
      rfl

/-- The logo of the launcher server is drawn. -/
theorem launches_serverLogo (prompt : Option Json) (s : St × τ) :
    Launches p x (await (generateImage env prompt)) s [⟨x.drawn, none⟩] := by
  obtain ⟨r, s₁, hrun, hr⟩ := generateImage_run env p x prompt s
  obtain ⟨t₁, hawait⟩ := run_await hrun
  exact launches_traceless (traceless_await (traceless_generateImage _)) hawait hr

/-- A command without an effect on the launch. -/
theorem launches_plain {q : Prog (Except Err α)} {r : Except Err α} {s s' : St × τ}
    (hq : q.Issues Cmd.traceless) (hrun : q.run (alone p x.strat) s = (.ok r, s')) :
    Launches p x (attempt q) s [⟨r.isOk, none⟩] := by
  refine launches_attempt hrun ?_
  rw [hq.log_eq_nil launchEffect_traceless]
  simp

/-- A launch with a key pair runs through the mint and the steps after it. -/
theorem launches_launchWith (userKP : Keypair) (params : Json) {logo : Prog String} {ok : Bool}
    (hlogo : ∀ s, Launches p x logo s [⟨ok, none⟩]) (s : St × τ) :
    Launches p x (launchWith env userKP params logo) s (x.mintStage :: x.afterMint params ok) := by
  have hmint : ∀ s, Launches p x (attempt (ask (.createMint userKP (params.field "decimals")))) s
      [x.mintStage] := fun s => launches_attempt (r := x.createMint) rfl (by
    change List.filterMap launchEffect [⟨.createMint _ _, x.createMint⟩] = _
    cases x.createMint with
    | _ => rfl)
  have hissue : ∀ mint account amount s,
      Launches p x (attempt (ask (.mintTo userKP mint account amount))) s
        [⟨x.mintTo.isOk, some .issued⟩] := fun _ _ _ s => launches_attempt (r := x.mintTo) rfl (by
    change List.filterMap launchEffect [⟨.mintTo _ _ _ _, x.mintTo⟩] = _
    cases x.mintTo with
    | _ => rfl)
  have hstore : ∀ key fields s, Launches p x (tryRedis (.hset key fields)) s
      [⟨x.hSet.isNone, some .stored⟩] := by
    intro key fields s
    have hans : ∀ t, x.strat (.tryRedis (.hset key fields)) t = (x.hSet, t) := fun _ => rfl
    have hask : ∀ r st', exec p (.tryRedis (.hset key fields)) s.1 x.hSet = (r, st') →
        (ask (.tryRedis (.hset key fields))).run (alone p x.strat) s = (.ok r, (st', s.2)) ∧
        (ask (.tryRedis (.hset key fields))).log (alone p x.strat) s =
          [⟨.tryRedis (.hset key fields), r⟩] := by
      intro r st' h
      simp only [ask, Prog.ask, Prog.run, Prog.log, alone, hans, h, and_self]
    cases hset : x.hSet with
    | none =>
        rw [hset] at hask
        obtain ⟨hrun, hlog⟩ := hask _ _ rfl
        exact launches_attempt hrun (by rw [hlog]; rfl)
    | some e =>
        rw [hset] at hask
        obtain ⟨hrun, hlog⟩ := hask _ _ rfl
        exact launches_attempt hrun (by rw [hlog]; rfl)
  have hconfirm : ∀ tx s, Launches p x (attempt (ask (.sendAndConfirmTransaction tx userKP))) s
      [⟨x.confirm.isOk, some .pooled⟩] := fun tx s => launches_attempt (r := x.confirm) rfl (by
    change List.filterMap launchEffect [⟨.sendAndConfirmTransaction _ _, x.confirm⟩] = _
    cases x.confirm with
    | _ => rfl)
  refine Prog.follows_bind (hmint s) fun mint s₁ _ _ => ?_
  refine Prog.follows_bind (launches_plain (issues_ask trivial) rfl) fun account s₂ _ _ => ?_
  refine Prog.follows_bind (hissue mint account _ s₂) fun _ s₃ _ _ => ?_
  refine Prog.follows_bind (hlogo s₃) fun imageUrl s₄ _ _ => ?_
  refine Prog.follows_bind (launches_ofExcept _ s₄) fun name s₅ _ _ => ?_
  refine Prog.follows_bind (hstore _ _ s₅) fun _ s₆ _ _ => ?_
  refine Prog.follows_bind_quiet (p := ask .now) rfl rfl ?_
  refine Prog.follows_bind (launches_ofExcept _ _) fun tokenB s₇ _ _ => ?_
  refine Prog.follows_bind (launches_plain (issues_ask trivial) rfl) fun tx s₈ _ _ => ?_
  exact Prog.follows_bind (hconfirm tx s₈) fun _ _ _ _ => Prog.follows_ret _

/-- `launchTokenInternal` runs through the key, the parameters, the mint and what comes after. -/
theorem launches_internal (params : Json) (userId : Str) (st : St) (t : τ) :
    Launches p x (launchTokenInternal env params userId) (st, t)
      ([⟨x.keyFound env st userId, none⟩, ⟨!Json.nullish (some params), none⟩] ++
        x.mintStage :: x.afterMint params (x.described && x.drawn)) := by
  have hprop : ∀ s, Launches p x (prop (some params) "decimals") s
      [⟨!Json.nullish (some params), none⟩] := by
    intro s
    cases params with
    | _ => rfl
  refine Prog.follows_bind (launches_launchKeypair userId st t) fun userKP s₁ _ _ => ?_
  refine Prog.follows_bind (hprop s₁) fun _ s₂ _ _ => ?_
  exact launches_launchWith userKP params (launches_internalLogo _) s₂

variable (env) in
/-- `POST /launch-token`, up to its answer. -/
def launchRequest (body : Option Json) (userId : String) : Prog Launched :=
  (requestBody body "decimals").bind fun body => (await (getUserKP env userId)).bind fun userKP =>
    launchWith env userKP body (await (generateImage env
      (some (.str ("Logo for " ++ Json.text (body.field "tokenName"))))))

theorem launchToken_eq (body : Option Json) (userId : String) : launchToken env body userId =
    endpoint env ((launchRequest env body userId).bind fun res => .ret (launchedAnswer res)) := by
  simp only [launchRequest, launchWith, Prog.bind_eq, Prog.bind_assoc']
  rfl

variable (env p x) in
theorem launches_launchRequest (body : Option Json) (userId : String) (st : St) (t : τ) :
    Launches p x (launchRequest env body userId) (st, t)
      ([⟨!Json.nullish body, none⟩, ⟨x.keyFound env st (some userId), none⟩] ++
        x.mintStage :: x.afterMint (body.getD .null) x.drawn) := by
  have hbody : Launches p x (requestBody body "decimals") (st, t) [⟨!Json.nullish body, none⟩] ∧
      ∀ v s', (requestBody body "decimals").run (alone p x.strat) (st, t) = (.ok v, s') →
        body = some v ∧ s' = (st, t) := by
    rcases requestBody_cases body "decimals" with ⟨hnull, e, hthrow⟩ | ⟨hnull, v, rfl, hret⟩
    · rw [hthrow, hnull]
      exact ⟨rfl, fun _ _ h => by cases h⟩
    · rw [hret, hnull]
      exact ⟨rfl, fun _ _ h => by cases h; exact ⟨rfl, rfl⟩⟩
  refine Prog.follows_bind hbody.1 fun v s₁ hrun _ => ?_
  obtain ⟨rfl, rfl⟩ := hbody.2 v s₁ hrun
  have hkey : Launches p x (await (getUserKP env userId)) (st, t)
      [⟨x.keyFound env st (some userId), none⟩] :=
    launches_await (launches_launchKeypair (some userId) st t)
  refine Prog.follows_bind hkey fun userKP s₂ _ _ => ?_
  exact launches_launchWith userKP v (launches_serverLogo _) s₂

/-- The server reports success. -/
def reported : Except Err Answer → Bool
  | .ok answer => answer.1 = 200
  | .error _ => false

variable (env) in
/-- An endpoint that answers `200` only at its end reports success if and only if all its steps
succeed. -/
theorem endpoint_follows {q : Prog α} {f : α → Answer} {s : St × τ}
    {xs : List (Stage LaunchEffect)} (hf : ∀ a, (f a).1 = 200) (hq : Launches p x q s xs) :
    (reported ((endpoint env (q.bind fun a => .ret (f a))).run (alone p x.strat) s).1,
      ((endpoint env (q.bind fun a => .ret (f a))).log (alone p x.strat) s).filterMap
        launchEffect) = Stage.outcome xs := by
  have hcatch : ∀ (e : Err) (s' : St × τ),
      ((do onError env; return errorAnswer 500 e.message : Prog Answer).log (alone p x.strat)
        s').filterMap launchEffect = [] := fun e s' =>
    (Prog.issues_bind traceless_onError fun _ => .ret _).log_eq_nil launchEffect_traceless
  have hlog : ((q.bind fun a => .ret (f a)).log (alone p x.strat) s).filterMap launchEffect =
      (q.log (alone p x.strat) s).filterMap launchEffect := by
    rw [Prog.log_bind]
    split
    · simp [Prog.log]
    · simp
  rw [← hq]
  refine Prod.ext ?_ ((Prog.log_tryCatch (S := sig) _ s hcatch).trans hlog)
  simp only [endpoint, Prog.run_tryCatch, Prog.run_bind]
  cases q.run (alone p x.strat) s with
  | mk r s' =>
      cases r with
      | ok a => simp [reported, hf, Except.isOk, Except.toBool]
      | error e => rfl

end

/-- Whether `launchTokenInternal` returns, and what it leaves behind. -/
def internalLaunch {τ : Type} (env : Env) (p : Pid) (x : Externals τ) (s : St × τ) (params : Json)
    (userId : Str) : Bool × List LaunchEffect :=
  (((launchTokenInternal env params userId).run (alone p x.strat) s).1.isOk,
    ((launchTokenInternal env params userId).log (alone p x.strat) s).filterMap launchEffect)

/-- Whether `POST /launch-token` reports success, and what it leaves behind. -/
def serverLaunch {τ : Type} (env : Env) (p : Pid) (x : Externals τ) (s : St × τ)
    (body : Option Json) (userId : String) : Bool × List LaunchEffect :=
  (reported ((launchToken env body userId).run (alone p x.strat) s).1,
    ((launchToken env body userId).log (alone p x.strat) s).filterMap launchEffect)

/-- The launchers read the text of a secret key. -/
theorem readKeypair_bytesJson (env : Env) (secret : Bytes) :
    readKeypair env (some (Json.stringify (bytesJson secret))) = env.keypair secret := by
  simp only [readKeypair, parseJson, Str.text_some, parse_bytesJson, Except.bind,
    uint8ArrayFrom_bytesJson]

namespace Sample

/-- The key of `alice` is where the launchers look for it. -/
def imported : St :=
  { St.fresh env 0 with
    redis := { Redis.Store.empty with
      strings := fun key => if key = "wallet:alice" then
        some (Json.stringify (bytesJson alice.secretKey), none) else none } }

/-- The chain answers, and the language model does not. -/
def modelDown : Externals Unit where
  get := none
  createMint := .ok bob.publicKey
  account := .ok mint.publicKey
  mintTo := .ok ()
  description := .error ⟨.typeError, "fetch failed"⟩
  image := .error ⟨.typeError, "fetch failed"⟩
  hSet := none
  createPool := .error (.new "fetch failed")
  confirm := .error (.new "fetch failed")
  rest := unplugged

theorem keyFound_imported : modelDown.keyFound env imported (some "alice") = true := by
  have hstring : imported.redis.string imported.clock (launchWalletKey (some "alice")) =
      some (Json.stringify (bytesJson alice.secretKey)) := rfl
  have hkey : env.keypair alice.secretKey = .ok alice := rfl
  have hne : Json.stringify (bytesJson alice.secretKey) ≠ "" := by
    intro he
    have hparse := parse_bytesJson alice.secretKey
    rw [he] at hparse
    cases hparse
  rw [Externals.keyFound, hstring, readKeypair_bytesJson, hkey, Option.getD_some,
    decide_eq_true hne]
  rfl

end Sample

end Nexus
