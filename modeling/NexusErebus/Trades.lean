import NexusErebus.Settlement
import NexusErebus.Text.Double
import NexusErebus.UserStore

/-!
# The trade workers (worker.js, metrics.js)

Two processes take jobs from the queue `trades`.  Each loads the key of the user, buys and
splits the fuel, makes the trade, stores the new balances and tells the user.

* No job gets past loading the key.  `getUser` leaves out the wallet, and the workers look
  for the key there (`trades_never_load_key`).
* With a key in hand, a worker would buy what the command names.  For a sell it asks for a
  quote from SOL to SOL (`trade_directed_iff`).

The queue stores a job as JSON, in which a number that is not one becomes `null`.
-/

namespace Nexus

open Async Text

/-! ## The handlers -/

section

variable (env : Env)

/-- Load the user and the key. -/
def loadKey (handle : Str) : Prog Keypair := do
  let data ← await (getUser handle)
  match data with
  | none => throw (Err.new ("User " ++ handle.text ++ " not found"))
  | some data => do
      let v ← jsonParse (data.lookup "wallet")
      let bytes ← .ofExcept (uint8ArrayFrom v)
      .ofExcept (env.keypair bytes)

/-- Buy the fuel, burn a part of it and send the rest to the developers. -/
def burnFuel (wallet : Keypair) : Prog Unit := do
  let fuelRoute ← await (quoteSOLto env (some env.nxrMint.toBase58)
    (env.minNxrSol.mul (some lamportsPerSol)))
  await (executeSwap env fuelRoute wallet)
  let outAmount ← prop (some fuelRoute) "outAmount"
  await (burnAndDev env wallet (Json.toNumber outAmount) env.nxrBurnPct)

/-- `cmd.sol * LAMPORTS_PER_SOL`. -/
def tradeLamports (cmd : TradeCmd) : Number := Number.mul (some (cmd.sol.getD 0)) (some lamportsPerSol)

/-- The mint a worker asks a quote for. -/
def tradeMint (cmd : TradeCmd) : Str :=
  match cmd.t with
  | .buy => cmd.mint
  | .sell => some solMint

/-- Quote and swap. -/
def mainSwap (wallet : Keypair) (mint : Str) (lamports : Number) : Prog Unit := do
  let route ← await (quoteSOLto env mint lamports)
  await (executeSwap env route wallet)

/-- Refresh the balances and store them. -/
def storeBalances (wallet : Keypair) (handle : Str) : Prog Unit := do
  let (sol, agentLamports) ← await (refreshBalances env wallet.publicKey)
  await (upsertUser env handle
    [("sol", some sol.shortText), ("tierBal", some agentLamports.shortText)])

/-- `cmd.t` and `cmd.sol` in the messages to the user. -/
def tradeText (cmd : TradeCmd) : String :=
  cmd.t.text ++ " " ++ (match cmd.sol with | none => "null" | sol => sol.text) ++ " SOL"

def notifyTelegram (chatId : Str) (text : String) : Prog Unit := do
  let body : Json := .obj
    ((match chatId with | some id => [("chat_id", .str id)] | none => []) ++
      [("text", .str text), ("parse_mode", .str "Markdown")])
  -- a failure is only logged
  let _ ← ask (.fetch ⟨env.telegramApi ++ "/sendMessage", "POST", .text (Json.stringify body)⟩)
  return ()

/-- The handler of worker.js, once the key pair is in hand. -/
def workerTrade (wallet : Keypair) (job : TradeJob) : Prog Unit := do
  burnFuel env wallet
  mainSwap env wallet (tradeMint job.cmd) (tradeLamports job.cmd)
  storeBalances env wallet job.handle
  await (notifyTelegram env job.handle ("✅ *Trade executed:* `" ++ tradeText job.cmd ++ "`"))

/-- The handler of metrics.js, once the key pair is in hand. -/
def metricsTrade (wallet : Keypair) (job : TradeJob) : Prog Unit := do
  burnFuel env wallet
  mainSwap env wallet (tradeMint job.cmd) (tradeLamports job.cmd)
  storeBalances env wallet job.handle
  if env.useTelegram then
    attempt (ask (.telegram (.sendMessage ("@" ++ job.handle.text)
      ("✅ [Trade] " ++ tradeText job.cmd))))
  else return ()

/-- The handler of worker.js. -/
def workerTrades (job : TradeJob) : Prog Unit := do
  let wallet ← loadKey env job.handle
  workerTrade env wallet job

/-- The handler of metrics.js, which only counts the failures. -/
def metricsTrades (job : TradeJob) : Prog Unit := await do
  let wallet ← loadKey env job.handle
  metricsTrade env wallet job

end

/-! ## Loading the key -/

section

variable {τ : Type} {env : Env} {p : Pid} {strat : (c : Cmd) → τ → c.Ans × τ}

/-- What a worker throws for want of a key. -/
def keyError (h : Str) (hash : List (String × String)) : Err :=
  if hash = [] then .new ("User " ++ h.text ++ " not found")
  else ⟨.syntaxError, "\"undefined\" is not valid JSON"⟩

variable (env p strat) in
/-- The key is never there, whatever the store holds. -/
theorem loadKey_run (h : Str) (st : St) (t : τ) : ∃ t',
    (loadKey env h).run (alone p strat) (st, t) =
      (.error (keyError h (st.redis.hashes (userKey h))), (st, t')) := by
  have hget : ∃ t', (await (getUser h)).run (alone p strat) (st, t) =
      (.ok (if st.redis.hashes (userKey h) = [] then none
        else some (Assoc.erase "wallet" (st.redis.hashes (userKey h)))), (st, t')) :=
    ⟨_, Prog.run_bind_ok (getUser_run h st t)⟩
  obtain ⟨t', hget⟩ := hget
  refine ⟨t', (Prog.run_bind_ok hget).trans ?_⟩
  by_cases he : st.redis.hashes (userKey h) = []
  · simp only [he, if_true, keyError]
    rfl
  · have hw : (Assoc.erase "wallet" (st.redis.hashes (userKey h))).lookup "wallet" = none := by
      simp [Assoc.lookup_erase]
    simp only [if_neg he, keyError]
    refine Prog.run_bind_error ?_
    rw [hw]
    rfl

end

/-- The store after some calls of its writers. -/
def storeAfter {τ : Type} (env : Env) (p : Pid) (strat : (c : Cmd) → τ → c.Ans × τ)
    (calls : List StoreCall) (s : St × τ) : St × τ :=
  ((Prog.forEach (StoreCall.run env) calls).run (alone p strat)
    ({ s.1 with redis := Redis.Store.empty }, s.2)).2

/-- No job loads the key the store holds.  Both handlers stop before they quote, swap or
burn anything. -/
theorem trades_never_load_key (env : Env) {τ : Type} (p q : Pid)
    (strat : (c : Cmd) → τ → c.Ans × τ) (s : St × τ) (calls : List StoreCall) (cmd : TradeCmd)
    (h : String) (K : Bytes)
    (hK : HoldsSecret env ((storeAfter env p strat calls s).1.redis.hashes (userKey (some h)))
      (some K)) :
    (∀ kp,
      ((loadKey env (some h)).run (alone q strat) (storeAfter env p strat calls s)).1 ≠ .ok kp) ∧
      ∀ handler ∈ [workerTrades env, metricsTrades env],
        ∃ t, (handler ⟨cmd, some h⟩).run (alone q strat) (storeAfter env p strat calls s) =
          (.error ⟨.syntaxError, "\"undefined\" is not valid JSON"⟩,
            ((storeAfter env p strat calls s).1, t)) := by
  obtain ⟨w, hw, -, -⟩ := hK
  have herr : keyError (some h)
      ((storeAfter env p strat calls s).1.redis.hashes (userKey (some h))) =
        ⟨.syntaxError, "\"undefined\" is not valid JSON"⟩ := by
    refine if_neg fun he => ?_
    rw [he] at hw
    cases hw
  obtain ⟨t, hload⟩ := loadKey_run env q strat (some h)
    (storeAfter env p strat calls s).1 (storeAfter env p strat calls s).2
  rw [herr] at hload
  refine ⟨fun kp hok => ?_, ?_⟩
  · rw [hload] at hok
    cases hok
  · simp only [List.forall_mem_cons, List.not_mem_nil, false_imp_iff, implies_true, and_true]
    exact ⟨⟨t, Prog.run_bind_error hload⟩,
      ⟨t, Prog.run_bind_error (Prog.run_bind_error hload)⟩⟩

namespace Sample

/-- The state in which the key of `alice` is stored. -/
def aliceStored : St × Unit :=
  storeAfter env .api unplugged [.setWalletSecret "alice" alice.secretKey] (St.fresh env 0, ())

theorem holdsSecret_aliceStored :
    HoldsSecret env (aliceStored.1.redis.hashes (userKey (some "alice")))
      (some alice.secretKey) := by
  obtain ⟨s', hrun, hr⟩ := forEach_refines env .api unplugged
    [.setWalletSecret "alice" alice.secretKey] (St.fresh env 0) ()
  have hs : aliceStored = s' := congrArg Prod.snd hrun
  rw [hs]
  exact hr.secret "alice"

end Sample

/-- The key of `alice` is in the store, and no worker finds it. -/
theorem loadKey_aliceStored :
    HoldsSecret Sample.env (Sample.aliceStored.1.redis.hashes (userKey (some "alice")))
        (some Sample.alice.secretKey) ∧
      Sample.env.keypair Sample.alice.secretKey = .ok Sample.alice ∧
      ((loadKey Sample.env (some "alice")).run (alone .worker Sample.unplugged)
        Sample.aliceStored).1 ≠ .ok Sample.alice := by
  refine ⟨Sample.holdsSecret_aliceStored, by rfl, ?_⟩
  obtain ⟨t, hload⟩ := loadKey_run Sample.env .worker Sample.unplugged
    (some "alice") Sample.aliceStored.1 Sample.aliceStored.2
  rw [hload]
  nofun

/-- A job of `alice` fails in both workers. -/
theorem trades_aliceStored :
    (∃ t, (workerTrades Sample.env ⟨⟨.buy, some "EPjFWdd5AufqSSqeM2qN1xzybapC8G4wEGGkZwyTDt1v",
        some 1⟩, some "alice"⟩).run (alone .worker Sample.unplugged) Sample.aliceStored =
      (.error ⟨.syntaxError, "\"undefined\" is not valid JSON"⟩, (Sample.aliceStored.1, t))) ∧
    ∃ t, (metricsTrades Sample.env ⟨⟨.buy, some "EPjFWdd5AufqSSqeM2qN1xzybapC8G4wEGGkZwyTDt1v",
        some 1⟩, some "alice"⟩).run (alone .worker Sample.unplugged) Sample.aliceStored =
      (.error ⟨.syntaxError, "\"undefined\" is not valid JSON"⟩, (Sample.aliceStored.1, t)) := by
  have hfail := (trades_never_load_key Sample.env .api .worker Sample.unplugged
    (St.fresh Sample.env 0, ()) [.setWalletSecret "alice" Sample.alice.secretKey]
    ⟨.buy, some "EPjFWdd5AufqSSqeM2qN1xzybapC8G4wEGGkZwyTDt1v", some 1⟩ "alice"
    Sample.alice.secretKey Sample.holdsSecret_aliceStored).2
  exact ⟨hfail _ (by simp), hfail _ (by simp)⟩

/-! ## The direction of a trade -/

/-- A request for a quote between two mints. -/
def quoteRequest (inputMint outputMint : String) (lamports : Number) : Request :=
  ⟨jupQ ++ "?inputMint=" ++ inputMint ++ "&outputMint=" ++ outputMint ++ "&amount=" ++
    lamports.text ++ "&slippageBps=100", "GET", .none⟩

/-- The input and the output mint a command names. -/
def TradeCmd.direction (cmd : TradeCmd) (mint : String) : String × String :=
  match cmd.t with
  | .buy => (solMint, mint)
  | .sell => (mint, solMint)

section

variable (dir : String → String × String)

/-- The requests of a trade ask for quotes in one direction and swap on routes of that
direction.  `dir` is the input and the output mint of a route, given its text. -/
def Directed (wallet : Keypair) (lamports : Number) (d : String × String) (main : List Cmd) : Prop :=
  ∀ r, Cmd.fetch r ∈ main → r = quoteRequest d.1 d.2 lamports ∨
    ∃ route : Json, r = swapRequest route wallet ∧ dir route.stringify = d

/-- The quote service answers with routes between the mints it was asked about, and what the
cache holds for this amount, under `mint` or under SOL, are such answers. -/
structure HonestQuotes {τ : Type} (strat : (c : Cmd) → τ → c.Ans × τ) (st : St) (mint : String)
    (lamports : Number) : Prop where
  answers : ∀ i o lamports t res v, (strat (.fetch (quoteRequest i o lamports)) t).1 = .ok res →
    Json.parse res.body = some v → Json.truthy (some (quoteResult (.ok v))) = true →
      dir (quoteResult (.ok v)).stringify = (i, o)
  cached : ∀ m ∈ [mint, solMint], ∀ v,
    (Redis.exec st.clock (.get (quoteKey (some m) lamports)) st.redis).1 = some v → v ≠ "" →
      ∃ route, Json.parse v = some route ∧ Json.truthy (some route) = true ∧
        dir route.stringify = (solMint, m)

end

theorem quoteRequest_inj {i i' o : String} {lamports : Number}
    (h : quoteRequest i o lamports = quoteRequest i' o lamports) : i = i' := by
  have h' := congrArg (fun r => r.url.toList) h
  simp only [quoteRequest, String.toList_append] at h'
  exact String.toList_inj.mp (by simpa using h')

/-- The text of a route can be read off the request to swap on it. -/
theorem swapRequest_inj {route route' : Json} {kp : Keypair}
    (h : swapRequest route kp = swapRequest route' kp) : route.stringify = route'.stringify := by
  have h' := congrArg Request.body h
  simp only [swapRequest, Body.text.injEq, Json.stringify, String.ofList_inj, Json.render] at h'
  exact congrArg String.ofList (by simpa using h')

section

variable {τ : Type} {env : Env} {p : Pid} {strat : (c : Cmd) → τ → c.Ans × τ}
  {dir : String → String × String}

theorem issues_mainQuote (mint : String) (lamports : Number) :
    (await (quoteSOLto env (some mint) lamports)).Issues fun c : Cmd =>
      ∀ r, c = .fetch r → r = quoteRequest solMint mint lamports :=
  issues_await nofun (issues_quoteSOLto nofun (fun _ hr => by cases hr; rfl) nofun)

theorem issues_mainSwap (route : Json) (kp : Keypair) :
    (await (executeSwap env route kp)).Issues fun c : Cmd =>
      ∀ r, c = .fetch r → Json.truthy (some route) = true ∧ r = swapRequest route kp := by
  refine issues_await nofun (issues_executeSwap ?_ nofun ?_)
  · rintro c hc r rfl
    cases hc
  · rintro h r hr
    cases hr
    exact ⟨h, rfl⟩

/-- The route of a quote has the direction that was asked for. -/
theorem fetchQuote_dir (hans : ∀ i o lamports t res v,
      (strat (.fetch (quoteRequest i o lamports)) t).1 = .ok res →
      Json.parse res.body = some v → Json.truthy (some (quoteResult (.ok v))) = true →
        dir (quoteResult (.ok v)).stringify = (i, o))
    {mint : String} {lamports : Number} {s s' : St × τ} {route : Json}
    (h : (fetchQuote env (some mint) lamports).run (alone p strat) s = (.ok route, s'))
    (ht : Json.truthy (some route) = true) : dir route.stringify = (solMint, mint) := by
  obtain ⟨st, t⟩ := s
  have hj := Prog.run_outcome (run_fetchJson p strat
    (quoteRequest solMint mint lamports) st t)
  rw [show (fetchQuote env (some mint) lamports).run (alone p strat) (st, t) = _ from
    Prog.run_bind_ok hj] at h
  dsimp only at h
  split at h
  next htruthy =>
    obtain ⟨_, s₁, hset, hret⟩ := Prog.run_bind_eq_ok h
    cases hret
    -- an answer that cannot be had or read counts as no route
    cases hres : (strat (.fetch (quoteRequest solMint mint lamports)) t).1 with
    | error e =>
        rw [hres] at ht
        cases ht
    | ok res =>
        rw [hres] at ht
        simp only [Except.bind] at ht ⊢
        cases hv : parseJson (some res.body) with
        | error e =>
            rw [hv] at ht
            cases ht
        | ok v =>
            rw [hv] at ht
            have hparse : Json.parse res.body = some v := by
              rw [← toOption_parseJson, hv]
              rfl
            exact hans solMint mint lamports t res v hres hparse ht
  next =>
    cases h
    cases ht

variable (env p strat) in
/-- Without an entry in the cache, the service is asked. -/
theorem quoteSOLto_uncached {mint : Str} {lamports : Number} {st : St} (t : τ)
    (hc : (Redis.exec st.clock (.get (quoteKey mint lamports)) st.redis).1.getD "" = "") :
    ∃ s, (quoteSOLto env mint lamports).run (alone p strat) (st, t) =
        (fetchQuote env mint lamports).run (alone p strat) s ∧
      (quoteSOLto env mint lamports).trace (alone p strat) (st, t) =
        .redis (.get (quoteKey mint lamports)) ::
          (fetchQuote env mint lamports).trace (alone p strat) s := by
  have hget := run_redis p strat (.get (quoteKey mint lamports)) st t
  refine ⟨(st.onRedis (.get (quoteKey mint lamports)),
    (strat (.redis (.get (quoteKey mint lamports))) t).2), (Prog.run_bind_ok hget).trans ?_, ?_⟩
  · rw [if_neg (not_not.mpr hc)]
  · rw [quoteSOLto, Prog.bind_eq, Prog.trace_bind, hget]
    simp only [if_neg (not_not.mpr hc)]
    rfl

variable (env p strat) in
/-- An entry of the cache is returned. -/
theorem quoteSOLto_cached {mint : Str} {lamports : Number} {st : St} (t : τ) {v : String}
    {route : Json} (hv : (Redis.exec st.clock (.get (quoteKey mint lamports)) st.redis).1 = some v)
    (hne : v ≠ "") (hroute : Json.parse v = some route) :
    ∃ s, (await (quoteSOLto env mint lamports)).run (alone p strat) (st, t) = (.ok route, s) := by
  have hget := run_redis p strat (.get (quoteKey mint lamports)) st t
  rw [hv] at hget
  have hparse : parseJson (some v) = .ok route := by
    simp [parseJson, hroute]
  have hrun : (quoteSOLto env mint lamports).run (alone p strat) (st, t) =
      (.ok route, (st.onRedis (.get (quoteKey mint lamports)),
        (strat (.redis (.get (quoteKey mint lamports))) t).2)) := by
    refine (Prog.run_bind_ok hget).trans ?_
    rw [if_pos (by simpa using hne), jsonParse, hparse]
    exact Prog.run_ofExcept _ _
  exact ⟨_, Prog.run_bind_ok hrun⟩

variable (env p) in
/-- The main step asks for the quote it swaps on, or finds it in the cache.  Either way it is
a quote from SOL to `mint`. -/
theorem mainQuote_spec {st : St} {mint' mint : String} {lamports : Number}
    (hq : HonestQuotes dir strat st mint' lamports) (hm : mint ∈ [mint', solMint]) (t : τ) :
    (∀ route s', (await (quoteSOLto env (some mint) lamports)).run (alone p strat) (st, t) =
        (.ok route, s') → Json.truthy (some route) = true →
          dir route.stringify = (solMint, mint)) ∧
      (Cmd.fetch (quoteRequest solMint mint lamports) ∈
          (await (quoteSOLto env (some mint) lamports)).trace (alone p strat) (st, t) ∨
        ∃ route s', (await (quoteSOLto env (some mint) lamports)).run (alone p strat) (st, t) =
          (.ok route, s') ∧ Json.truthy (some route) = true) := by
  by_cases hc : (Redis.exec st.clock (.get (quoteKey (some mint) lamports)) st.redis).1.getD "" = ""
  · obtain ⟨s, hrun, htrace⟩ := quoteSOLto_uncached env p strat t hc
    refine ⟨fun route s' h ht => ?_, .inl (Prog.mem_trace_bind ?_)⟩
    · obtain ⟨s'', h⟩ := run_await_ok h
      exact fetchQuote_dir hq.answers (hrun.symm.trans h) ht
    · rw [htrace]
      exact List.mem_cons_of_mem _ (List.mem_cons_self ..)
  · obtain ⟨v, hv, hne⟩ : ∃ v,
        (Redis.exec st.clock (.get (quoteKey (some mint) lamports)) st.redis).1 = some v ∧
          v ≠ "" := by
      cases hex : (Redis.exec st.clock (.get (quoteKey (some mint) lamports)) st.redis).1 with
      | none => simp [hex] at hc
      | some v => exact ⟨v, rfl, by simpa [hex] using hc⟩
    obtain ⟨route, hroute, ht, hdir⟩ := hq.cached mint hm v hv hne
    obtain ⟨s', hrun⟩ := quoteSOLto_cached env p strat t hv hne hroute
    refine ⟨fun route' s'' h _ => ?_, .inr ⟨route, s', hrun, ht⟩⟩
    rw [hrun] at h
    cases h
    exact hdir

/-- A swap on a route asks for its transaction. -/
theorem mem_trace_executeSwap {route : Json} (ht : Json.truthy (some route) = true) {kp : Keypair}
    (s : St × τ) :
    Cmd.fetch (swapRequest route kp) ∈ (executeSwap env route kp).trace (alone p strat) s := by
  have hfetch : Cmd.fetch (swapRequest route kp) ∈
      (await (swapAttempt env route kp)).trace (alone p strat) s :=
    Prog.mem_trace_bind (Prog.mem_trace_bind (List.mem_cons_self ..))
  rw [executeSwap, if_pos ht]
  refine Prog.mem_trace_bind (Prog.mem_trace_tryCatch ?_)
  rw [withRetry, RetryOpts.defaults]
  exact mem_trace_retryLoop hfetch

variable (env p) in
/-- The requests of the main step have the direction from SOL to `mint`, and there is one. -/
theorem mainSwap_directed {s : St × τ} {mint' mint : String} {lamports : Number}
    (hq : HonestQuotes dir strat s.1 mint' lamports) (hm : mint ∈ [mint', solMint])
    (wallet : Keypair) :
    Directed dir wallet lamports (solMint, mint)
        ((mainSwap env wallet (some mint) lamports).trace (alone p strat) s) ∧
      ∃ r, Cmd.fetch r ∈ (mainSwap env wallet (some mint) lamports).trace (alone p strat) s := by
  obtain ⟨st, t⟩ := s
  obtain ⟨hdir, hsome⟩ := mainQuote_spec env p hq hm t
  constructor
  · intro r hr
    rw [mainSwap, Prog.bind_eq, Prog.trace_bind] at hr
    rcases List.mem_append.mp hr with hr | hr
    · exact .inl ((issues_mainQuote mint lamports).trace _ hr r rfl)
    · cases hrun : (await (quoteSOLto env (some mint) lamports)).run (alone p strat) (st, t) with
      | mk x s' =>
          rw [hrun] at hr
          cases x with
          | error e => cases hr
          | ok route =>
              obtain ⟨ht, hr'⟩ := (issues_mainSwap route wallet).trace _ hr r rfl
              exact .inr ⟨route, hr', hdir route s' hrun ht⟩
  · rcases hsome with h | ⟨route, s', hrun, ht⟩
    · exact ⟨_, Prog.mem_trace_bind h⟩
    · refine ⟨swapRequest route wallet, ?_⟩
      rw [mainSwap, Prog.bind_eq, Prog.trace_bind, hrun]
      exact List.mem_append_right _ (Prog.mem_trace_bind (mem_trace_executeSwap ht s'))

/-- Requests do not have two directions with the same output. -/
theorem Directed.input_unique {wallet : Keypair} {lamports : Number} {i i' o : String}
    {main : List Cmd} {r : Request} (h : Directed dir wallet lamports (i, o) main)
    (h' : Directed dir wallet lamports (i', o) main) (hr : Cmd.fetch r ∈ main) : i = i' := by
  rcases h r hr with rfl | ⟨route, rfl, hd⟩
  · rcases h' _ hr with hr' | ⟨route', hr', -⟩
    · exact quoteRequest_inj hr'
    · exact absurd (congrArg Request.method hr') (by simp [quoteRequest, swapRequest])
  · rcases h' _ hr with hr' | ⟨route', hr', hd'⟩
    · exact absurd (congrArg Request.method hr') (by simp [quoteRequest, swapRequest])
    · rw [swapRequest_inj hr', hd'] at hd
      exact (congrArg Prod.fst hd).symm

theorem mainSwap_directed_iff {s : St × τ} {cmd : TradeCmd} {mint : String}
    (hq : HonestQuotes dir strat s.1 mint (tradeLamports cmd)) (wallet : Keypair)
    (hmint : cmd.mint = some mint) (hne : mint ≠ solMint) :
    Directed dir wallet (tradeLamports cmd) (cmd.direction mint)
        ((mainSwap env wallet (tradeMint cmd) (tradeLamports cmd)).trace (alone p strat) s) ↔
      cmd.t = .buy := by
  cases ht : cmd.t with
  | buy =>
      simp only [tradeMint, TradeCmd.direction, ht, hmint, iff_true]
      exact (mainSwap_directed env p hq (by simp) wallet).1
  | sell =>
      simp only [tradeMint, TradeCmd.direction, ht, reduceCtorEq, iff_false]
      intro h
      obtain ⟨hsol, r, hr⟩ := mainSwap_directed env p hq
        (List.mem_cons_of_mem _ (List.mem_cons_self ..)) wallet
      exact hne (h.input_unique hsol hr)

end

/-- A trade that gets to its main step goes in the direction the command names just in case
the command is a buy. -/
theorem trade_directed_iff (env : Env) (wallet : Keypair) (job : TradeJob) (mint : String)
    (hmint : job.cmd.mint = some mint) (hne : mint ≠ solMint) {τ : Type} (p : Pid)
    (strat : (c : Cmd) → τ → c.Ans × τ) (s s₁ : St × τ)
    (hfuel : (burnFuel env wallet).run (alone p strat) s = (.ok (), s₁))
    (dir : String → String × String)
    (hq : HonestQuotes dir strat s₁.1 mint (tradeLamports job.cmd)) :
    ∀ trade ∈ [workerTrade env wallet job, metricsTrade env wallet job], ∃ main rest,
      trade.trace (alone p strat) s =
        (burnFuel env wallet).trace (alone p strat) s ++ main ++ rest ∧
      main = (mainSwap env wallet (tradeMint job.cmd) (tradeLamports job.cmd)).trace
        (alone p strat) s₁ ∧
      (Directed dir wallet (tradeLamports job.cmd) (job.cmd.direction mint) main ↔
        job.cmd.t = .buy) := by
  have htrace : ∀ finish : Prog Unit, ∃ rest,
      ((burnFuel env wallet).bind fun _ => (mainSwap env wallet (tradeMint job.cmd)
          (tradeLamports job.cmd)).bind fun _ => finish).trace (alone p strat) s =
        (burnFuel env wallet).trace (alone p strat) s ++
          (mainSwap env wallet (tradeMint job.cmd) (tradeLamports job.cmd)).trace
            (alone p strat) s₁ ++ rest := by
    intro finish
    rw [Prog.trace_bind, hfuel]
    simp only [Prog.trace_bind, List.append_assoc]
    exact ⟨_, rfl⟩
  simp only [List.forall_mem_cons, List.not_mem_nil, false_imp_iff, implies_true, and_true]
  constructor
  · obtain ⟨rest, hrest⟩ := htrace (storeBalances env wallet job.handle >>= fun _ =>
      await (notifyTelegram env job.handle ("✅ *Trade executed:* `" ++ tradeText job.cmd ++ "`")))
    exact ⟨_, rest, hrest, rfl, mainSwap_directed_iff hq wallet hmint hne⟩
  · obtain ⟨rest, hrest⟩ := htrace (storeBalances env wallet job.handle >>= fun _ =>
      if env.useTelegram then
        attempt (ask (.telegram (.sendMessage ("@" ++ job.handle.text)
          ("✅ [Trade] " ++ tradeText job.cmd))))
      else return ())
    exact ⟨_, rest, hrest, rfl, mainSwap_directed_iff hq wallet hmint hne⟩

/-! ## A trade that gets to its main step -/

/-- The swap endpoint and the node do their part: the endpoint answers with a transaction the
library can read, and what is submitted is confirmed. -/
structure Serves {τ : Type} (env : Env) (wallet : Keypair) (strat : (c : Cmd) → τ → c.Ans × τ) :
    Prop where
  swap : ∀ route t, ∃ res v tx, (strat (.fetch (swapRequest route wallet)) t).1 = .ok res ∧
    Json.parse res.body = some v ∧ swapTransaction env wallet v = .ok tx
  decimals : ∀ mint t, ∃ d, (strat (.getParsedAccountInfo mint) t).1 = .ok (some d)
  blockhash : ∀ t, ∃ b, (strat .getLatestBlockhash t).1 = .ok b
  send : ∀ tx skip t, ∃ r, (strat (.sendAndConfirmRawTransaction tx skip) t).1.1 = .ok r

section

variable {τ : Type} {env : Env} {p : Pid} {wallet : Keypair}
  {strat : (c : Cmd) → τ → c.Ans × τ}

theorem returns_withRetry {α : Type} {fn : Prog α} {Q : α → Prop}
    (h : fn.Returns (alone p strat) Q) : (withRetry fn .defaults).Returns (alone p strat) Q := by
  intro s
  obtain ⟨a, s', hrun, ha⟩ := returns_await h s
  exact ⟨a, s', run_retryLoop_ok hrun, ha⟩

theorem swapAttempt_returns (hs : Serves env wallet strat) (route : Json) :
    (swapAttempt env route wallet).Returns (alone p strat) fun _ => True := by
  have hfetch : (fetchJson (swapRequest route wallet)).Returns (alone p strat) fun v =>
      ∃ tx, swapTransaction env wallet v = .ok tx := by
    rintro ⟨st, t⟩
    obtain ⟨res, v, tx, hres, hv, htx⟩ := hs.swap route t
    have hrun := run_fetchJson p strat (swapRequest route wallet) st t
    simp only [hres, Except.bind, parseJson, Text.Str.text_some, hv] at hrun
    exact ⟨v, _, hrun, tx, htx⟩
  refine Prog.returns_bind hfetch fun v hv => ?_
  obtain ⟨tx, htx⟩ := hv
  refine Prog.returns_seq (Prog.returns_ofExcept ⟨tx, htx, trivial⟩) fun tx => ?_
  refine Prog.returns_seq (returns_attempt (Prog.returns_ask fun s => ?_)) fun _ =>
    Prog.returns_ret trivial
  obtain ⟨r, hr⟩ := hs.send tx true s.2
  exact ⟨r, hr, trivial⟩

theorem executeSwap_returns (hs : Serves env wallet strat) (route : Json) :
    (executeSwap env route wallet).Returns (alone p strat) fun _ => True := by
  unfold executeSwap
  split
  next =>
    exact returns_await (Prog.returns_tryCatch (returns_withRetry (swapAttempt_returns hs route)))
  next => exact Prog.returns_ret trivial

theorem decimalsOf_returns {mint : PublicKey}
    (hdecimals : ∀ t, ∃ d, (strat (.getParsedAccountInfo mint) t).1 = .ok (some d)) :
    (decimalsOf mint).Returns (alone p strat) fun _ => True := by
  refine Prog.returns_seq (Prog.returns_ask fun _ => trivial) fun cached => ?_
  cases cachedDecimals cached with
  | some d => exact Prog.returns_ret trivial
  | none =>
      refine Prog.returns_bind (P := fun info => ∃ d, info = some d)
        (returns_attempt (Prog.returns_ask fun s => ?_)) ?_
      · obtain ⟨d, hd⟩ := hdecimals s.2
        exact ⟨some d, hd, d, rfl⟩
      · rintro _ ⟨d, rfl⟩
        refine Prog.returns_seq (Prog.returns_ret trivial) fun d => ?_
        exact Prog.returns_seq (Prog.returns_ask fun _ => trivial) fun _ =>
          Prog.returns_ret trivial

/-- A transfer returns if what is submitted for its destination is confirmed. -/
theorem transfer_returns_of {mint source dest : PublicKey} {n : ℤ}
    (hata : env.ata mint wallet.publicKey = .ok source)
    (hdecimals : ∀ t, ∃ d, (strat (.getParsedAccountInfo mint) t).1 = .ok (some d))
    (hblockhash : ∀ t, ∃ b, (strat .getLatestBlockhash t).1 = .ok b)
    (hsend : ∀ d b t, ∃ r, (strat (.sendAndConfirmRawTransaction
      (transferTx ⟨source, mint, dest, wallet.publicKey, n, d⟩ wallet b) false) t).1.1 = .ok r) :
    (transfer env mint wallet dest (some n)).Returns (alone p strat) fun _ => True := by
  refine Prog.returns_bind (Prog.returns_ofExcept ⟨source, hata, rfl⟩) ?_
  rintro _ rfl
  refine Prog.returns_seq (returns_await (decimalsOf_returns hdecimals)) fun d => ?_
  refine Prog.returns_bind (P := fun tx => ∃ b,
    tx = transferTx ⟨source, mint, dest, wallet.publicKey, n, d⟩ wallet b) ?_ ?_
  · have hix : transferInstruction source mint dest wallet.publicKey (some n) d =
        .ok ⟨source, mint, dest, wallet.publicKey, n, d⟩ := by
      simp [transferInstruction]
    refine Prog.returns_bind (Prog.returns_ofExcept ⟨_, hix, rfl⟩) ?_
    rintro _ rfl
    refine Prog.returns_seq (returns_attempt (Prog.returns_ask fun s => ?_)) fun b =>
      Prog.returns_ret ⟨b, rfl⟩
    obtain ⟨b, hb⟩ := hblockhash s.2
    exact ⟨b, hb, trivial⟩
  · rintro _ ⟨b, rfl⟩
    refine Prog.returns_seq (returns_await (Prog.returns_tryCatch
      (returns_withRetry (returns_attempt (Prog.returns_ask fun s => ?_))))) fun _ =>
        Prog.returns_ret trivial
    obtain ⟨r, hr⟩ := hsend d b s.2
    exact ⟨r, hr, trivial⟩

theorem transfer_returns (hs : Serves env wallet strat) {mint source : PublicKey}
    (hata : env.ata mint wallet.publicKey = .ok source) (dest : PublicKey) (n : ℤ) :
    (transfer env mint wallet dest (some n)).Returns (alone p strat) fun _ => True :=
  transfer_returns_of hata (hs.decimals mint) hs.blockhash fun _ _ t => hs.send _ false t

variable (p) in
/-- With a quote for the fuel in the cache and services that work, the fuel step returns. -/
theorem burnFuel_returns (hs : Serves env wallet strat) {source : PublicKey}
    (hata : env.ata env.nxrMint wallet.publicKey = .ok source) {st : St} {v : String}
    {route : Json} {out : Option Json} {burn dev : ℤ}
    (hv : (Redis.exec st.clock (.get (quoteKey (some env.nxrMint.toBase58)
      (env.minNxrSol.mul (some lamportsPerSol)))) st.redis).1 = some v)
    (hne : v ≠ "") (hroute : Json.parse v = some route)
    (hout : prop (some route) "outAmount" = .ret out)
    (hburn : burnShare (Json.toNumber out) env.nxrBurnPct = some burn)
    (hdev : devShare (Json.toNumber out) env.nxrBurnPct = some dev) (t : τ) :
    ∃ s, (burnFuel env wallet).run (alone p strat) (st, t) = (.ok (), s) := by
  obtain ⟨s₁, hquote⟩ := quoteSOLto_cached env p strat t hv hne hroute
  have hrest : ((await (executeSwap env route wallet)).bind fun _ =>
      (prop (some route) "outAmount").bind fun outAmount =>
        await (burnAndDev env wallet (Json.toNumber outAmount) env.nxrBurnPct)).Returns
          (alone p strat) fun _ => True := by
    refine Prog.returns_seq (returns_await (executeSwap_returns hs route)) fun _ => ?_
    rw [hout, Prog.ret_bind]
    refine returns_await (Prog.returns_seq (returns_await ?_) fun _ => returns_await ?_)
    · rw [hburn]
      exact transfer_returns hs hata burnWallet burn
    · rw [hdev]
      exact transfer_returns hs hata env.devWallet dev
  obtain ⟨_, s₂, hrun, -⟩ := hrest s₁
  exact ⟨s₂, (Prog.run_bind_ok hquote).trans hrun⟩

end

/-- The command writes a string to Redis. -/
def Cmd.writesString : Cmd → Bool
  | .redis c | .tryRedis c => c.writesString.isSome
  | _ => false

theorem exec_strings (p : Pid) (c : Cmd) (st : St) (a : c.Ans) (hc : c.writesString = false) :
    (exec p c st a).2.redis.strings = st.redis.strings := by
  have hredis : ∀ c : Redis.Cmd, c.writesString.isSome = false →
      (Redis.exec st.clock c st.redis).2.strings = st.redis.strings := by
    intro c hc
    have hnone : c.writesString = none := by simpa using hc
    funext key
    exact Redis.exec_strings st.clock c st.redis (by simp [hnone])
  cases c with
  | redis c => exact hredis c hc
  | tryRedis c =>
      cases a with
      | none => exact hredis c hc
      | some e => rfl
  | _ => rfl

/-- A client without `setEx` caches no quotes. -/
theorem burnFuel_strings {τ : Type} (env : Env) (hset : env.hasSetEx = false) (p : Pid)
    (strat : (c : Cmd) → τ → c.Ans × τ) (wallet : Keypair) (s : St × τ) :
    ((burnFuel env wallet).run (alone p strat) s).2.1.redis.strings = s.1.redis.strings := by
  have hpre : ∀ c : Cmd, c.plumbing = true → c.writesString = false := by
    intro c hc
    cases c with
    | redis r =>
        cases r with
        | setex | expire | incr | del => cases hc
        | _ => rfl
    | tryRedis => cases hc
    | _ => rfl
  have hissues : (burnFuel env wallet).Issues fun c : Cmd => c.writesString = false := by
    refine Prog.issues_bind (issues_await rfl (issues_quoteSOLto rfl rfl (by simp [hset])))
      fun route => ?_
    refine Prog.issues_bind (issues_await rfl (issues_executeSwap hpre (fun _ => rfl)
      fun _ => rfl)) fun _ => ?_
    refine Prog.issues_bind (issues_prop _ _) fun out => ?_
    exact issues_await rfl (issues_burnAndDev hpre (fun _ => rfl) _ _ _)
  exact hissues.run_inv (I := fun s' : St × τ => s'.1.redis.strings = s.1.redis.strings)
    (fun c s' hc hs' => (exec_strings p c s'.1 _ hc).trans hs') rfl

namespace Sample

/-- Services that work.  The quote service knows no routes. -/
def trading (c : Cmd) (t : Unit) : c.Ans × Unit :=
  match c with
  | .fetch r =>
      (if r.method = "POST" then
        .ok ⟨true, "OK", (swapAnswer (List.replicate 32 1)).stringify⟩
      else .ok ⟨true, "OK", Json.stringify (.obj [("data", .arr [])])⟩, t)
  | .getParsedAccountInfo _ => (.ok (some (some 6)), t)
  | .getLatestBlockhash => (.ok "EkSnNWid2cvwEVnVx9aBqawnmiCNiDgp3gUdkDPTKN1N", t)
  | .sendAndConfirmRawTransaction _ _ => ((.ok "5VERv8NMvzbJMEkV8xnrLkEaWRtSz9CosKDYjCJjBRnb", true), t)
  | c => (offline c, t)

theorem trading_serves : Serves env alice trading where
  swap route t := ⟨_, _, _, rfl, parse_swapAnswer _, swapTransaction_swapAnswer (by decide)⟩
  decimals _ _ := ⟨some 6, rfl⟩
  blockhash _ := ⟨_, rfl⟩
  send _ _ _ := ⟨_, rfl⟩

/-- The key of the quote for the fuel. -/
def fuelKey : String :=
  quoteKey (some env.nxrMint.toBase58) (env.minNxrSol.mul (some lamportsPerSol))

/-- The quote for the fuel is in the cache. -/
def fuelled : St :=
  { St.fresh env 0 with redis := (Redis.exec 0 (.setex fuelKey cacheTtl route.stringify) .empty).2 }

/-- A job of `alice` for a tenth of a SOL. -/
def job (t : Side) : TradeJob :=
  ⟨⟨t, some "EPjFWdd5AufqSSqeM2qN1xzybapC8G4wEGGkZwyTDt1v", some (1 / 10)⟩, some "alice"⟩

/-- What `fuelled` caches. -/
theorem fuelled_strings {key : String} (h : key ≠ fuelKey) : fuelled.redis.strings key = none :=
  Function.update_of_ne h _ _

theorem quoteKey_ne_fuelKey (t : Side) :
    ∀ m ∈ ["EPjFWdd5AufqSSqeM2qN1xzybapC8G4wEGGkZwyTDt1v", solMint],
      quoteKey (some m) (tradeLamports (job t).cmd) ≠ fuelKey := by
  cases t with
  | _ => decide +kernel

/-- The fuel step returns and leaves the cache as it was. -/
theorem burnFuel_fuelled_strings {strat : (c : Cmd) → Unit → c.Ans × Unit}
    (hs : Serves env alice strat) : ∃ s₁,
      (burnFuel env alice).run (alone .worker strat) (fuelled, ()) = (.ok (), s₁) ∧
        s₁.1.redis.strings = fuelled.redis.strings := by
  have hcached : (Redis.exec fuelled.clock (.get fuelKey) fuelled.redis).1 =
      some route.stringify := by
    simp [Redis.exec, Redis.Store.string, fuelled, St.fresh, Redis.past, cacheTtl]
  have hroute : Json.parse route.stringify = some route :=
    Json.parse_stringify (by simp [route, Json.Plain, Json.PlainMembers])
  have hout : prop (some route) "outAmount" = .ret (some (.str "4120000")) := rfl
  have hburn : burnShare (Json.toNumber (some (.str "4120000"))) env.nxrBurnPct =
      some (1648000 : ℤ) := by decide +kernel
  have hdev : devShare (Json.toNumber (some (.str "4120000"))) env.nxrBurnPct =
      some (2472000 : ℤ) := by decide +kernel
  obtain ⟨s₁, hrun⟩ := burnFuel_returns .worker hs rfl hcached (by decide +kernel)
    hroute hout hburn hdev ()
  have hstrings := burnFuel_strings env rfl .worker strat alice (fuelled, ())
  rw [hrun] at hstrings
  exact ⟨s₁, hrun, hstrings⟩

/-- The main step finds nothing in the cache. -/
theorem uncached {st : St} (h : st.redis.strings = fuelled.redis.strings) (t : Side) :
    ∀ m ∈ ["EPjFWdd5AufqSSqeM2qN1xzybapC8G4wEGGkZwyTDt1v", solMint],
      (Redis.exec st.clock (.get (quoteKey (some m) (tradeLamports (job t).cmd))) st.redis).1 =
        none := by
  intro m hm
  have hnone := fuelled_strings (quoteKey_ne_fuelKey t m hm)
  simp only [Redis.exec, Redis.Store.string, h, hnone]

/-- The fuel step returns, and the quotes are honest. -/
theorem burnFuel_fuelled (t : Side) (dir : String → String × String) : ∃ s₁,
    (burnFuel env alice).run (alone .worker trading) (fuelled, ()) = (.ok (), s₁) ∧
      HonestQuotes dir trading s₁.1 "EPjFWdd5AufqSSqeM2qN1xzybapC8G4wEGGkZwyTDt1v"
        (tradeLamports (job t).cmd) := by
  obtain ⟨s₁, hrun, hstrings⟩ := burnFuel_fuelled_strings trading_serves
  refine ⟨s₁, hrun, ?_, ?_⟩
  · intro i o lamports t res v hres hv htruthy
    cases hres
    rw [Json.parse_stringify (by simp [Json.Plain, Json.PlainMembers, Json.PlainElems])] at hv
    cases hv
    cases htruthy
  · intro m hm v hv
    rw [uncached hstrings t m hm] at hv
    cases hv

end Sample

/-- A sell of USDC gets to its main step and does not sell USDC. -/
theorem sell_not_directed : ∃ s₁,
    (burnFuel Sample.env Sample.alice).run (alone .worker Sample.trading) (Sample.fuelled, ()) =
        (.ok (), s₁) ∧
      ¬ Directed (fun _ => (solMint, solMint)) Sample.alice (tradeLamports (Sample.job .sell).cmd)
        ((Sample.job .sell).cmd.direction "EPjFWdd5AufqSSqeM2qN1xzybapC8G4wEGGkZwyTDt1v")
        ((mainSwap Sample.env Sample.alice (tradeMint (Sample.job .sell).cmd)
          (tradeLamports (Sample.job .sell).cmd)).trace (alone .worker Sample.trading) s₁) := by
  obtain ⟨s₁, hrun, hq⟩ := Sample.burnFuel_fuelled .sell fun _ => (solMint, solMint)
  refine ⟨s₁, hrun, fun h => ?_⟩
  have := (mainSwap_directed_iff hq Sample.alice rfl (by decide)).mp h
  cases this

/-- A buy of USDC gets to its main step and buys USDC. -/
theorem buy_directed : ∃ s₁,
    (burnFuel Sample.env Sample.alice).run (alone .worker Sample.trading) (Sample.fuelled, ()) =
        (.ok (), s₁) ∧
      Directed (fun _ => (solMint, solMint)) Sample.alice (tradeLamports (Sample.job .buy).cmd)
        ((Sample.job .buy).cmd.direction "EPjFWdd5AufqSSqeM2qN1xzybapC8G4wEGGkZwyTDt1v")
        ((mainSwap Sample.env Sample.alice (tradeMint (Sample.job .buy).cmd)
          (tradeLamports (Sample.job .buy).cmd)).trace (alone .worker Sample.trading) s₁) := by
  obtain ⟨s₁, hrun, hq⟩ := Sample.burnFuel_fuelled .buy fun _ => (solMint, solMint)
  obtain ⟨main, _, _, rfl, hiff⟩ := trade_directed_iff Sample.env Sample.alice (Sample.job .buy) _ rfl
    (by decide) .worker Sample.trading _ s₁ hrun _ hq _ (List.mem_cons_self ..)
  exact ⟨s₁, hrun, hiff.mpr rfl⟩

end Nexus
