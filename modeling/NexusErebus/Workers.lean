import NexusErebus.Trades

/-!
# Two workers for one queue

A job of the queue `trades` goes to the process that takes it first, worker.js or metrics.js.
Both make the same trade with the same commands (`settleTrade`).  They differ in what comes after
it.

* worker.js asks Telegram over HTTP to tell the user and ignores a failure.  It counts nothing.
* metrics.js calls the Telegram client and lets a failure through, so a job fails after its trade
  was made.  It counts every job once.

`workers_never_interchangeable` says all of this for every job and every environment.
-/

namespace Nexus

open Async Text

/-! ## The job of metrics.js -/

/-- Count a job by its outcome.  The histogram of the durations is left out. -/
def withMetrics (jobFn : Prog Unit) : Prog Unit :=
  ((await jobFn).bind fun _ => ask (.jobCounted true)).tryCatch fun e =>
    (ask (.jobCounted false)).bind fun _ => .throw e

/-- The job of metrics.js, once the key pair is in hand. -/
def metricsJob (env : Env) (wallet : Keypair) (job : TradeJob) : Prog Unit :=
  withMetrics (metricsTrade env wallet job)

/-! ## What the claim to be interchangeable means -/

/-- The URL of the requests that tell a user. -/
def notifyUrl (env : Env) : String := env.telegramApi ++ "/sendMessage"

/-- The command belongs to the trade.  It does not wait, count, or tell the user. -/
def Cmd.trades (env : Env) : Cmd → Bool
  | .tick | .jobCounted _ | .telegram _ => false
  | .fetch r => r.url ≠ notifyUrl env
  | _ => true

/-- The command counts a job. -/
def Cmd.counts : Cmd → Bool
  | .jobCounted _ => true
  | _ => false

/-- It does not matter which of two programs takes a job: they issue the same commands for the
trade, one completes just in case the other does, and both count the job once. -/
structure Interchangeable {σ : Type} (env : Env) (step : (c : Cmd) → σ → c.Res × σ) (s : σ)
    (p q : Prog Unit) : Prop where
  trades : (p.trace step s).filter (Cmd.trades env) = (q.trace step s).filter (Cmd.trades env)
  completes : (p.run step s).1 = .ok () ↔ (q.run step s).1 = .ok ()
  counted : ∀ r ∈ [p, q], ((r.trace step s).filter Cmd.counts).length = 1

/-! ## What the handlers share -/

section

variable (env : Env) (wallet : Keypair) (job : TradeJob)

/-- The trade and the new balances. -/
def settleTrade : Prog Unit := do
  burnFuel env wallet
  mainSwap env wallet (tradeMint job.cmd) (tradeLamports job.cmd)
  storeBalances env wallet job.handle

/-- The text of worker.js for the user. -/
def workerText (cmd : TradeCmd) : String := "✅ *Trade executed:* `" ++ tradeText cmd ++ "`"

/-- The message of metrics.js for the user. -/
def metricsMessage : TgCmd :=
  .sendMessage ("@" ++ job.handle.text) ("✅ [Trade] " ++ tradeText job.cmd)

/-- How metrics.js tells the user. -/
def metricsNotify : Prog Unit :=
  if env.useTelegram then attempt (ask (.telegram (metricsMessage job))) else .ret ()

theorem workerTrade_eq : workerTrade env wallet job =
    (settleTrade env wallet job).bind fun _ =>
      await (notifyTelegram env job.handle (workerText job.cmd)) := by
  simp only [settleTrade, Prog.bind_eq, Prog.bind_assoc']
  rfl

theorem metricsTrade_eq : metricsTrade env wallet job =
    (settleTrade env wallet job).bind fun _ => metricsNotify env job := by
  simp only [settleTrade, Prog.bind_eq, Prog.bind_assoc']
  rfl

end

section

variable {env : Env} {wallet : Keypair} {job : TradeJob}

/-- The command counts a job or sends a message. -/
def Cmd.reports : Cmd → Bool
  | .jobCounted _ | .telegram _ => true
  | _ => false

/-- The program reports nothing. -/
abbrev ReportsNothing {α : Type} (q : Prog α) : Prop := q.Issues fun c : Cmd => c.reports = false

theorem Cmd.reports_of_plumbing (c : Cmd) (hc : c.plumbing = true) : c.reports = false := by
  cases c with
  | jobCounted | telegram => cases hc
  | _ => rfl

theorem Cmd.counts_of_reports {c : Cmd} (hc : c.reports = false) : c.counts = false := by
  cases c with
  | jobCounted => cases hc
  | _ => rfl

theorem reportsNothing_upsertUser (handle : Str) (data : Obj) :
    ReportsNothing (upsertUser env handle data) := by
  refine Prog.issues_bind ?_ fun data => Prog.issues_bind ?_ fun data =>
    Prog.issues_bind (issues_redis rfl) fun _ => ?_
  · unfold upsertChatId
    split
    · exact Prog.issues_bind (issues_redis rfl) fun _ => .ret _
    · exact .ret _
  · unfold upsertWallet
    split
    · split
      · exact .ret _
      · exact Prog.issues_bind (Prog.issues_bind (issues_ask rfl) fun _ => .ret _) fun _ => .ret _
    · exact .ret _
  · split
    · exact .ret _
    · exact issues_redis rfl

theorem reportsNothing_quoteSOLto (mint : Str) (lamports : Number) :
    ReportsNothing (await (quoteSOLto env mint lamports)) :=
  issues_await rfl (issues_quoteSOLto rfl rfl fun _ _ => rfl)

theorem reportsNothing_executeSwap (route : Json) :
    ReportsNothing (await (executeSwap env route wallet)) :=
  issues_await rfl (issues_executeSwap Cmd.reports_of_plumbing (fun _ => rfl) fun _ => rfl)

theorem reportsNothing_settleTrade : ReportsNothing (settleTrade env wallet job) := by
  refine Prog.issues_bind ?_ fun _ => Prog.issues_bind ?_ fun _ => ?_
  · refine Prog.issues_bind (reportsNothing_quoteSOLto _ _) fun route => ?_
    refine Prog.issues_bind (reportsNothing_executeSwap route) fun _ => ?_
    refine Prog.issues_bind (issues_prop _ _) fun out => ?_
    exact issues_await rfl (issues_burnAndDev Cmd.reports_of_plumbing (fun _ => rfl) _ _ _)
  · exact Prog.issues_bind (reportsNothing_quoteSOLto _ _) reportsNothing_executeSwap
  · refine Prog.issues_bind (issues_await rfl (issues_refreshBalances _ rfl fun _ => rfl))
      fun balances => ?_
    exact issues_await rfl (reportsNothing_upsertUser _ _)

end

/-! ## What comes after the trade -/

section

variable {σ : Type} {step : (c : Cmd) → σ → c.Res × σ} {s : σ} {q : Prog Unit}

/-- The job is counted once, whatever its outcome, and keeps it. -/
theorem run_withMetrics :
    ((withMetrics q).run step s).1 = (q.run step s).1 := by
  rw [withMetrics, Prog.run_tryCatch, Prog.run_bind, await, Prog.run_bind]
  cases q.run step s with
  | mk r s' =>
      cases r with
      | ok a => rfl
      | error e => rfl

theorem trace_withMetrics : (withMetrics q).trace step s = q.trace step s ++
    (match (q.run step s).1 with
      | .ok _ => [.tick, .jobCounted true]
      | .error _ => [.jobCounted false]) := by
  rw [withMetrics, Prog.trace_tryCatch, Prog.trace_bind, Prog.run_bind, await, Prog.trace_bind,
    Prog.run_bind]
  cases q.run step s with
  | mk r s' =>
      cases r with
      | ok a => simp only [List.append_assoc]; rfl
      | error e => simp only [List.append_assoc]; rfl

variable {env : Env} {wallet : Keypair} {job : TradeJob}

/-- What issues no command of a kind adds none to what comes before it. -/
theorem filter_trace_bind {kind : Cmd → Bool} {f : Unit → Prog Unit}
    (hf : ∀ a, (f a).Issues fun c : Cmd => kind c = false) :
    ((q.bind f).trace step s).filter kind = (q.trace step s).filter kind := by
  rw [Prog.trace_bind, List.filter_append]
  cases q.run step s with
  | mk r s₁ =>
      cases r with
      | ok a =>
          have hnil : ((f a).trace step s₁).filter kind = [] :=
            List.filter_eq_nil_iff.mpr fun c hc => by simp [(hf a).trace c hc]
          exact (congrArg _ hnil).trans (List.append_nil _)
      | error e => exact List.append_nil _

/-- How worker.js tells the user. -/
theorem issues_notifyTelegram {kind : Cmd → Bool} (htick : kind .tick = false)
    (hfetch : ∀ r, r.url = notifyUrl env → kind (.fetch r) = false) (chatId : Str) (text : String) :
    (await (notifyTelegram env chatId text)).Issues fun c : Cmd => kind c = false :=
  issues_await htick (Prog.issues_bind (issues_ask (hfetch _ rfl)) fun _ => .ret _)

theorem issues_metricsNotify {pre : Cmd → Prop} (h : pre (.telegram (metricsMessage job))) :
    (metricsNotify env job).Issues pre := by
  unfold metricsNotify
  split
  · exact issues_attempt (issues_ask h)
  · exact .ret ()

/-- Telling the user of metrics.js fails if Telegram does. -/
theorem run_metricsNotify (s₁ : σ) : ((metricsNotify env job).run step s₁).1 = .ok () ↔
    (env.useTelegram = true → (step (.telegram (metricsMessage job)) s₁).1 = .ok ()) := by
  unfold metricsNotify
  cases env.useTelegram with
  | false => exact iff_of_true rfl nofun
  | true =>
      have hrun : (attempt (ask (.telegram (metricsMessage job)))).run step s₁ =
          step (.telegram (metricsMessage job)) s₁ :=
        Prog.run_ofExcept _ _
      rw [if_pos rfl, hrun]
      exact ⟨fun h _ => h, fun h => h rfl⟩

theorem filter_trades_workerTrade :
    ((workerTrade env wallet job).trace step s).filter (Cmd.trades env) =
      ((settleTrade env wallet job).trace step s).filter (Cmd.trades env) := by
  rw [workerTrade_eq]
  refine filter_trace_bind fun _ => issues_notifyTelegram rfl (fun r hr => ?_) _ _
  simp [Cmd.trades, hr]

theorem filter_trades_metricsTrade :
    ((metricsTrade env wallet job).trace step s).filter (Cmd.trades env) =
      ((settleTrade env wallet job).trace step s).filter (Cmd.trades env) := by
  rw [metricsTrade_eq]
  exact filter_trace_bind fun _ => issues_metricsNotify rfl

theorem filter_counts_settleTrade :
    ((settleTrade env wallet job).trace step s).filter Cmd.counts = [] :=
  List.filter_eq_nil_iff.mpr fun c hc => by
    simp [Cmd.counts_of_reports (reportsNothing_settleTrade.trace c hc)]

theorem filter_counts_workerTrade :
    ((workerTrade env wallet job).trace step s).filter Cmd.counts = [] := by
  rw [workerTrade_eq, filter_trace_bind fun _ => issues_notifyTelegram rfl (fun _ _ => rfl) _ _]
  exact filter_counts_settleTrade

theorem filter_counts_metricsTrade :
    ((metricsTrade env wallet job).trace step s).filter Cmd.counts = [] := by
  rw [metricsTrade_eq, filter_trace_bind fun _ => issues_metricsNotify rfl]
  exact filter_counts_settleTrade

theorem workerTrade_completes_iff : ((workerTrade env wallet job).run step s).1 = .ok () ↔
    ((settleTrade env wallet job).run step s).1 = .ok () := by
  rw [workerTrade_eq, Prog.run_bind]
  cases (settleTrade env wallet job).run step s with
  | mk r s₁ =>
      cases r with
      | ok a => exact iff_of_true rfl rfl
      | error e => exact Iff.rfl

theorem metricsTrade_completes_iff : ((metricsTrade env wallet job).run step s).1 = .ok () ↔
    ((settleTrade env wallet job).run step s).1 = .ok () ∧ (env.useTelegram = true →
      (step (.telegram (metricsMessage job)) ((settleTrade env wallet job).run step s).2).1 =
        .ok ()) := by
  rw [metricsTrade_eq, Prog.run_bind]
  cases (settleTrade env wallet job).run step s with
  | mk r s₁ =>
      cases r with
      | ok a => exact (run_metricsNotify s₁).trans (and_iff_right rfl).symm
      | error e => exact iff_of_false nofun fun h => nomatch h.1

end

/-- The workers make the same trade.  A job that completes in worker.js completes in metrics.js
only if Telegram takes the message, and worker.js counts no job, so it always matters which of
them takes it. -/
theorem workers_never_interchangeable (env : Env) (wallet : Keypair) (job : TradeJob) {σ : Type}
    (step : (c : Cmd) → σ → c.Res × σ) (s : σ) :
    ¬ Interchangeable env step s (workerTrade env wallet job) (metricsJob env wallet job) ∧
      ((workerTrade env wallet job).trace step s).filter (Cmd.trades env) =
        ((metricsJob env wallet job).trace step s).filter (Cmd.trades env) ∧
      (((metricsJob env wallet job).run step s).1 = .ok () ↔
        ((workerTrade env wallet job).run step s).1 = .ok () ∧ (env.useTelegram = true →
          (step (.telegram (metricsMessage job)) ((settleTrade env wallet job).run step s).2).1 =
            .ok ())) ∧
      ((workerTrade env wallet job).trace step s).filter Cmd.counts = [] ∧
      (((metricsJob env wallet job).trace step s).filter Cmd.counts).length = 1 := by
  refine ⟨fun h => ?_, ?_, ?_, filter_counts_workerTrade, ?_⟩
  · have hone := h.counted _ (List.mem_cons_self ..)
    rw [filter_counts_workerTrade] at hone
    cases hone
  · rw [metricsJob, trace_withMetrics, List.filter_append, filter_trades_metricsTrade,
      filter_trades_workerTrade]
    cases ((metricsTrade env wallet job).run step s).1 with
    | ok a => exact (List.append_nil _).symm
    | error e => exact (List.append_nil _).symm
  · rw [metricsJob, run_withMetrics, workerTrade_completes_iff]
    exact metricsTrade_completes_iff
  · rw [metricsJob, trace_withMetrics, List.filter_append, filter_counts_metricsTrade]
    cases ((metricsTrade env wallet job).run step s).1 with
    | ok a => rfl
    | error e => rfl

namespace Sample

/-- The services work and the balances can be read, but Telegram does not know the chat. -/
def unreachable (c : Cmd) (t : Unit) : c.Ans × Unit :=
  match c with
  | .getBalance _ => (.ok 900000000, t)
  | .getAccountInfo _ => (.ok none, t)
  | .telegram _ => (.error (.new "400: Bad Request: chat not found"), t)
  | c => trading c t

theorem unreachable_serves : Serves env alice unreachable where
  swap := trading_serves.swap
  decimals := trading_serves.decimals
  blockhash := trading_serves.blockhash
  send := trading_serves.send

theorem storeBalances_unreachable (h : Str) :
    (storeBalances env alice h).Returns (alone .worker unreachable) fun _ => True := by
  refine Prog.returns_seq (returns_await fun s => ⟨_, _, rfl, trivial⟩) fun b => ?_
  refine returns_await fun s => ?_
  obtain ⟨_, st, t, -, hrun, -⟩ := upsertUser_run env .worker unreachable h
    [("sol", some b.1.shortText), ("tierBal", some b.2.shortText)] s.1 s.2
  exact ⟨(), (st, t), hrun, trivial⟩

/-- The quote service knows no route. -/
theorem fetchQuote_unreachable (mint : Str) (lamports : Number) :
    (fetchQuote env mint lamports).Returns (alone .worker unreachable) fun route => route = .null := by
  rintro ⟨st, t⟩
  have hparse : parseJson (some (Json.stringify (.obj [("data", .arr [])]))) =
      .ok (.obj [("data", .arr [])]) := by
    simp only [parseJson, Str.text_some]
    rw [Json.parse_stringify (by simp [Json.Plain, Json.PlainMembers, Json.PlainElems])]
  have hanswer : (unreachable (.fetch ⟨quoteUrl mint lamports, "GET", .none⟩) t).1 =
      .ok ⟨true, "OK", Json.stringify (.obj [("data", .arr [])])⟩ := by
    simp [unreachable, trading]
  have hfetch := run_fetchJson .worker unreachable ⟨quoteUrl mint lamports, "GET", .none⟩ st t
  rw [hanswer, Except.bind, hparse] at hfetch
  exact ⟨.null, _, Prog.run_bind_ok (Prog.run_outcome hfetch), rfl⟩

theorem quoteSOLto_unreachable {st : St} {mint : Str} {lamports : Number}
    (h : (Redis.exec st.clock (.get (quoteKey mint lamports)) st.redis).1 = none) :
    ∃ s, (await (quoteSOLto env mint lamports)).run (alone .worker unreachable) (st, ()) =
      (.ok .null, s) := by
  obtain ⟨s, hrun, -⟩ := quoteSOLto_uncached env .worker unreachable ()
    (show (Redis.exec st.clock (.get (quoteKey mint lamports)) st.redis).1.getD "" = "" by rw [h]; rfl)
  obtain ⟨_, s', hquote, rfl⟩ := fetchQuote_unreachable mint lamports s
  obtain ⟨t, hawait⟩ := run_await (hrun.trans hquote)
  exact ⟨_, hawait⟩

/-- Without a route the main step does nothing. -/
theorem mainSwap_unreachable {st : St} {mint : Str} {lamports : Number}
    (h : (Redis.exec st.clock (.get (quoteKey mint lamports)) st.redis).1 = none) :
    ∃ s, (mainSwap env alice mint lamports).run (alone .worker unreachable) (st, ()) =
      (.ok (), s) := by
  obtain ⟨s, hquote⟩ := quoteSOLto_unreachable h
  obtain ⟨_, s₂, hswap, -⟩ := returns_await (executeSwap_returns unreachable_serves .null) s
  exact ⟨s₂, (Prog.run_bind_ok hquote).trans hswap⟩

/-- The fuel is bought, the main step does nothing, and the balances are stored. -/
theorem settleTrade_unreachable : ∃ s₁ s₂ s₃,
    (burnFuel env alice).run (alone .worker unreachable) (fuelled, ()) = (.ok (), s₁) ∧
      s₁.1.redis.strings = fuelled.redis.strings ∧
      (mainSwap env alice (tradeMint (job .buy).cmd) (tradeLamports (job .buy).cmd)).run
        (alone .worker unreachable) s₁ = (.ok (), s₂) ∧
      (settleTrade env alice (job .buy)).run (alone .worker unreachable) (fuelled, ()) =
        (.ok (), s₃) := by
  obtain ⟨⟨st₁, ⟨⟩⟩, hfuel, hstrings⟩ := burnFuel_fuelled_strings unreachable_serves
  obtain ⟨s₂, hmain⟩ := mainSwap_unreachable (uncached hstrings .buy _ (List.mem_cons_self ..))
  obtain ⟨_, s₃, hstore, -⟩ := storeBalances_unreachable (job .buy).handle s₂
  exact ⟨(st₁, ()), s₂, s₃, hfuel, hstrings, hmain,
    (Prog.run_bind_ok hfuel).trans ((Prog.run_bind_ok hmain).trans hstore)⟩

/-- The trade is made in both workers.  worker.js completes the job and does not count it.
metrics.js counts it, as a failure, since the user cannot be told. -/
theorem workers_differ :
    ((workerTrade env alice (job .buy)).run (alone .worker unreachable) (fuelled, ())).1 = .ok () ∧
      ((metricsJob env alice (job .buy)).run (alone .worker unreachable) (fuelled, ())).1 ≠ .ok () ∧
      ((workerTrade env alice (job .buy)).trace (alone .worker unreachable)
        (fuelled, ())).filter Cmd.counts = [] := by
  obtain ⟨s₁, s₂, s₃, -, -, -, hrun⟩ := settleTrade_unreachable
  have hsettle : ((settleTrade env alice (job .buy)).run (alone .worker unreachable)
      (fuelled, ())).1 = .ok () := by
    rw [hrun]
  refine ⟨workerTrade_completes_iff.mpr hsettle, fun h => ?_, filter_counts_workerTrade⟩
  rw [metricsJob, run_withMetrics] at h
  have htold := (metricsTrade_completes_iff.mp h).2 rfl
  cases htold

end Sample

end Nexus
