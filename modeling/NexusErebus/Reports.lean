import NexusErebus.Workers

/-!
# Reports of trades

After a trade both workers tell the user that it was executed.  The trade may fail in three ways.
A swap that fails after its retries throws, and so does a transfer, so the user is told nothing.
A quote that finds no route is `null`, and `executeSwap` returns at once without a swap.  For the
fuel this is caught by accident, because the amount of the route is read next.  For the main swap
nothing reads the route, so the job goes on and reports a trade that was never made.

`trade_truthful_iff` is about every run of both workers.
-/

namespace Nexus

open Async Text

/-! ## Reports -/

/-- The two processes that take trades. -/
inductive TradeWorker where
  | worker | metrics

namespace TradeWorker

variable (env : Env) (wallet : Keypair) (job : TradeJob)

/-- What a worker does with a job, once the key pair is in hand. -/
def trade : TradeWorker → Prog Unit
  | .worker => workerTrade env wallet job
  | .metrics => metricsTrade env wallet job

/-- How a worker tells the user of a success. -/
def notice : TradeWorker → Cmd
  | .worker => .fetch ⟨notifyUrl env, "POST", .text (Json.stringify (.obj
      ((match job.handle with | some id => [("chat_id", .str id)] | none => []) ++
        [("text", .str (workerText job.cmd)), ("parse_mode", .str "Markdown")])))⟩
  | .metrics => .telegram (metricsMessage job)

/-- Telegram takes the message, if it is a matter of the job. -/
def delivers {σ : Type} (step : (c : Cmd) → σ → c.Res × σ) (s : σ) : TradeWorker → Prop
  | .worker => True
  | .metrics => env.useTelegram = true ∧ (step (.telegram (metricsMessage job)) s).1 = .ok ()

end TradeWorker

section

variable (env : Env) (wallet : Keypair) (job : TradeJob) {τ : Type} (p : Pid)
  (strat : (c : Cmd) → τ → c.Ans × τ) (s : St × τ)

/-- The main step of the job. -/
def mainStep : Prog Unit := mainSwap env wallet (tradeMint job.cmd) (tradeLamports job.cmd)

/-- Between the two ledgers a transaction of the user was submitted and reported confirmed. -/
def Confirmed (before after : Ledger) : Prop :=
  ∃ sub ∈ Ledger.since before after, sub.tx.signer = wallet ∧ sub.report.isOk = true

/-- The main swap was submitted and reported confirmed. -/
def MainConfirmed : Prop :=
  ∃ s₁ s₂, (burnFuel env wallet).run (alone p strat) s = (.ok (), s₁) ∧
    (mainStep env wallet job).run (alone p strat) s₁ = (.ok (), s₂) ∧
    Confirmed wallet s₁.1.chain s₂.1.chain

/-- If the worker completes the job and tells the user, then the main swap was confirmed. -/
def Truthful (w : TradeWorker) : Prop :=
  ((w.trade env wallet job).run (alone p strat) s).1 = .ok () →
    w.notice env job ∈ (w.trade env wallet job).trace (alone p strat) s →
      MainConfirmed env wallet job p strat s

/-- There is a route for the main swap when its quote is asked for. -/
def Routed : Prop :=
  ∀ s₁, (burnFuel env wallet).run (alone p strat) s = (.ok (), s₁) →
    ∀ route s₂, (await (quoteSOLto env (tradeMint job.cmd) (tradeLamports job.cmd))).run
      (alone p strat) s₁ = (.ok route, s₂) → Json.truthy (some route) = true

end

/-! ## Confirmed swaps -/

section

variable {env : Env} {wallet : Keypair} {job : TradeJob} {τ : Type} {p : Pid}
  {strat : (c : Cmd) → τ → c.Ans × τ} {s s' : St × τ}

theorem swapTransaction_signer {r : Json} {tx : SignedTx}
    (h : swapTransaction env wallet r = .ok tx) : tx.signer = wallet := by
  unfold swapTransaction at h
  split at h
  · cases h
  · split at h
    · cases h
    · split at h
      · cases h
        rfl
      · cases h

/-- An attempt that returns has submitted a transaction that was reported confirmed. -/
theorem swapAttempt_confirms {route : Json}
    (h : (swapAttempt env route wallet).run (alone p strat) s = (.ok (), s')) :
    ∃ sub, s'.1.chain = s.1.chain ++ [sub] ∧ sub.tx.signer = wallet ∧ sub.report.isOk = true := by
  obtain ⟨v, s₁, hfetch, h⟩ := Prog.run_bind_eq_ok h
  obtain ⟨tx, s₂, htx, h⟩ := Prog.run_bind_eq_ok h
  obtain ⟨sig, s₃, hsend, h⟩ := Prog.run_bind_eq_ok h
  cases h
  rw [Prog.run_ofExcept] at htx
  obtain ⟨hsigned, rfl⟩ := Prod.mk.inj htx
  have hchain : s₁.1.chain = s.1.chain := by
    have hquiet : Quiet (fetchJson (swapRequest route wallet)) := issues_fetchJson rfl
    have hrun := hquiet.chain p strat s
    rwa [hfetch] at hrun
  have hrun := @run_attempt τ p strat _ _ _ _ _
    (run_ask (.sendAndConfirmRawTransaction tx true) s₁.1 s₁.2)
  obtain ⟨hreport, rfl⟩ := Prod.mk.inj (hrun.symm.trans hsend)
  refine ⟨⟨tx, (strat (.sendAndConfirmRawTransaction tx true) s₁.2).1.2, .ok sig⟩, ?_,
    swapTransaction_signer hsigned, rfl⟩
  rw [← hchain, ← hreport]
  rfl

/-- A failure that was reported is thrown again. -/
theorem rpcFailed_ne_ok {α : Type} (event : List (String × Json)) (e : Err) (s : St × τ)
    (x : α × (St × τ)) : (rpcFailed env event e : Prog α).run (alone p strat) s ≠ (.ok x.1, x.2) := by
  intro h
  obtain ⟨_, _, -, h⟩ := Prog.run_bind_eq_ok h
  obtain ⟨_, _, -, h⟩ := Prog.run_bind_eq_ok h
  cases h

/-- A swap on a route that returns was confirmed. -/
theorem executeSwap_confirms {route : Json} (ht : Json.truthy (some route) = true)
    (h : (executeSwap env route wallet).run (alone p strat) s = (.ok (), s')) :
    Confirmed wallet s.1.chain s'.1.chain := by
  -- before every attempt the chain has grown, and an attempt that returns was confirmed
  obtain ⟨hok, -⟩ := retryLoop_rule (alone p strat) (swapAttempt env route wallet)
    RetryOpts.defaults.delay RetryOpts.defaults.factor
    (I := fun s₁ => ∃ subs, s₁.1.chain = s.1.chain ++ subs)
    (G := fun _ s₁ => Confirmed wallet s.1.chain s₁.1.chain)
    (by
      rintro s₁ a s₂ ⟨subs, hs⟩ hrun
      obtain ⟨s₃, hrun'⟩ := run_await_ok hrun
      obtain ⟨sub, hsub, hconf⟩ := swapAttempt_confirms hrun'
      have hchain := @await_chain p _ _ strat (swapAttempt env route wallet) s₁
      rw [hrun, hrun'] at hchain
      refine ⟨sub, ?_, hconf⟩
      rw [hchain, hsub, hs, List.append_assoc, Ledger.since_append]
      simp)
    (by
      rintro s₁ e s₂ ⟨subs, hs⟩ hrun
      obtain ⟨subs', hs', -⟩ := run_chain p strat (await (swapAttempt env route wallet)) s₁
      rw [hrun, hs, List.append_assoc] at hs'
      exact ⟨_, hs'⟩)
    (fun _ _ h => h) RetryOpts.defaults.attempts 0 none s ⟨[], (List.append_nil _).symm⟩
  rw [executeSwap, if_pos ht] at h
  obtain ⟨s₁, htry⟩ := run_await_ok h
  have hchain : s'.1.chain = s₁.1.chain := by
    have hwait := @await_chain p _ _ strat ((withRetry (swapAttempt env route wallet) .defaults).tryCatch
      (rpcFailed env [("event", .str "swap_failure"), ("wallet", .str wallet.address)])) s
    rwa [h, htry] at hwait
  rw [hchain]
  rw [Prog.run_tryCatch] at htry
  split at htry
  next a s₂ hrun =>
    cases htry
    exact hok () s₁ hrun
  next e s₂ hrun => exact absurd htry (rpcFailed_ne_ok _ _ _ ((), s₁))

/-! ## The main step -/

/-- Without a route nothing is submitted, and with one the step returns only if a swap was
confirmed. -/
theorem mainStep_confirmed_iff {s₁ s₂ s₃ : St × τ} {route : Json}
    (hquote : (await (quoteSOLto env (tradeMint job.cmd) (tradeLamports job.cmd))).run
      (alone p strat) s₁ = (.ok route, s₂))
    (hmain : (mainStep env wallet job).run (alone p strat) s₁ = (.ok (), s₃)) :
    Confirmed wallet s₁.1.chain s₃.1.chain ↔ Json.truthy (some route) = true := by
  have hquiet : Quiet (await (quoteSOLto env (tradeMint job.cmd) (tradeLamports job.cmd))) :=
    issues_await rfl (issues_quoteSOLto rfl rfl fun _ _ => rfl)
  have hchain : s₂.1.chain = s₁.1.chain := by
    have hrun := hquiet.chain p strat s₁
    rwa [hquote] at hrun
  have hswap : (await (executeSwap env route wallet)).run (alone p strat) s₂ = (.ok (), s₃) :=
    (Prog.run_bind_ok hquote).symm.trans hmain
  obtain ⟨s₄, hrun⟩ := run_await_ok hswap
  have hwait := @await_chain p _ _ strat (executeSwap env route wallet) s₂
  rw [hswap, hrun] at hwait
  rw [hwait, ← hchain]
  constructor
  · rintro ⟨sub, hsub, -⟩
    by_contra ht
    rw [executeSwap, if_neg ht] at hrun
    cases hrun
    simp [Ledger.since] at hsub
  · exact fun ht => executeSwap_confirms ht hrun

theorem mem_trace_notifyTelegram {σ : Type} (step : (c : Cmd) → σ → c.Res × σ) (s : σ) :
    TradeWorker.notice env job .worker ∈
      (await (notifyTelegram env job.handle (workerText job.cmd))).trace step s := by
  rw [await, Prog.trace_bind]
  exact List.mem_append_left _ (List.mem_cons_self ..)

/-- metrics.js sends its message only where Telegram is in use. -/
theorem mem_trace_metricsNotify {σ : Type} (step : (c : Cmd) → σ → c.Res × σ) (s : σ) :
    TradeWorker.notice env job .metrics ∈ (metricsNotify env job).trace step s ↔
      env.useTelegram = true := by
  unfold metricsNotify
  split
  next h => exact iff_of_true (List.mem_cons_self ..) h
  next h => exact iff_of_false List.not_mem_nil h

/-- A job that completes and tells the user has settled its trade, and its message was taken. -/
theorem told_iff (w : TradeWorker) :
    ((w.trade env wallet job).run (alone p strat) s).1 = .ok () ∧
      w.notice env job ∈ (w.trade env wallet job).trace (alone p strat) s ↔
    ((settleTrade env wallet job).run (alone p strat) s).1 = .ok () ∧
      w.delivers env job (alone p strat) ((settleTrade env wallet job).run (alone p strat) s).2 := by
  cases w with
  | worker =>
      refine (and_congr_left' workerTrade_completes_iff).trans (and_congr_right fun hok => ?_)
      refine iff_of_true ?_ trivial
      rw [TradeWorker.trade, workerTrade_eq]
      exact Prog.mem_trace_bind_ok (Prod.ext hok rfl) (mem_trace_notifyTelegram _ _)
  | metrics =>
      refine (and_congr_left' metricsTrade_completes_iff).trans ?_
      rw [and_assoc]
      refine and_congr_right fun hok => ?_
      obtain ⟨s₁, hrun⟩ : ∃ s₁, (settleTrade env wallet job).run (alone p strat) s = (.ok (), s₁) :=
        ⟨_, Prod.ext hok rfl⟩
      have hnotice : TradeWorker.notice env job .metrics ∈
          (metricsTrade env wallet job).trace (alone p strat) s ↔ env.useTelegram = true := by
        rw [← @mem_trace_metricsNotify env job _ (alone p strat) s₁, metricsTrade_eq,
          Prog.trace_bind, hrun, List.mem_append]
        -- the trade itself sends no message
        exact or_iff_right fun hmem => nomatch reportsNothing_settleTrade.trace _ hmem
      rw [TradeWorker.trade, hnotice]
      exact ⟨fun h => ⟨h.2, h.1 h.2⟩, fun h => ⟨fun _ => h.2, h.1⟩⟩

/-- In a trade that is settled the main swap was confirmed if and only if there was a route. -/
theorem mainConfirmed_iff_routed
    (h : ((settleTrade env wallet job).run (alone p strat) s).1 = .ok ()) :
    MainConfirmed env wallet job p strat s ↔ Routed env wallet job p strat s := by
  obtain ⟨⟨⟩, s₁, hfuel, hrest⟩ := Prog.run_bind_eq_ok (Prod.ext h rfl)
  obtain ⟨⟨⟩, s₂, hmain, -⟩ := Prog.run_bind_eq_ok hrest
  obtain ⟨route, s₃, hquote, -⟩ := Prog.run_bind_eq_ok hmain
  have hiff := mainStep_confirmed_iff hquote hmain
  constructor
  · rintro ⟨t₁, t₂, hfuel', hmain', hconfirmed⟩ u₁ hu₁ route' u₂ hu₂
    cases hfuel.symm.trans hfuel'
    cases hfuel.symm.trans hu₁
    cases hmain.symm.trans hmain'
    cases hquote.symm.trans hu₂
    exact hiff.mp hconfirmed
  · exact fun hrouted => ⟨s₁, s₂, hfuel, hmain, hiff.mpr (hrouted s₁ hfuel route s₃ hquote)⟩

/-- A worker that tells its user of a success tells the truth if and only if there was a route for
the main swap. -/
theorem trade_truthful_iff (env : Env) (wallet : Keypair) (job : TradeJob) {τ : Type} (p : Pid)
    (strat : (c : Cmd) → τ → c.Ans × τ) (s : St × τ) (w : TradeWorker) :
    Truthful env wallet job p strat s w ↔
      (((settleTrade env wallet job).run (alone p strat) s).1 = .ok () →
        w.delivers env job (alone p strat) ((settleTrade env wallet job).run (alone p strat) s).2 →
          Routed env wallet job p strat s) := by
  have htruthful : Truthful env wallet job p strat s w ↔
      (((settleTrade env wallet job).run (alone p strat) s).1 = .ok () ∧
        w.delivers env job (alone p strat) ((settleTrade env wallet job).run (alone p strat) s).2 →
          MainConfirmed env wallet job p strat s) := by
    rw [← told_iff, and_imp]
    rfl
  rw [htruthful, and_imp]
  exact forall_congr' fun hok => forall_congr' fun _ => mainConfirmed_iff_routed hok

end

namespace Sample

/-- There is a route for the fuel but none for the tokens.  Nothing is bought, and the user is
told that the trade was executed. -/
theorem trade_untruthful :
    ((TradeWorker.worker.trade env alice (job .buy)).run (alone .worker unreachable)
        (fuelled, ())).1 = .ok () ∧
      TradeWorker.worker.notice env (job .buy) ∈
        (TradeWorker.worker.trade env alice (job .buy)).trace (alone .worker unreachable)
          (fuelled, ()) ∧
      ¬ MainConfirmed env alice (job .buy) .worker unreachable (fuelled, ()) := by
  obtain ⟨⟨st₁, ⟨⟩⟩, s₂, s₃, hfuel, hstrings, hmain, hrun⟩ := settleTrade_unreachable
  have hsettle : ((settleTrade env alice (job .buy)).run (alone .worker unreachable)
      (fuelled, ())).1 = .ok () := by
    rw [hrun]
  have htold := (told_iff .worker).mpr ⟨hsettle, trivial⟩
  refine ⟨htold.1, htold.2, fun h => ?_⟩
  have hrouted := (mainConfirmed_iff_routed hsettle).mp h
  obtain ⟨s, hquote⟩ := quoteSOLto_unreachable (uncached hstrings .buy _ (List.mem_cons_self ..))
  exact nomatch hrouted _ hfuel _ _ hquote

end Sample

end Nexus
