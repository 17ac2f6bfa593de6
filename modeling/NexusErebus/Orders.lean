import NexusErebus.Deposits
import NexusErebus.Footprint
import NexusErebus.Text.Decimal

/-!
# The trades that are queued

Jobs for the worker are made in four places.  A text is searched for a trade, whose amount is any
run of digits and points.  The buttons for quick trades and `POST /trade` send a payload, whose
amount is fixed.  A watcher sells a little when a balance has changed.

A job is well formed if the worker can make sense of it (`TradeJob.WellFormed`).
`queued_wellFormed_iff` says what has to be true of a message for that.  Nothing checks the amount
of a text, and the message of a quick trade has no handle.
-/

namespace Nexus

open Async Text

/-- From 32 to 44 letters and digits. -/
def IsMint (mint : String) : Prop :=
  32 ≤ mint.toList.length ∧ mint.toList.length ≤ 44 ∧ ∀ c ∈ mint.toList, c.isAlphanum = true

/-- A mint, a handle, and an amount that is a positive number of lamports. -/
structure TradeJob.WellFormed (job : TradeJob) : Prop where
  mint : ∃ mint, job.cmd.mint = some mint ∧ IsMint mint
  handle : ∃ handle, job.handle = some handle ∧ handle ≠ ""
  sol : ∃ q : ℚ, job.cmd.sol = some q ∧ ∃ n : Nat, 0 < n ∧ q * 10 ^ 9 = n

/-- A command that queues no job, or one that is well formed. -/
def Cmd.queuesWell : Cmd → Prop
  | .addJob job => job.WellFormed
  | _ => True

/-- The messages the front ends give to `handleMessage`, and the callback of the watchers. -/
inductive Order where
  /-- A text to the agent in a Telegram chat. -/
  | telegram (sender : TgAccount) (chat : Chat) (text : String)
  /-- A press of a button for quick trades. -/
  | quick (side : Side) (handle : Str)
  | tweet (handle text : String)
  /-- `POST /trade`, by the user of a token. -/
  | rest (user : String) (body : Option Json)
  /-- A balance of a user has changed. -/
  | notice (handle : Str)

section

variable (env : Env)

/-- What is done with an order. -/
def Order.body : Order → Prog Unit
  | .telegram sender chat text =>
      handleMessage env
        ⟨some sender.handle, some (forAgent env text), none, some (.telegram chat.id)⟩
  | .quick .buy handle => handleMessage env (quickTrade "QBUY" handle)
  | .quick .sell handle => handleMessage env (quickTrade "QSELL" handle)
  | .tweet handle text => handleMessage env (tweetMessage handle text)
  | .rest user body =>
      match schemaTrade body with
      | some (side, mint, _) => handleMessage env (tradeMessage (some user) side mint)
      | none => .ret ()
  | .notice handle => onUpdate env handle

/-- The amount that the patterns for trades find in a text. -/
def amountIn (clean : String) : Option String :=
  ((Rx.buy.exec clean).or (Rx.sell.exec clean)).bind (·.lookup 2)

/-- The text asks for no trade, or there is a handle and the amount is written with at most one
point, a digit that is not zero, and nothing but zeros behind the ninth decimal. -/
def soundText (handle text : String) : Bool :=
  match amountIn (stripMention env text) with
  | some amount => handle ≠ "" && Number.wholeUnits 9 amount
  | none => true

/-- The orders that are carried out well. -/
def Order.sound : Order → Bool
  | .telegram sender _ text => soundText env sender.handle (forAgent env text)
  | .quick _ _ => false
  | .tweet handle text => soundText env (toLowerCase handle) text
  | .rest user body => (schemaTrade body).isNone || user ≠ ""
  | .notice handle => handle.getD "" ≠ ""

end

section

variable {env : Env}

/-! ## Texts -/

/-- What the pattern of a trade captures. -/
theorem trade_exec {word s : String} {groups : List (Nat × String)}
    (h : (Rx.trade word).exec s = some groups) :
    ∃ mint amount, groups = [(2, amount), (1, mint)] ∧ IsMint mint ∧
      (∀ c ∈ amount.toList, Number.isDecimal c = true) ∧ amount.toList ≠ [] := by
  obtain ⟨pl, pl', hpl, -, hmem, rfl⟩ := Rx.mem_places_of_exec h
  obtain ⟨p₁, h₁, hmem⟩ := List.mem_flatMap.mp hmem
  obtain ⟨p₂, h₂, hmem⟩ := List.mem_flatMap.mp hmem
  obtain ⟨p₃, h₃, hmem⟩ := List.mem_flatMap.mp hmem
  obtain ⟨p₄, h₄, h₅⟩ := List.mem_flatMap.mp hmem
  obtain ⟨mint, -, hg₃, hmint, hmin, hmax⟩ := Rx.groups_of_many h₃
  obtain ⟨amount, -, hg₅, hamount, hone, -⟩ := Rx.groups_of_many h₅
  refine ⟨String.ofList mint, String.ofList amount, ?_, ⟨?_, ?_, ?_⟩, ?_, ?_⟩
  rotate_left
  · simpa using hmin
  · simpa using hmax 44 rfl
  · simpa using hmint
  · rw [String.toList_ofList]
    exact hamount
  · simpa using List.ne_nil_of_length_pos hone
  rw [hg₅, Rx.groups_of_silent rfl h₄, hg₃, Rx.groups_of_silent rfl h₂,
    Rx.groups_of_silent rfl h₁, hpl]

/-- A text asks for a trade if a pattern finds an amount in it. -/
theorem textCmd_trade (clean : String) :
    match amountIn clean with
    | none => ∀ cmd, textCmd clean ≠ some (.trade cmd)
    | some amount => ∃ t mint, textCmd clean = some (.trade ⟨t, some mint, Number.ofText amount⟩) ∧
        IsMint mint ∧ (∀ c ∈ amount.toList, Number.isDecimal c = true) ∧ amount.toList ≠ [] := by
  cases hbuy : Rx.buy.exec clean with
  | some groups =>
      obtain ⟨mint, amount, rfl, hmint, hamount⟩ := trade_exec hbuy
      have hfound : amountIn clean = some amount := by
        rw [amountIn, hbuy]
        rfl
      rw [hfound]
      refine ⟨.buy, mint, ?_, hmint, hamount⟩
      rw [textCmd, hbuy]
      rfl
  | none =>
      cases hsell : Rx.sell.exec clean with
      | some groups =>
          obtain ⟨mint, amount, rfl, hmint, hamount⟩ := trade_exec hsell
          have hfound : amountIn clean = some amount := by
            rw [amountIn, hbuy, hsell]
            rfl
          rw [hfound]
          refine ⟨.sell, mint, ?_, hmint, hamount⟩
          rw [textCmd, hbuy, hsell]
          rfl
      | none =>
          have hfound : amountIn clean = none := by rw [amountIn, hbuy, hsell]; rfl
          rw [hfound]
          intro cmd
          rw [textCmd, hbuy, hsell]
          dsimp only
          repeat' split
          all_goals simp

/-! ## Messages -/

theorem queuesWell_errand {h : Str} {c : Cmd} (hc : c.errand h) : c.queuesWell := by
  cases c with
  | addJob => cases hc
  | _ => trivial

theorem queuesWell_of_errand {α : Type} {h : Str} {q : Prog α} (hq : q.Issues (Cmd.errand h)) :
    q.Issues Cmd.queuesWell :=
  Prog.issues_mono (fun _ => queuesWell_errand) hq

theorem queuesWell_ensure (h : Str) : (ensure env h).Issues Cmd.queuesWell :=
  issues_ensure (fun _ => queuesWell_errand) trivial fun _ => trivial

theorem queuesWell_walletOf (h : Str) : (walletOf env h).Issues Cmd.queuesWell :=
  issues_walletOf (fun _ => queuesWell_errand) trivial (fun _ => trivial) fun _ => trivial

theorem handleMessage_of_trade {m : Message} {cmd : TradeCmd} (h : m.trade env = some cmd) :
    handleMessage env m = dispatchTrade cmd m.handle m.reply := by
  unfold Message.trade at h
  unfold handleMessage
  split at h
  next side mint hact =>
    cases h
    rw [hact]
    rfl
  next => cases h
  next hact =>
    rw [hact]
    split at h
    next cmd' hcmd =>
      cases h
      dsimp only
      rw [hcmd]
      rfl
    next => cases h

/-- A message queues the trade it asks for and nothing else. -/
theorem message_iff (m : Message) : (handleMessage env m).Issues Cmd.queuesWell ↔
    ∀ cmd, m.trade env = some cmd → (⟨cmd, m.handle⟩ : TradeJob).WellFormed := by
  constructor
  · intro h cmd hcmd
    rw [handleMessage_of_trade hcmd] at h
    cases h with
    | call hc _ => exact hc
  · intro h
    refine closed_message_of (Prog.closed_issues _) (fun c hc => issues_ask (queuesWell_errand hc))
      (queuesWell_ensure m.handle) (queuesWell_walletOf m.handle) rfl fun cmd hcmd => ?_
    refine Prog.issues_bind (issues_await trivial (issues_ask (h cmd hcmd))) fun _ => ?_
    cases m.reply with
    | some r => exact Prog.issues_spawn (queuesWell_of_errand (errand_send (h := none) r _))
    | none => exact .ret ()

/-- A message with a text. -/
theorem text_iff (handle text : String) (reply : Option Reply) :
    (handleMessage env ⟨some handle, some text, none, reply⟩).Issues Cmd.queuesWell ↔
      soundText env handle text = true := by
  rw [message_iff]
  have htrade : ∀ cmd, (⟨some handle, some text, none, reply⟩ : Message).trade env = some cmd ↔
      textCmd (stripMention env text) = some (.trade cmd) := by
    intro cmd
    have hbutton : buttonAct none = none := rfl
    simp only [Message.trade, hbutton, Option.getD_some]
    split
    next cmd' hcmd => simp [hcmd]
    next hcmd => exact iff_of_false (by simp) (hcmd cmd)
  simp only [htrade]
  have hcmd := textCmd_trade (stripMention env text)
  unfold soundText
  cases hamount : amountIn (stripMention env text) with
  | none =>
      rw [hamount] at hcmd
      exact iff_of_true (fun cmd h => absurd h (hcmd cmd)) rfl
  | some amount =>
      rw [hamount] at hcmd
      obtain ⟨t, mint, htext, hmint, hdec, hne⟩ := hcmd
      have hunits := Number.wholeUnits_iff hdec hne 9
      simp only [htext, Option.some.injEq, TextCmd.trade.injEq, forall_eq', Bool.and_eq_true,
        decide_eq_true_eq, hunits]
      generalize Number.ofText amount = sol
      constructor
      · intro h
        obtain ⟨_, hhandle, hne⟩ := h.handle
        cases hhandle
        exact ⟨hne, h.sol⟩
      · rintro ⟨hhandle, hsol⟩
        exact ⟨⟨mint, rfl, hmint⟩, ⟨handle, rfl, hhandle⟩, hsol⟩

/-! ## Payloads -/

/-- A number of lamports of a mint is a trade for every handle. -/
theorem wellFormed_iff {side : Side} {mint : String} {q : ℚ} (hmint : IsMint mint)
    (hq : ∃ n : Nat, 0 < n ∧ q * 10 ^ 9 = n) (handle : Str) :
    (⟨⟨side, some mint, some q⟩, handle⟩ : TradeJob).WellFormed ↔ handle.getD "" ≠ "" := by
  constructor
  · intro h
    obtain ⟨_, hhandle, hne⟩ := h.handle
    cases hhandle
    exact hne
  · intro h
    refine ⟨⟨mint, rfl, hmint⟩, ?_, q, rfl, hq⟩
    cases handle with
    | none => exact absurd rfl h
    | some handle => exact ⟨handle, rfl, h⟩

theorem tenth_units : ∃ n : Nat, 0 < n ∧ (1 / 10 : ℚ) * 10 ^ 9 = n :=
  ⟨100000000, by decide, by norm_num⟩

theorem isMint_solMint : IsMint solMint :=
  ⟨by decide, by decide, List.all_eq_true.mp (by decide)⟩

theorem quick_not (side : Side) (handle : Str) :
    ¬ ((Order.quick side handle).body env).Issues Cmd.queuesWell := by
  have hread := buttonAct_quickTrade handle
  have hnot : ∀ side, ¬ (⟨⟨side, some solMint, some (1 / 10)⟩, none⟩ : TradeJob).WellFormed :=
    fun side h => (wellFormed_iff isMint_solMint tenth_units none).mp h rfl
  cases side with
  | buy =>
      intro h
      exact hnot .buy ((message_iff _).mp h _ (by rw [Message.trade, hread.1]))
  | sell =>
      intro h
      exact hnot .sell ((message_iff _).mp h _ (by rw [Message.trade, hread.2]))

theorem schemaTrade_mint {body : Option Json} {side : Side} {mint : String} {sol : ℚ}
    (h : schemaTrade body = some (side, mint, sol)) : IsMint mint := by
  unfold schemaTrade at h
  split at h
  next side' mint' sol' _ _ _ =>
    rw [Option.ite_none_right_eq_some] at h
    obtain ⟨hok, h⟩ := h
    simp only [Bool.and_eq_true, decide_eq_true_eq, List.all_eq_true] at hok
    obtain ⟨⟨⟨hlen, halnum⟩, -⟩, -⟩ := hok
    have hmint : mint' = mint := by
      split at h
      · cases h; rfl
      · split at h
        · cases h; rfl
        · cases h
    exact hmint ▸ ⟨by omega, by omega, halnum⟩
  next => cases h

/-- A mint has no colon, so it is read back from a payload. -/
theorem trade_tradeMessage (user : Str) {mint : String} (side : Side) (hmint : IsMint mint) :
    (tradeMessage user side mint).trade env = some ⟨side, some mint, some (1 / 10)⟩ := by
  have hcolon : ':' ∉ mint.toList := fun hc => absurd (hmint.2.2 _ hc) (by decide)
  cases side with
  | buy => simp only [Message.trade, tradeMessage, if_true, (buttonAct_trade hcolon _).1]
  | sell => simp only [Message.trade, tradeMessage, reduceCtorEq, if_false,
      (buttonAct_trade hcolon _).2]

theorem rest_iff {user mint : String} (side : Side) (hmint : IsMint mint) :
    (handleMessage env (tradeMessage (some user) side mint)).Issues Cmd.queuesWell ↔
      user ≠ "" := by
  rw [message_iff]
  simp only [trade_tradeMessage _ side hmint, Option.some.injEq, forall_eq']
  exact wellFormed_iff hmint tenth_units (some user)

/-! ## The callback of the watchers -/

theorem autoTrade_wellFormed_iff (handle : Str) :
    (autoTrade handle).WellFormed ↔ handle.getD "" ≠ "" :=
  wellFormed_iff isMint_solMint ⟨20000000, by decide, by norm_num⟩ handle

/-- For a user who trades by themselves the callback queues a trade. -/
theorem onUpdate_queues {u : User} (hu : tradesAlone u = true) {pre : Cmd → Prop} {handle : Str}
    (h : (onUpdate env handle).Issues pre) : pre (.addJob (autoTrade handle)) := by
  simp only [onUpdate, persist_eq] at h
  -- `users.get`, `users.set`, then `persist`
  have h := (h.of_call.2 (some u)).of_call.2 ()
  have h := (((h.of_call.2 (some u)).of_call.2 ()).of_call.2 ()).of_call.2 ()
  have h := (h.of_call.2 ()).of_call.2 (some u)
  have hjob : (if u.auto && u.sol.gt (some (5 / 100)) then await (enqueueTrade (autoTrade handle))
      else .ret () : Prog Unit).Issues pre := h
  have hfires : (u.auto && u.sol.gt (some (5 / 100))) = true := hu
  rw [if_pos hfires] at hjob
  exact hjob.of_call.1

theorem notice_iff (handle : Str) :
    (onUpdate env handle).Issues Cmd.queuesWell ↔ handle.getD "" ≠ "" := by
  rw [← autoTrade_wellFormed_iff]
  constructor
  · exact onUpdate_queues (u := ⟨⟨⟨[]⟩, []⟩, some 1, some 0, true, none⟩) (by decide +kernel)
  · intro h
    refine Prog.issues_bind (queuesWell_of_errand errand_userObject) fun u => ?_
    refine Prog.issues_bind (issues_ask trivial) fun _ => ?_
    refine Prog.issues_bind (queuesWell_of_errand (errand_await errand_persist)) fun _ => ?_
    refine Prog.issues_bind (queuesWell_of_errand errand_userObject) fun u => ?_
    split
    · exact issues_await trivial (issues_ask h)
    · exact .ret _

/-! ## Orders -/

/-- Every job an order queues is well formed if and only if the order is sound. -/
theorem queued_wellFormed_iff (o : Order) :
    (o.body env).Issues Cmd.queuesWell ↔ o.sound env = true := by
  cases o with
  | telegram sender chat text => exact text_iff _ _ _
  | quick side handle => exact iff_of_false (quick_not side handle) Bool.false_ne_true
  | tweet handle text => exact text_iff _ _ _
  | rest user body =>
      simp only [Order.body, Order.sound]
      cases hbody : schemaTrade body with
      | none => exact iff_of_true (.ret ()) rfl
      | some trade =>
          obtain ⟨side, mint, sol⟩ := trade
          simpa using rest_iff side (schemaTrade_mint hbody)
  | notice handle => simpa [Order.body, Order.sound] using notice_iff handle

end

/-! ## Jobs the worker cannot make sense of -/

namespace Sample

/-- What an order leaves in the queue. -/
def queued (o : Order) : List TradeJob :=
  ((o.body env).run (alone .agent unplugged) (St.fresh env 0, ())).2.1.jobs

/-- A text to the agent, in a private chat. -/
def told (text : String) : Order := .telegram ⟨101, some "alice", none⟩ ⟨"101", true⟩ text

/-- An amount with two points is not a number, an amount may be zero or have too many decimals,
and a quick trade has no handle. -/
theorem badly_queued :
    queued (told ("/buy " ++ solMint ++ " 1.2.3")) =
        [⟨⟨.buy, some solMint, none⟩, some "alice"⟩] ∧
      queued (told ("sell " ++ solMint ++ " 0")) =
        [⟨⟨.sell, some solMint, some 0⟩, some "alice"⟩] ∧
      queued (told ("buy " ++ solMint ++ " 0.0000000001")) =
        [⟨⟨.buy, some solMint, some (1 / 10000000000)⟩, some "alice"⟩] ∧
      queued (.quick .buy (some "alice")) = [⟨⟨.buy, some solMint, some (1 / 10)⟩, none⟩] ∧
      ∀ job ∈ queued (told ("/buy " ++ solMint ++ " 1.2.3")) ++
          queued (told ("sell " ++ solMint ++ " 0")) ++
          queued (told ("buy " ++ solMint ++ " 0.0000000001")) ++ queued (.quick .buy (some "alice")),
        ¬ job.WellFormed := by
  have h₁ : queued (told ("/buy " ++ solMint ++ " 1.2.3")) =
      [⟨⟨.buy, some solMint, none⟩, some "alice"⟩] := by decide +kernel
  have h₂ : queued (told ("sell " ++ solMint ++ " 0")) =
      [⟨⟨.sell, some solMint, some 0⟩, some "alice"⟩] := by decide +kernel
  have h₃ : queued (told ("buy " ++ solMint ++ " 0.0000000001")) =
      [⟨⟨.buy, some solMint, some (1 / 10000000000)⟩, some "alice"⟩] := by decide +kernel
  have h₄ : queued (.quick .buy (some "alice")) =
      [⟨⟨.buy, some solMint, some (1 / 10)⟩, none⟩] := by decide +kernel
  refine ⟨h₁, h₂, h₃, h₄, ?_⟩
  rw [h₁, h₂, h₃, h₄]
  intro job hjob hwf
  obtain ⟨q, hq, n, hn, hunits⟩ := hwf.sol
  obtain ⟨handle, hhandle, -⟩ := hwf.handle
  simp only [List.cons_append, List.nil_append, List.mem_cons, List.not_mem_nil, or_false] at hjob
  rcases hjob with rfl | rfl | rfl | rfl
  · cases hq
  · cases hq
    rw [zero_mul] at hunits
    exact absurd (Nat.cast_eq_zero.mp hunits.symm) (Nat.pos_iff_ne_zero.mp hn)
  · cases hq
    have hten : (n * 10 : ℚ) = 1 := by rw [← hunits]; norm_num
    have : n * 10 = 1 := by exact_mod_cast hten
    omega
  · cases hhandle

end Sample

end Nexus
