import NexusErebus.System

/-!
# What the commands of a function are about

The functions of the front ends take a handle and stay with it.  `Cmd.plain h` are the commands
about the public record of `h`, its streams, its jobs and its launches, and those about no
user.  Most functions issue no others, and queue no jobs (`errand_persist`, `errand_newConfig` and
so on).  The rest are built from such functions, from trades, and from `ensure` and `walletOf`.
What they inherit is stated for every predicate that programs are built along
(`Async.Prog.Closed`).
-/

namespace Nexus

open Async Text

/-- A command to Redis about the public record of a handle, its streams, its key for launches,
the tokens, the cache of quotes or the events. -/
def plainRedis (h : Str) : Redis.Cmd → Prop
  | .sadd key member => key = usersSetKey ∧ member = redisArg h
  | .hset key fields =>
      (key = userKey h ∨ startsWith key "tokenmeta:" = true) ∧ ∀ f ∈ fields, f.1 ≠ "wallet"
  | .xadd key _ => key = memoryKey h ∨ key = portfolioKey h
  | .expire key _ => key = memoryKey h
  | .xrevrange key _ => key = memoryKey h
  | .get key => startsWith key "quote:" = true ∨ key = launchWalletKey h
  | .setex key _ _ => startsWith key "quote:" = true
  | .publish _ _ => True
  | _ => False

/-- A command about the public record, the streams, the jobs or the launches of a handle, or
about no user. -/
def Cmd.plain (h : Str) : Cmd → Prop
  | .redis c | .tryRedis c => plainRedis h c
  | .addJob job => job.handle = h
  | .usersGet h' | .usersAssign h' _ | .manualHas h' | .manualAdd h' | .manualDelete h'
  | .configGet h' | .configSet h' _ => h' = h
  | .generate use => use = .mint
  | .usersSet _ _ | .usersKeys | .watched _ | .watch _ | .ready | .note _ _ | .apiNote _ => False
  | _ => True

/-- A command of that kind that queues no job and is not about a text that is awaited. -/
def Cmd.errand (h : Str) : Cmd → Prop
  | .addJob _ | .manualHas _ | .manualAdd _ | .manualDelete _ => False
  | c => c.plain h

theorem plain_of_errand {h : Str} {c : Cmd} (hc : c.errand h) : c.plain h := by
  cases c with
  | addJob | manualHas | manualAdd | manualDelete => cases hc
  | _ => exact hc

theorem plain_errand {h : Str} {α : Type} {q : Prog α} (hq : q.Issues (Cmd.errand h)) :
    q.Issues (Cmd.plain h) :=
  Prog.issues_mono (fun _ => plain_of_errand) hq

section

variable {env : Env} {h : Str}

theorem errand_await {α : Type} {q : Prog α} (hq : q.Issues (Cmd.errand h)) :
    (await q).Issues (Cmd.errand h) :=
  issues_await trivial hq

theorem startsWith_quoteKey (mint : Str) (lamports : Number) :
    startsWith (quoteKey mint lamports) "quote:" = true := by
  simp [startsWith, quoteKey]

theorem errand_quoteSOLto (mint : Str) (lamports : Number) :
    (quoteSOLto env mint lamports).Issues (Cmd.errand h) :=
  issues_quoteSOLto (.inl (startsWith_quoteKey mint lamports)) trivial
    fun _ _ => startsWith_quoteKey mint lamports

theorem errand_fetchJson (r : Request) : (fetchJson r).Issues (Cmd.errand h) :=
  issues_fetchJson trivial

theorem errand_fetchSolPrice : (fetchSolPrice env).Issues (Cmd.errand h) := by
  have hjupiter : (fetchSolPrice.jupiter env).Issues (Cmd.errand h) := by
    refine Prog.issues_bind (Prog.issues_outcome (errand_await (errand_quoteSOLto _ _)))
      fun route => ?_
    cases route with
    | error e => exact .ret none
    | ok route =>
        dsimp only
        split
        · exact .ret _
        · exact .ret _
  have hgecko : (fetchSolPrice.coinGecko env).Issues (Cmd.errand h) := by
    refine Prog.issues_bind (Prog.issues_outcome (Prog.issues_bind (errand_fetchJson _) fun j =>
      Prog.issues_bind (issues_prop _ _) fun _ => .ret _)) fun gecko => ?_
    split
    · split
      · exact .ret _
      · exact hjupiter
    · exact hjupiter
  refine Prog.issues_bind (Prog.issues_outcome (Prog.issues_bind (errand_fetchJson _) fun j =>
    issues_prop _ _)) fun binance => ?_
  split
  · split
    · exact .ret _
    · exact hgecko
  · exact hgecko

theorem errand_fetchTokenPrices (mints : List String) :
    (fetchTokenPrices mints).Issues (Cmd.errand h) := by
  unfold fetchTokenPrices
  split
  · exact .ret _
  · refine Prog.issues_bind (Prog.issues_outcome (errand_fetchJson _)) fun prices => ?_
    split
    · exact .ret _
    · exact .ret _

theorem errand_tokenLines (prices : Json) : ∀ (balances : List (String × Number)) (total : Number),
    (tokenLines prices balances total).Issues (Cmd.errand h)
  | [], _ => .ret _
  | _ :: rest, _ => Prog.issues_bind (issues_prop _ _) fun _ =>
      Prog.issues_bind (errand_tokenLines prices rest _) fun _ => .ret _

theorem errand_refreshBalances (owner : PublicKey) :
    (refreshBalances env owner).Issues (Cmd.errand h) :=
  issues_refreshBalances owner trivial fun _ => trivial

theorem errand_upsertUser {data : Obj} (hchat : data.lookup "chatId" = none)
    (hwallet : data.lookup "wallet" = none) : (upsertUser env h data).Issues (Cmd.errand h) := by
  rw [upsertUser_public hchat hwallet]
  refine Prog.issues_bind (issues_redis ⟨rfl, rfl⟩) fun _ => ?_
  split
  · exact .ret _
  · refine issues_redis ⟨.inl rfl, fun f hf => ?_⟩
    obtain ⟨kv, hkv, rfl⟩ := List.mem_map.mp hf
    exact fun he => Assoc.lookup_eq_none.mp hwallet (he ▸ List.mem_map_of_mem hkv)

theorem errand_userObject : (userObject h).Issues (Cmd.errand h) := issues_userObject rfl

theorem errand_persist : (persist env h).Issues (Cmd.errand h) :=
  Prog.issues_bind errand_userObject fun _ => errand_await (errand_upsertUser rfl rfl)

theorem errand_remember (text : String) (ts : Nat) : (remember h text ts).Issues (Cmd.errand h) :=
  Prog.issues_bind (issues_redis (.inl rfl)) fun _ => issues_redis rfl

theorem errand_recall (limit : Nat) : («recall» h limit).Issues (Cmd.errand h) :=
  Prog.issues_bind (issues_redis rfl) fun _ => .ret _

theorem errand_send (r : Reply) (text : String) : (r.send text).Issues (Cmd.errand h) := by
  cases r with
  | telegram chat => exact issues_attempt (issues_ask trivial)
  | twitter => exact issues_attempt (issues_ask trivial)
  | silent => exact .ret ()

theorem errand_answer (fn : String) (reply : Option Reply) (text : String) :
    (answer fn reply text).Issues (Cmd.errand h) := by
  cases reply with
  | some r => exact errand_send r text
  | none => exact issues_typeError _

theorem errand_toggleAuto (state : Option Bool) : (toggleAuto env h state).Issues (Cmd.errand h) :=
  issues_toggleAuto (show Cmd.errand h (.usersGet h) from rfl) (fun _ => rfl) errand_persist state

theorem errand_setRisk (level : Str) : (setRisk env h level).Issues (Cmd.errand h) :=
  issues_setRisk (show Cmd.errand h (.usersGet h) from rfl) (fun _ => rfl) errand_persist level

theorem plain_dispatchTrade (cmd : TradeCmd) (reply : Option Reply) :
    (dispatchTrade cmd h reply).Issues (Cmd.plain h) := by
  refine Prog.issues_bind (issues_await trivial (issues_ask rfl)) fun _ => ?_
  cases reply with
  | some r => exact Prog.issues_spawn (plain_errand (errand_send r _))
  | none => exact .ret ()

theorem errand_replyPrice (fn : String) (reply : Option Reply) :
    (replyPrice env fn reply).Issues (Cmd.errand h) := by
  refine Prog.issues_bind (errand_await errand_fetchSolPrice) fun price => ?_
  cases price with
  | some p => exact Prog.issues_bind (Prog.issues_ofExcept _) fun _ => errand_answer fn reply _
  | none => exact errand_answer fn reply _

/-- The trade a message asks for. -/
def Message.trade (env : Env) (m : Message) : Option TradeCmd :=
  match buttonAct m.button with
  | some (.trade side mint) => some ⟨side, mint, some (1 / 10)⟩
  | some _ => none
  | none =>
      match textCmd (stripMention env (m.text.getD "")) with
      | some (.trade cmd) => some cmd
      | _ => none

/-- The payload of a trade is read back, whatever comes behind its mint. -/
theorem buttonAct_trade {mint : String} (hmint : ':' ∉ mint.toList) (rest : String) :
    buttonAct (some ("BTN::QBUY::" ++ mint ++ "::" ++ rest)) = some (.trade .buy (some mint)) ∧
      buttonAct (some ("BTN::QSELL::" ++ mint ++ "::" ++ rest)) =
        some (.trade .sell (some mint)) := by
  have hsep : "::".toList = ':' :: [':'] := rfl
  have hparts : ∀ name : String, ':' ∉ name.toList →
      split "::" ("BTN::" ++ name ++ "::" ++ mint ++ "::" ++ rest) =
        "BTN" :: name :: mint :: split "::" rest := by
    intro name hname
    have h₁ := split_append hsep "BTN" (name ++ ("::" ++ (mint ++ ("::" ++ rest)))) (by decide)
    have h₂ := split_append hsep name (mint ++ ("::" ++ rest)) hname
    have h₃ := split_append hsep mint rest hmint
    rw [h₂, h₃] at h₁
    rw [← h₁]
    simp only [← String.append_assoc]
    rfl
  have hne : ∀ word : String, word ++ mint ++ "::" ++ rest ≠ "" := by
    intro word h
    have := congrArg String.toList h
    simp at this
  have hbuy := hparts "QBUY" (by decide)
  have hsell := hparts "QSELL" (by decide)
  rw [show "BTN::" ++ "QBUY" ++ "::" = "BTN::QBUY::" by decide] at hbuy
  rw [show "BTN::" ++ "QSELL" ++ "::" = "BTN::QSELL::" by decide] at hsell
  constructor
  · simp only [buttonAct, Option.getD_some, if_neg (hne _), hbuy]
    rfl
  · simp only [buttonAct, Option.getD_some, if_neg (hne _), hsell]
    rfl

/-- The payload of a quick trade is read back, whatever handle it names. -/
theorem buttonAct_quickTrade (handle : Str) :
    buttonAct (quickTrade "QBUY" handle).button = some (.trade .buy (some solMint)) ∧
      buttonAct (quickTrade "QSELL" handle).button = some (.trade .sell (some solMint)) := by
  have hread := @buttonAct_trade solMint (by decide) handle.text
  rw [← show "BTN::" ++ "QBUY" ++ "::" = "BTN::QBUY::" by decide,
    ← show "BTN::" ++ "QSELL" ++ "::" = "BTN::QSELL::" by decide] at hread
  exact hread

/-! ### Launches -/

theorem errand_asks {c : Cmd} (hc : c.asks h) : c.errand h := by
  cases c with
  | redis c =>
      cases c with
      | publish => trivial
      | _ => cases hc
  | tryRedis c => cases hc; exact .inr rfl
  | tick | fetch | hpGet | hpSet | now | lastIncidentSet | exit => trivial
  | _ => cases hc

theorem errand_launches {c : Cmd} (hc : c.launches h) : c.errand h := by
  cases c with
  | tryRedis c =>
      cases c with
      | hset => exact ⟨.inr hc.1, hc.2⟩
      | _ => exact errand_asks hc
  | createMint | getOrCreateAssociatedTokenAccount | mintTo | createLaunchpadPool
  | sendAndConfirmTransaction => trivial
  | _ => exact errand_asks hc

/-! ### The Telegram client -/

theorem errand_reply (chat : Chat) (text : String) (menu : List Button) :
    (reply chat text menu).Issues (Cmd.errand h) :=
  issues_attempt (issues_ask trivial)

theorem errand_replyWithPhoto (chat : Chat) (photo : Str) (caption : String) (menu : List Button) :
    (replyWithPhoto chat photo caption menu).Issues (Cmd.errand h) :=
  issues_attempt (issues_ask trivial)

theorem errand_editOrReply (chat : Chat) (msgId : Nat) (text : String) (menu : List Button) :
    (editOrReply chat msgId text menu).Issues (Cmd.errand h) :=
  Prog.issues_tryCatch (issues_attempt (issues_ask trivial)) fun _ => errand_reply chat text menu

theorem errand_launchAndReport (chat : Chat) (cfg : Json) :
    (launchAndReport env chat cfg h).Issues (Cmd.errand h) := by
  refine Prog.issues_bind (Prog.issues_outcome (errand_await
    (issues_launchTokenInternal (fun _ => errand_launches) cfg))) fun res => ?_
  cases res with
  | ok res => exact errand_replyWithPhoto _ _ _ _
  | error err => exact errand_reply _ _ _

/-- A text that was awaited is a configuration. -/
theorem errand_onManual (chat : Chat) (text : String) :
    (onManual env chat h text).Issues (Cmd.errand h) := by
  unfold onManual
  split
  · exact errand_reply _ _ _
  · exact Prog.issues_bind (errand_reply _ _ _) fun _ => errand_launchAndReport _ _

theorem errand_newConfig : (newConfig env h).Issues (Cmd.errand h) := by
  have haside : ∀ c : Cmd, c.aside → c.errand h := fun _ hc => errand_asks (asks_of_aside hc)
  refine Prog.issues_bind (errand_await (issues_generateLaunchConfig haside rfl)) fun cfg => ?_
  refine Prog.issues_bind (issues_ask rfl) fun _ => ?_
  exact Prog.issues_bind (errand_await (issues_generateImage haside _)) fun _ => .ret _

theorem errand_onStart (sender : TgAccount) (chat : Chat) :
    (onStart env sender chat).Issues (Cmd.errand h) := by
  refine Prog.issues_bind (issues_ask trivial) fun _ => ?_
  dsimp only
  split
  · exact Prog.issues_bind (errand_reply _ _ _) fun _ => errand_reply _ _ _
  · exact Prog.issues_bind (errand_replyWithPhoto _ _ _ _) fun _ => errand_reply _ _ _

/-- The actions that are about no user. -/
def Action.neutral : Action → Bool
  | .price | .trade | .help | .back | .launch => true
  | _ => false

/-- The actions that send a message to `handleMessage`. -/
def Action.quick : Action → Bool
  | .quickBuy | .quickSell => true
  | _ => false

/-- A neutral action is about no user, whatever handle its button names. -/
theorem errand_neutral (chat : Chat) (msgId : Nat) (name time : String) (handle : Str) {a : Action}
    (ha : a.neutral = true) : (act env chat msgId name time handle a).Issues (Cmd.errand h) := by
  cases a with
  | price =>
      refine Prog.issues_bind (errand_await errand_fetchSolPrice) fun p => ?_
      cases p with
      | none => exact errand_editOrReply _ _ _ _
      | some p => exact Prog.issues_bind (Prog.issues_ofExcept _) fun _ => errand_editOrReply _ _ _ _
  | trade | help | back | launch => exact errand_editOrReply _ _ _ _
  | _ => cases ha

end

/-! ## Functions built from `ensure` -/

section

variable {env : Env} {h : Str} {pre : Cmd → Prop} (herrand : ∀ c : Cmd, c.errand h → pre c)
  (hgenerate : pre (.generate (.wallet h))) (hset : ∀ u, pre (.usersSet h u))

include herrand hgenerate hset

theorem issues_ensure : (ensure env h).Issues pre := by
  refine Prog.issues_bind (issues_ask (herrand (.usersGet h) rfl)) fun u => ?_
  cases u with
  | some u => exact .ret _
  | none =>
      refine Prog.issues_bind (issues_ask hgenerate) fun wallet => ?_
      refine Prog.issues_bind (issues_ask (hset _)) fun _ => ?_
      exact Prog.issues_bind (Prog.issues_mono herrand (errand_await errand_persist)) fun _ =>
        .ret _

theorem issues_walletOf (hnote : ∀ a, pre (.note h a)) : (walletOf env h).Issues pre :=
  Prog.issues_bind (issues_await (herrand .tick trivial) (issues_ensure herrand hgenerate hset))
    fun _ => Prog.issues_bind (issues_ask (hnote _)) fun _ => .ret _

end

section

variable {T : {α : Type} → Prog α → Prop} (hT : Prog.Closed T) {env : Env} {h : Str}
  (herrand : ∀ c : Cmd, c.errand h → T (ask c)) (hensure : T (ensure env h))

include hT herrand

theorem closed_errand {α : Type} {q : Prog α} (hq : q.Issues (Cmd.errand h)) : T q :=
  hT.of_issues herrand hq

theorem closed_await {α : Type} {q : Prog α} (hq : T q) : T (await q) :=
  hT.bind hq fun a => hT.bind (herrand .tick trivial) fun _ => hT.ret a

include hensure

theorem closed_balanceOf : T (balanceOf env h) :=
  hT.bind (closed_await hT herrand hensure) fun _ =>
    hT.bind (closed_errand hT herrand errand_userObject) fun _ => hT.ret _

theorem closed_updateBalances : T (updateBalances env h) := by
  refine hT.bind (hT.bind (herrand (.usersGet h) rfl) fun u => ?_) fun wallet => ?_
  · cases u with
    | some u => exact hT.ret u.wallet
    | none => exact closed_await hT herrand hensure
  · refine closed_errand hT herrand (Prog.issues_bind (errand_await (errand_refreshBalances _))
      fun b => ?_)
    refine Prog.issues_bind (issues_ask rfl) fun _ => Prog.issues_bind (issues_ask rfl) fun _ => ?_
    exact Prog.issues_bind (errand_await errand_persist) fun _ => .ret _

theorem closed_getPortfolio : T (getPortfolio env h) := by
  refine hT.bind (closed_await hT herrand hensure) fun wallet => ?_
  refine hT.bind (closed_errand hT herrand (errand_await errand_fetchSolPrice)) fun price => ?_
  refine hT.bind (closed_await hT herrand (closed_updateBalances hT herrand hensure)) fun b => ?_
  refine closed_errand hT herrand ?_
  refine Prog.issues_bind (issues_attempt (issues_ask trivial)) fun raw => ?_
  refine Prog.issues_bind (errand_await (errand_fetchTokenPrices _)) fun prices => ?_
  refine Prog.issues_bind (errand_tokenLines prices _ _) fun lines => ?_
  refine Prog.issues_bind (issues_ask trivial) fun ts => ?_
  exact Prog.issues_bind (issues_redis (.inr rfl)) fun _ => .ret _

theorem closed_replyPortfolio (fn : String) (reply : Option Reply) :
    T (replyPortfolio env h fn reply) :=
  hT.bind (closed_await hT herrand (closed_getPortfolio hT herrand hensure)) fun _ =>
    closed_errand hT herrand (errand_answer fn reply _)

theorem closed_converse (text : String) (reply : Option Reply) : T (converse env text h reply) := by
  refine hT.bind (herrand .now trivial) fun ts => ?_
  refine hT.bind (closed_errand hT herrand (errand_await (errand_remember text ts))) fun _ => ?_
  refine hT.bind (closed_errand hT herrand (errand_await (errand_recall 10))) fun history => ?_
  refine hT.bind (closed_errand hT herrand (errand_await errand_fetchSolPrice)) fun price => ?_
  refine hT.bind (closed_await hT herrand (closed_getPortfolio hT herrand hensure)) fun port => ?_
  refine closed_errand hT herrand ?_
  refine Prog.issues_bind (errand_fetchJson _) fun j => Prog.issues_bind (issues_prop _ _) fun r => ?_
  refine Prog.issues_bind (issues_trimmed r) fun said => ?_
  refine Prog.issues_bind (Prog.issues_spawn (errand_answer _ _ _)) fun _ => ?_
  refine Prog.issues_bind (issues_ask trivial) fun ts => ?_
  exact errand_await (errand_remember said ts)

theorem closed_dispatchAI (text : String) (reply : Option Reply) :
    T (dispatchAI env text h reply) := by
  unfold dispatchAI
  dsimp only
  split
  · exact closed_errand hT herrand (errand_replyPrice _ reply)
  · split
    · exact closed_replyPortfolio hT herrand hensure _ reply
    · exact hT.tryCatch (closed_converse hT herrand hensure text reply) fun _ =>
        closed_errand hT herrand (Prog.issues_spawn (errand_answer _ _ _))

/-- A message asks for a trade or sends its handle on errands. -/
theorem closed_message_of (hwallet : T (walletOf env h)) {m : Message} (hm : m.handle = h)
    (htrade : ∀ cmd, m.trade env = some cmd → T (dispatchTrade cmd h m.reply)) :
    T (handleMessage env m) := by
  subst hm
  unfold handleMessage
  unfold Message.trade at htrade
  split
  next act hact =>
    rw [hact] at htrade
    cases act with
    | auto on =>
        exact closed_errand hT herrand (Prog.issues_bind (errand_toggleAuto _) fun _ =>
          errand_answer _ _ _)
    | risk level =>
        exact closed_errand hT herrand (Prog.issues_bind (errand_setRisk _) fun _ =>
          errand_answer _ _ _)
    | trade side mint => exact htrade _ rfl
  next hact =>
    rw [hact] at htrade
    dsimp only at htrade ⊢
    split
    next cmd hcmd =>
      rw [hcmd] at htrade
      cases cmd with
      | trade cmd => exact htrade _ rfl
      | deposit =>
          exact hT.bind (closed_await hT herrand hwallet) fun _ =>
            closed_errand hT herrand (errand_answer _ _ _)
      | balance =>
          exact hT.bind (closed_await hT herrand (closed_updateBalances hT herrand hensure))
            fun _ => closed_errand hT herrand (errand_answer _ _ _)
      | portfolio => exact closed_replyPortfolio hT herrand hensure _ _
      | price => exact closed_errand hT herrand (errand_replyPrice _ _)
      | auto val =>
          exact closed_errand hT herrand (Prog.issues_bind (errand_toggleAuto _) fun _ =>
            errand_answer _ _ _)
      | risk val => exact hT.throw _
    next => exact closed_dispatchAI hT herrand hensure _ _

/-- An action is about the handle its button names.  A quick trade is a message of its own, and a
text is awaited after one action only. -/
theorem closed_act_of (hwallet : T (walletOf env h)) (chat : Chat) (msgId : Nat) (name time : String)
    {a : Action} (hquick : a.quick = true → ∀ side, T (handleMessage env (quickTrade side h)))
    (hmanual : a = .manual → T (ask (.manualAdd h))) : T (act env chat msgId name time h a) := by
  have hedit : ∀ text menu, T (editOrReply chat msgId text menu) := fun text menu =>
    closed_errand hT herrand (errand_editOrReply chat msgId text menu)
  cases a with
  | price | trade | help | back | launch =>
      exact closed_errand hT herrand (errand_neutral _ _ _ _ _ rfl)
  | balance =>
      exact hT.bind (closed_await hT herrand (closed_balanceOf hT herrand hensure)) fun _ =>
        hedit _ _
  | portfolio =>
      exact hT.bind (closed_await hT herrand (closed_getPortfolio hT herrand hensure)) fun _ =>
        hedit _ _
  | history =>
      exact closed_errand hT herrand (Prog.issues_bind (errand_await (errand_recall 5))
        fun _ => errand_editOrReply _ _ _ _)
  | deposit => exact hT.bind (closed_await hT herrand hwallet) fun _ => hedit _ _
  | autoOn | autoOff =>
      exact closed_errand hT herrand (Prog.issues_bind (errand_toggleAuto _) fun _ =>
        errand_editOrReply _ _ _ _)
  | quickBuy => exact hT.bind (closed_await hT herrand (hedit _ _)) fun _ => hquick rfl "QBUY"
  | quickSell => exact hT.bind (closed_await hT herrand (hedit _ _)) fun _ => hquick rfl "QSELL"
  | aiConfig =>
      refine closed_errand hT herrand (Prog.issues_bind (errand_await (errand_editOrReply _ _ _ _))
        fun _ => Prog.issues_bind (Prog.issues_outcome errand_newConfig) fun res => ?_)
      cases res with
      | ok res => exact errand_replyWithPhoto _ _ _ _
      | error err => exact errand_reply _ _ _
  | confirm =>
      refine closed_errand hT herrand (Prog.issues_bind (issues_ask rfl) fun cfg => ?_)
      cases cfg with
      | none => exact errand_editOrReply _ _ _ _
      | some cfg =>
          exact Prog.issues_bind (errand_await (errand_editOrReply _ _ _ _)) fun _ =>
            errand_launchAndReport _ _
  | manual => exact hT.bind (closed_await hT herrand (hedit _ _)) fun _ => hmanual rfl

end

/-! ## Functions that may trade -/

section

variable {T : {α : Type} → Prog α → Prop} (hT : Prog.Closed T) {env : Env} {h : Str}
  (hplain : ∀ c : Cmd, c.plain h → T (ask c)) (hensure : T (ensure env h))

include hplain in
theorem ask_errand (c : Cmd) (hc : c.errand h) : T (ask c) := hplain c (plain_of_errand hc)

include hT hplain

theorem closed_plain {α : Type} {q : Prog α} (hq : q.Issues (Cmd.plain h)) : T q :=
  hT.of_issues hplain hq

include hensure

theorem closed_handleMessage (hwallet : T (walletOf env h)) {m : Message} (hm : m.handle = h) :
    T (handleMessage env m) :=
  closed_message_of hT (ask_errand hplain) hensure hwallet hm fun _ _ =>
    closed_plain hT hplain (plain_dispatchTrade _ _)

/-! ### The Telegram client -/

theorem closed_act (hwallet : T (walletOf env h)) (chat : Chat) (msgId : Nat) (name time : String)
    {a : Action} (hquick : a.quick = true → ∀ side, T (handleMessage env (quickTrade side h))) :
    T (act env chat msgId name time h a) :=
  closed_act_of hT (ask_errand hplain) hensure hwallet chat msgId name time hquick fun _ =>
    hplain _ rfl

/-- A text is about the handle of its sender. -/
theorem closed_onText (hwallet : T (walletOf env h)) {sender : TgAccount}
    (hh : some sender.handle = h) (chat : Chat) (text : String) (hasMention : Bool) :
    T (onText env sender chat text hasMention) := by
  subst hh
  refine hT.bind (hplain _ rfl) fun awaited => ?_
  split
  · exact hT.bind (hplain _ rfl) fun _ =>
      closed_errand hT (ask_errand hplain) (errand_onManual chat text)
  · split
    · exact hT.ret ()
    · exact hT.bind (hplain _ trivial) fun _ =>
        hT.spawn (closed_handleMessage hT hplain hensure hwallet rfl)

/-! ### The API server -/

/-- A handler is about the user of the token. -/
theorem closed_handler (hwallet : T (walletOf env h)) (r : ApiRequest) (route : Route) :
    T (handler env r h route) := by
  have hask := ask_errand hplain
  cases route with
  | wallet => exact hT.bind (closed_await hT hask hwallet) fun _ => hT.ret _
  | balance =>
      exact hT.bind (closed_await hT hask (closed_balanceOf hT hask hensure)) fun _ => hT.ret _
  | portfolio =>
      exact hT.bind (closed_await hT hask (closed_getPortfolio hT hask hensure)) fun _ =>
        hT.ret _
  | solPrice =>
      exact hT.bind (closed_errand hT hask (errand_await errand_fetchSolPrice)) fun _ => hT.ret _
  | auto =>
      simp only [handler]
      split
      · exact hT.ret _
      · exact hT.bind (closed_errand hT hask (errand_toggleAuto _)) fun _ => hT.ret _
  | risk =>
      simp only [handler]
      split
      · exact hT.ret _
      · exact hT.bind (closed_errand hT hask (errand_setRisk _)) fun _ => hT.ret _
  | trade =>
      simp only [handler]
      split
      · exact hT.ret _
      · exact hT.bind (closed_await hT hask
          (closed_handleMessage hT hplain hensure hwallet rfl)) fun _ => hT.ret _
  | health => exact hT.bind (hplain _ trivial) fun _ => hT.ret _
  | auth => exact hT.ret _

omit hensure in
theorem closed_csrfProtection (r : ApiRequest) : T (csrfProtection env r) :=
  hT.bind (hplain _ trivial) fun _ => hT.ret _

omit hensure in
/-- What is left of a request are the token it is given and the route it is let through to. -/
theorem closed_onRequest (r : ApiRequest) (hissue : ∀ handle, T (issueToken env handle))
    (hprotected : T (protectedRoute env r)) : T (onRequest env r) := by
  have hpost : T (postAuth env r) := by
    unfold postAuth
    split
    · exact hT.ret _
    · exact hT.bind (hissue _) fun _ => hT.ret _
  refine hT.bind ?_ fun answer => hplain _ trivial
  unfold answerRequest
  split
  · exact hT.ret _
  · split
    · exact hT.ret _
    · split
      · exact hT.ret _
      · split
        · refine hT.bind (closed_csrfProtection hT hplain r) fun passed => ?_
          split
          · exact hpost
          · exact hT.ret _
        · exact hprotected

end

/-! ## Events -/

section

variable {T : {α : Type} → Prog α → Prop} (hT : Prog.Closed T) {env : Env}
  (hplain : ∀ (h : Str) (c : Cmd), c.plain h → T (ask c)) (hensure : ∀ h, T (ensure env h))
  (hwallet : ∀ h, T (walletOf env h))

include hT hplain hensure hwallet

theorem closed_message (m : Message) : T (handleMessage env m) :=
  closed_handleMessage hT (hplain m.handle) (hensure m.handle) (hwallet m.handle) rfl

theorem closed_call (c : Call) : T (c.body env) := by
  have hdiscard : ∀ {α : Type} {q : Prog α}, T q → T (discard q) :=
    fun hq => hT.bind hq fun _ => hT.ret ()
  cases c with
  | ensure h => exact hdiscard (hensure h)
  | walletOf h => exact hdiscard (hwallet h)
  | balanceOf h => exact hdiscard (closed_balanceOf hT (ask_errand (hplain h)) (hensure h))
  | getPortfolio h => exact hdiscard (closed_getPortfolio hT (ask_errand (hplain h)) (hensure h))
  | toggleAuto h state =>
      exact hdiscard (closed_plain hT (hplain h) (plain_errand (errand_toggleAuto state)))
  | setRisk h level =>
      exact hdiscard (closed_plain hT (hplain h) (plain_errand (errand_setRisk level)))
  | handleMessage m => exact closed_message hT hplain hensure hwallet m

theorem closed_update (u : Update) : T (u.body env) := by
  cases u with
  | start sender chat =>
      exact closed_plain hT (hplain none) (plain_errand (errand_onStart sender chat))
  | press sender chat msgId data time =>
      refine hT.bind (hplain none _ trivial) fun _ => ?_
      refine hT.bind (hT.outcome (closed_plain hT (hplain none)
        (issues_attempt (issues_ask trivial)))) fun _ => ?_
      split
      · exact closed_act hT (hplain _) (hensure _) (hwallet _) _ _ _ _ fun _ _ =>
          closed_message hT hplain hensure hwallet _
      · exact hT.ret ()
  | text sender chat said hasMention =>
      exact closed_onText hT (hplain _) (hensure _) (hwallet _) rfl chat said hasMention

theorem closed_request (hnote : ∀ n, T (ask (.apiNote n))) (r : ApiRequest) :
    T (onRequest env r) := by
  have hauth : T (auth env r) := by
    unfold auth
    dsimp only
    split
    · exact hT.ret _
    · refine hT.bind (hplain none _ trivial) fun now => ?_
      split
      · exact hT.ret _
      · exact hT.bind (hnote _) fun _ => hT.ret _
  have hissue : ∀ handle, T (issueToken env handle) := fun handle =>
    hT.bind (hplain none _ trivial) fun _ => hT.bind (hplain none _ trivial) fun _ =>
      hT.bind (hplain none _ trivial) fun _ => hT.bind (hnote _) fun _ => hT.ret _
  refine closed_onRequest hT (hplain none) r hissue (hT.bind hauth fun res => ?_)
  split
  · exact hT.ret _
  · refine hT.bind (closed_csrfProtection hT (hplain none) r) fun passed => ?_
    split
    · exact hT.ret _
    · split
      · exact hT.ret _
      · split
        · exact hT.ret _
        · exact hT.bind (hnote _) fun _ => hT.tryCatch
            (closed_handler hT (hplain _) (hensure _) (hwallet _) r _) fun _ => hT.ret _

end

end Nexus
