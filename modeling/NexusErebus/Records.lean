import NexusErebus.Footprint

/-!
# The writers of user records

A user has a record in the memory of a process and one in the store.  Four functions write
them: `ensure`, `updateBalances`, `toggleAuto` and `setRisk`, besides the watchers and the boot.
All other functions are built from these four and from commands that touch no record.
So a property that the four have, and that programs inherit from their parts
(`Async.Prog.Closed`), is one of every program of the front ends.
-/

namespace Nexus

open Async Text

/-- A command to Redis that touches no hash of a user and no set. -/
def recordlessRedis : Redis.Cmd → Prop
  | .hset key _ => startsWith key "tokenmeta:" = true
  | .sadd _ _ | .del _ => False
  | _ => True

/-- A command that touches no user record. -/
def Cmd.recordless : Cmd → Prop
  | .redis c | .tryRedis c => recordlessRedis c
  | .usersSet _ _ | .usersAssign _ _ => False
  | _ => True

/-! ## Functions that touch no record -/

section

variable {env : Env}

/-- A command that is right for errands of every handle is about none. -/
theorem recordless_of_errand {c : Cmd} (hc : ∀ h, c.errand h) : c.recordless := by
  cases c with
  | redis c | tryRedis c =>
      cases c with
      | hset key fields =>
          have h₁ := (hc none).1
          have h₂ := (hc (some "")).1
          rcases h₁ with h₁ | h₁
          · rcases h₂ with h₂ | h₂
            · exact absurd (h₁.symm.trans h₂) (by decide)
            · exact h₂
          · exact h₁
      | sadd key member =>
          have h₁ := (hc (some "a")).2
          have h₂ := (hc (some "b")).2
          exact absurd (h₁.symm.trans h₂) (by decide)
      | del key => exact (hc none).elim
      | _ => trivial
  | usersSet h u => exact hc none
  | usersAssign h a =>
      have h₁ : h = none := hc none
      have h₂ : h = some "" := hc (some "")
      exact absurd (h₁.symm.trans h₂) (by decide)
  | _ => trivial

theorem recordless_of_errands {α : Type} {q : Prog α} (hq : ∀ h, q.Issues (Cmd.errand h)) :
    q.Issues Cmd.recordless :=
  Prog.issues_mono (fun _ => recordless_of_errand) (Prog.issues_forall hq)

theorem recordless_remember (h : Str) (text : String) (ts : Nat) :
    (remember h text ts).Issues Cmd.recordless :=
  Prog.issues_bind (issues_redis trivial) fun _ => issues_redis trivial

theorem recordless_recall (h : Str) (limit : Nat) : («recall» h limit).Issues Cmd.recordless :=
  Prog.issues_bind (issues_redis trivial) fun _ => .ret _

theorem recordless_dispatchTrade (cmd : TradeCmd) (h : Str) (reply : Option Reply) :
    (dispatchTrade cmd h reply).Issues Cmd.recordless := by
  refine Prog.issues_bind (issues_await trivial (issues_ask trivial)) fun _ => ?_
  cases reply with
  | some r => exact Prog.issues_spawn (recordless_of_errands fun _ => errand_send r _)
  | none => exact .ret ()

theorem recordless_of_asks {h : Str} {c : Cmd} (hc : c.asks h) : c.recordless := by
  cases c with
  | redis c =>
      cases c with
      | publish => trivial
      | _ => cases hc
  | tryRedis c => cases hc; trivial
  | usersSet | usersAssign => cases hc
  | _ => trivial

theorem recordless_of_launches {h : Str} {c : Cmd} (hc : c.launches h) : c.recordless := by
  cases c with
  | tryRedis c =>
      cases c with
      | hset => exact hc.1
      | _ => exact recordless_of_asks hc
  | redis | usersSet | usersAssign => exact recordless_of_asks (h := h) hc
  | _ => trivial

theorem recordless_launchAndReport (chat : Chat) (cfg : Json) (h : Str) :
    (launchAndReport env chat cfg h).Issues Cmd.recordless := by
  refine Prog.issues_bind (Prog.issues_outcome (issues_await trivial
    (issues_launchTokenInternal (fun _ => recordless_of_launches) cfg))) fun res => ?_
  cases res with
  | ok res => exact recordless_of_errands fun _ => errand_replyWithPhoto _ _ _ _
  | error err => exact recordless_of_errands fun _ => errand_reply _ _ _

theorem recordless_onManual (chat : Chat) (h : Str) (text : String) :
    (onManual env chat h text).Issues Cmd.recordless := by
  unfold onManual
  split
  · exact recordless_of_errands fun _ => errand_reply _ _ _
  · exact Prog.issues_bind (recordless_of_errands fun _ => errand_reply _ _ _) fun _ =>
      recordless_launchAndReport _ _ _

theorem recordless_newConfig (h : Str) : (newConfig env h).Issues Cmd.recordless := by
  have haside : ∀ c : Cmd, c.aside → c.recordless := fun _ hc =>
    recordless_of_asks (h := none) (asks_of_aside hc)
  refine Prog.issues_bind (issues_await trivial (issues_generateLaunchConfig haside trivial))
    fun cfg => ?_
  refine Prog.issues_bind (issues_ask trivial) fun _ => ?_
  exact Prog.issues_bind (issues_await trivial (issues_generateImage haside _)) fun _ => .ret _

end

/-! ## Functions built from the four writers -/

section

variable {T : {α : Type} → Prog α → Prop} (hT : Prog.Closed T) {env : Env}
  (hless : ∀ c : Cmd, c.recordless → T (ask c)) (hensure : ∀ h, T (ensure env h))

include hT hless

theorem built_recordless {α : Type} {q : Prog α} (hq : q.Issues Cmd.recordless) : T q :=
  hT.of_issues hless hq

theorem built_errand {α : Type} {q : Prog α} (hq : ∀ h, q.Issues (Cmd.errand h)) : T q :=
  built_recordless hT hless (recordless_of_errands hq)

theorem built_await {α : Type} {q : Prog α} (hq : T q) : T (await q) :=
  hT.bind hq fun a => hT.bind (hless .tick trivial) fun _ => hT.ret a

theorem built_userObject (h : Str) : T (userObject h) :=
  built_recordless hT hless (issues_userObject trivial)

include hensure

theorem built_walletOf (h : Str) : T (walletOf env h) :=
  hT.bind (built_await hT hless (hensure h)) fun _ =>
    hT.bind (hless _ trivial) fun _ => hT.ret _

theorem built_balanceOf (h : Str) : T (balanceOf env h) :=
  hT.bind (built_await hT hless (hensure h)) fun _ =>
    hT.bind (built_userObject hT hless h) fun _ => hT.ret _

variable (hupdate : ∀ h, T (updateBalances env h))

include hupdate

theorem built_getPortfolio (h : Str) : T (getPortfolio env h) := by
  refine hT.bind (built_await hT hless (hensure h)) fun wallet => ?_
  refine hT.bind (built_errand hT hless fun _ => errand_await errand_fetchSolPrice) fun price => ?_
  refine hT.bind (built_await hT hless (hupdate h)) fun b => ?_
  refine built_recordless hT hless ?_
  refine Prog.issues_bind (issues_attempt (issues_ask trivial)) fun raw => ?_
  refine Prog.issues_bind
    (recordless_of_errands fun _ => errand_await (errand_fetchTokenPrices _)) fun prices => ?_
  refine Prog.issues_bind (recordless_of_errands fun _ => errand_tokenLines prices _ _) fun lines => ?_
  refine Prog.issues_bind (issues_ask trivial) fun ts => ?_
  exact Prog.issues_bind (issues_redis trivial) fun _ => .ret _

theorem built_replyPortfolio (h : Str) (fn : String) (reply : Option Reply) :
    T (replyPortfolio env h fn reply) :=
  hT.bind (built_await hT hless (built_getPortfolio hT hless hensure hupdate h)) fun _ =>
    built_errand hT hless fun _ => errand_answer fn reply _

theorem built_converse (text : String) (h : Str) (reply : Option Reply) :
    T (converse env text h reply) := by
  refine hT.bind (hless .now trivial) fun ts => ?_
  refine hT.bind (built_await hT hless (built_recordless hT hless (recordless_remember h text ts)))
    fun _ => ?_
  refine hT.bind (built_await hT hless (built_recordless hT hless (recordless_recall h 10)))
    fun history => ?_
  refine hT.bind (built_errand hT hless fun _ => errand_await errand_fetchSolPrice) fun price => ?_
  refine hT.bind (built_await hT hless (built_getPortfolio hT hless hensure hupdate h))
    fun port => ?_
  refine built_recordless hT hless ?_
  refine Prog.issues_bind (issues_fetchJson trivial) fun j => ?_
  refine Prog.issues_bind (issues_prop _ _) fun r => Prog.issues_bind (issues_trimmed r) fun said => ?_
  refine Prog.issues_bind (Prog.issues_spawn (recordless_of_errands fun _ => errand_answer _ _ _))
    fun _ => ?_
  refine Prog.issues_bind (issues_ask trivial) fun ts => ?_
  exact issues_await trivial (recordless_remember h said ts)

theorem built_dispatchAI (text : String) (h : Str) (reply : Option Reply) :
    T (dispatchAI env text h reply) := by
  unfold dispatchAI
  dsimp only
  split
  · exact built_errand hT hless fun _ => errand_replyPrice _ reply
  · split
    · exact built_replyPortfolio hT hless hensure hupdate h _ reply
    · exact hT.tryCatch (built_converse hT hless hensure hupdate text h reply) fun _ =>
        built_errand hT hless fun _ => Prog.issues_spawn (errand_answer _ _ _)

variable (hauto : ∀ h state, T (toggleAuto env h state)) (hrisk : ∀ h level, T (setRisk env h level))

include hauto hrisk

theorem built_handleMessage (m : Message) : T (handleMessage env m) := by
  have hanswer : ∀ fn reply text, T (answer fn reply text) := fun fn reply text =>
    built_errand hT hless fun _ => errand_answer fn reply text
  unfold handleMessage
  split
  next act _ =>
    cases act with
    | auto on => exact hT.bind (hauto _ _) fun _ => hanswer _ _ _
    | risk level => exact hT.bind (hrisk _ _) fun _ => hanswer _ _ _
    | trade side mint => exact built_recordless hT hless (recordless_dispatchTrade _ _ _)
  next =>
    dsimp only
    split
    next cmd _ =>
      cases cmd with
      | trade cmd => exact built_recordless hT hless (recordless_dispatchTrade _ _ _)
      | deposit =>
          exact hT.bind (built_await hT hless (built_walletOf hT hless hensure _)) fun _ =>
            hanswer _ _ _
      | balance =>
          exact hT.bind (built_await hT hless (hupdate _)) fun _ => hanswer _ _ _
      | portfolio => exact built_replyPortfolio hT hless hensure hupdate _ _ _
      | price => exact built_errand hT hless fun _ => errand_replyPrice _ _
      | auto val => exact hT.bind (hauto _ _) fun _ => hanswer _ _ _
      | risk val => exact hT.throw _
    next => exact built_dispatchAI hT hless hensure hupdate _ _ _

/-! ### The Telegram client -/

theorem built_act (chat : Chat) (msgId : Nat) (name time : String) (h : Str) (a : Action) :
    T (act env chat msgId name time h a) := by
  have hedit : ∀ text menu, T (editOrReply chat msgId text menu) := fun text menu =>
    built_errand hT hless fun _ => errand_editOrReply chat msgId text menu
  cases a with
  | price | trade | help | back | launch =>
      exact built_errand hT hless fun _ => errand_neutral _ _ _ _ _ rfl
  | balance =>
      exact hT.bind (built_await hT hless (built_balanceOf hT hless hensure h)) fun _ => hedit _ _
  | portfolio =>
      exact hT.bind (built_await hT hless (built_getPortfolio hT hless hensure hupdate h))
        fun _ => hedit _ _
  | history =>
      exact hT.bind (built_await hT hless (built_recordless hT hless (recordless_recall h 5))) fun _ =>
        hedit _ _
  | deposit =>
      exact hT.bind (built_await hT hless (built_walletOf hT hless hensure h)) fun _ => hedit _ _
  | autoOn | autoOff => exact hT.bind (hauto _ _) fun _ => hedit _ _
  | quickBuy | quickSell =>
      exact hT.bind (built_await hT hless (hedit _ _)) fun _ =>
        built_handleMessage hT hless hensure hupdate hauto hrisk _
  | aiConfig =>
      refine hT.bind (built_await hT hless (hedit _ _)) fun _ =>
        hT.bind (hT.outcome (built_recordless hT hless (recordless_newConfig h))) fun res => ?_
      cases res with
      | ok res => exact built_errand hT hless fun _ => errand_replyWithPhoto _ _ _ _
      | error err => exact built_errand hT hless fun _ => errand_reply _ _ _
  | confirm =>
      refine hT.bind (hless _ trivial) fun cfg => ?_
      cases cfg with
      | none => exact hedit _ _
      | some cfg =>
          exact hT.bind (built_await hT hless (hedit _ _)) fun _ =>
            built_recordless hT hless (recordless_launchAndReport _ _ _)
  | manual =>
      exact hT.bind (built_await hT hless (hedit _ _)) fun _ => hless _ trivial

theorem built_update (u : Update) : T (u.body env) := by
  cases u with
  | start sender chat => exact built_errand hT hless fun _ => errand_onStart sender chat
  | press sender chat msgId data time =>
      refine hT.bind (hless _ trivial) fun _ => ?_
      refine hT.bind (hT.outcome (built_recordless hT hless (issues_attempt (issues_ask trivial))))
        fun _ => ?_
      split
      · exact built_act hT hless hensure hupdate hauto hrisk _ _ _ _ _ _
      · exact hT.ret ()
  | text sender chat said hasMention =>
      refine hT.bind (hless _ trivial) fun awaited => ?_
      split
      · exact hT.bind (hless _ trivial) fun _ => built_recordless hT hless (recordless_onManual _ _ _)
      · split
        · exact hT.ret ()
        · exact hT.bind (hless _ trivial) fun _ =>
            hT.spawn (built_handleMessage hT hless hensure hupdate hauto hrisk _)

/-! ### Calls and requests -/

theorem built_call (c : Call) : T (c.body env) := by
  have hdiscard : ∀ {α : Type} {q : Prog α}, T q → T (discard q) :=
    fun hq => hT.bind hq fun _ => hT.ret ()
  cases c with
  | ensure h => exact hdiscard (hensure h)
  | walletOf h => exact hdiscard (built_walletOf hT hless hensure h)
  | balanceOf h => exact hdiscard (built_balanceOf hT hless hensure h)
  | getPortfolio h => exact hdiscard (built_getPortfolio hT hless hensure hupdate h)
  | toggleAuto h state => exact hdiscard (hauto h state)
  | setRisk h level => exact hdiscard (hrisk h level)
  | handleMessage m => exact built_handleMessage hT hless hensure hupdate hauto hrisk m

theorem built_handler (r : ApiRequest) (user : Str) (route : Route) :
    T (handler env r user route) := by
  cases route with
  | wallet =>
      exact hT.bind (built_await hT hless (built_walletOf hT hless hensure user)) fun _ => hT.ret _
  | balance =>
      exact hT.bind (built_await hT hless (built_balanceOf hT hless hensure user)) fun _ => hT.ret _
  | portfolio =>
      exact hT.bind (built_await hT hless (built_getPortfolio hT hless hensure hupdate user))
        fun _ => hT.ret _
  | solPrice =>
      exact hT.bind (built_errand hT hless fun _ => errand_await errand_fetchSolPrice) fun _ =>
        hT.ret _
  | auto =>
      simp only [handler]
      split
      · exact hT.ret _
      · exact hT.bind (hauto _ _) fun _ => hT.ret _
  | risk =>
      simp only [handler]
      split
      · exact hT.ret _
      · exact hT.bind (hrisk _ _) fun _ => hT.ret _
  | trade =>
      simp only [handler]
      split
      · exact hT.ret _
      · exact hT.bind (built_await hT hless
          (built_handleMessage hT hless hensure hupdate hauto hrisk _)) fun _ => hT.ret _
  | health => exact hT.bind (hless _ trivial) fun _ => hT.ret _
  | auth => exact hT.ret _

theorem built_onRequest (r : ApiRequest) : T (onRequest env r) := by
  have hcsrf : T (csrfProtection env r) := hT.bind (hless _ trivial) fun _ => hT.ret _
  have hauth : T (auth env r) := by
    unfold auth
    dsimp only
    split
    · exact hT.ret _
    · refine hT.bind (hless _ trivial) fun now => ?_
      split
      · exact hT.ret _
      · exact hT.bind (hless _ trivial) fun _ => hT.ret _
  have hpost : T (postAuth env r) := by
    unfold postAuth
    split
    · exact hT.ret _
    · refine hT.bind (built_recordless hT hless ?_) fun _ => hT.ret _
      exact Prog.issues_bind (issues_ask trivial) fun _ => Prog.issues_bind (issues_ask trivial)
        fun _ => Prog.issues_bind (issues_ask trivial) fun _ =>
          Prog.issues_bind (issues_ask trivial) fun _ => .ret _
  have hprotected : T (protectedRoute env r) := by
    refine hT.bind hauth fun res => ?_
    split
    · exact hT.ret _
    · refine hT.bind hcsrf fun passed => ?_
      split
      · exact hT.ret _
      · split
        · exact hT.ret _
        · split
          · exact hT.ret _
          · exact hT.bind (hless _ trivial) fun _ => hT.tryCatch
              (built_handler hT hless hensure hupdate hauto hrisk r _ _) fun _ => hT.ret _
  refine hT.bind ?_ fun answer => hless _ trivial
  unfold answerRequest
  split
  · exact hT.ret _
  · split
    · exact hT.ret _
    · split
      · exact hT.ret _
      · split
        · refine hT.bind hcsrf fun passed => ?_
          split
          · exact hpost
          · exact hT.ret _
        · exact hprotected

end

end Nexus
