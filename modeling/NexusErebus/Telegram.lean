import NexusErebus.Launcher

/-!
# The Telegram client (telegram-client.js)

The client answers three kinds of update.  `/start` shows the main menu.  A press of a button
carries out the action named in the data of the button, for the handle named there.  A text is
the launch configuration the client waits for, or else a message for `handleMessage`.

A menu is made for a handle, and every button of it names that handle.  In a group everybody
sees the menu and can press its buttons.
-/

namespace Nexus

open Async Text

/-! ## Updates -/

/-- A Telegram account. -/
structure TgAccount where
  id : Nat
  username : Str
  firstName : Str

/-- The handle of an account. -/
def TgAccount.handle (a : TgAccount) : String := a.username.getD (toString a.id)

/-- What an account is called in the answers. -/
def TgAccount.name (a : TgAccount) (handle : Str) : String :=
  if a.firstName.getD "" = "" then handle.text else a.firstName.getD ""

/-- A chat.  The id of a private chat is the id of the account. -/
structure Chat where
  id : String
  isPrivate : Bool

/-- The account can read the chat and write to it. -/
def Chat.admits (chat : Chat) (a : TgAccount) : Bool := !chat.isPrivate || chat.id = toString a.id

/-- An update.  A press comes with the message of the button and with the local time, which the
answers show. -/
inductive Update where
  | start (sender : TgAccount) (chat : Chat)
  | press (sender : TgAccount) (chat : Chat) (msgId : Nat) (data : String) (time : String)
  | text (sender : TgAccount) (chat : Chat) (text : String) (hasMention : Bool)

/-- The account and the chat of an update. -/
def Update.source : Update → TgAccount × Chat
  | .start sender chat => (sender, chat)
  | .press sender chat _ _ _ => (sender, chat)
  | .text sender chat _ _ => (sender, chat)

/-! ## Menus -/

def cbData (actionId : String) (handle : Str) : String := actionId ++ ":" ++ handle.text

def btn (label actionId : String) (handle : Str) : Button := ⟨label, cbData actionId handle⟩

def mainMenu (handle : Str) : List Button :=
  [btn "🔍 Balance" "BAL" handle, btn "💲 Price" "PRICE" handle, btn "📊 Portfolio" "PORT" handle,
    btn "📈 Trade" "TRADE" handle, btn "📘 History" "HIST" handle, btn "💰 Deposit" "DEP" handle,
    btn "⚙️ Auto ON" "AON" handle, btn "⛔ Auto OFF" "AOF" handle, btn "🚀 Launch" "LAUNCH" handle,
    btn "❓ Help" "HELP" handle]

def tradeMenu (handle : Str) : List Button :=
  [btn "🟢 Buy 0.10" "QB" handle, btn "🔴 Sell 0.10" "QS" handle, btn "↩️ Back" "BK" handle]

def launchMenu (handle : Str) : List Button :=
  [btn "🤖 AI Launch" "AICFG" handle, btn "🖋 Manual Launch" "MANUAL" handle,
    btn "↩️ Back" "BK" handle]

def confirmMenu (handle : Str) : List Button :=
  [btn "✅ Confirm & Launch" "LAUNCH_CONF" handle, btn "↩️ Back" "LAUNCH" handle]

/-! ## Actions -/

/-- The actions of the buttons. -/
inductive Action where
  | balance | price | portfolio | trade | history | deposit | autoOn | autoOff | help | quickBuy
  | quickSell | back | launch | aiConfig | confirm | manual
  deriving DecidableEq, Repr

/-- The action of an id. -/
def Action.ofId (actionId : String) : Option Action :=
  [("BAL", Action.balance), ("PRICE", .price), ("PORT", .portfolio), ("TRADE", .trade),
    ("HIST", .history), ("DEP", .deposit), ("AON", .autoOn), ("AOF", .autoOff), ("HELP", .help),
    ("QB", .quickBuy), ("QS", .quickSell), ("BK", .back), ("LAUNCH", .launch),
    ("AICFG", .aiConfig), ("LAUNCH_CONF", .confirm), ("MANUAL", .manual)].lookup actionId

/-- The action and the handle in the data of a button. -/
def readData (data : String) : Option Action × Str :=
  ((split ":" data)[0]?.bind Action.ofId, (split ":" data)[1]?)

section

variable (env : Env)

/-- `ctx.reply(text)`. -/
def reply (chat : Chat) (text : String) (menu : List Button) : Prog Unit :=
  attempt (ask (.telegram (.reply chat.id text menu)))

/-- `ctx.replyWithPhoto(photo, { caption })`. -/
def replyWithPhoto (chat : Chat) (photo : Str) (caption : String) (menu : List Button) :
    Prog Unit :=
  attempt (ask (.telegram (.replyWithPhoto chat.id photo caption menu)))

/-- Edit the message of the button, or send a new one. -/
def editOrReply (chat : Chat) (msgId : Nat) (text : String) (menu : List Button) : Prog Unit :=
  (attempt (ask (.telegram (.editMessageText chat.id msgId text menu)))).tryCatch fun _ =>
    reply chat text menu

/-- The text of a portfolio. -/
def portfolioText (name time : String) (p : Portfolio) : String :=
  "*" ++ name ++ ", your portfolio (as of " ++ time ++ "):*\n• SOL: `" ++ p.sol.toFixed 3 ++
    "` (~`$" ++ p.solUsd ++ "`)\n" ++
    join "" (p.tokens.map fun t => "• `" ++ t.short ++ "…`: `" ++ t.amount.text ++ "` @ `$" ++
      Json.text t.price ++ "` = `$" ++ t.usdValue ++ "`\n") ++
    "*Total:* `$" ++ p.totalUsd ++ "`"

/-- The text of a conversation.  An entry is an object, whose text says nothing. -/
def historyText (name : String) (hist : List (List (String × String))) : String :=
  let lines := hist.mapIdx fun i _ => toString (i + 1) ++ ". [object Object]"
  "*" ++ name ++ ", conversation history:*\n" ++
    if hist = [] then "_No history yet._" else join "\n" lines

def helpText (name : String) : String :=
  "*" ++ name ++ ", you can also type these commands:*\n" ++
    "`/buy <MINT> <SOL>` — place a buy order\n" ++ "`/sell <MINT> <SOL>` — place a sell order\n" ++
    "`deposit`, `balance`, `price`, `portfolio`\n\n" ++ "`auto on|off`, `risk low|med|high`"

/-- The answer of a switch. -/
def switchText (name time word : String) (st : Settings) : String :=
  "*" ++ name ++ ", Auto–Trading " ++ word ++ "*\nRisk profile: *" ++ st.risk ++
    "*\n_(updated " ++ time ++ ")_"

/-- The answer after a launch. -/
def launchedText (res : Launched) : String :=
  "✅ *Token Launched!*\n" ++ "• Mint: `" ++ res.mint ++ "`\n" ++ "• Pool Sig: `" ++
    res.poolSignature ++ "`\n" ++ "• Logo: " ++ res.imageUrl ++ "\n" ++ "• Metadata: " ++
    res.website

/-- Launch a token and say how it went. -/
def launchAndReport (chat : Chat) (cfg : Json) (handle : Str) : Prog Unit := do
  match ← (await (launchTokenInternal env cfg handle)).outcome with
  | .ok res => replyWithPhoto chat (some res.imageUrl) (launchedText res) []
  | .error err => reply chat ("❌ Launch failed:\n" ++ err.message) []

/-- What is shown of a configuration. -/
def previewText (cfg : Json) : String :=
  let shown := ["decimals", "supply", "tokenName", "tokenMint"]
  "*Config generated:*\n" ++ "```json\n" ++
    Json.stringify2 (.obj (definedProps (shown.map fun k => (k, cfg.field k)))) ++ "\n```\n" ++ "__"

/-- Generate a configuration, keep it for the handle, and draw a preview. -/
def newConfig (handle : Str) : Prog (Json × String) := do
  let fullCfg ← await (generateLaunchConfig env)
  ask (.configSet handle fullCfg)
  let imgUrl ← await (generateImage env (fullCfg.field "tokenName"))
  return (fullCfg, imgUrl)

/-- The message of a quick trade, which has no handle and no way to be answered. -/
def quickTrade (act : String) (handle : Str) : Message where
  handle := none
  text := none
  button := some ("BTN::" ++ act ++ "::" ++ solMint ++ "::" ++ handle.text)
  reply := none

/-- Carry out an action. -/
def act (chat : Chat) (msgId : Nat) (name time : String) (handle : Str) : Action → Prog Unit
  | .balance => do
      let b ← await (balanceOf env handle)
      editOrReply chat msgId ("*" ++ name ++ ", your balance (as of " ++ time ++ "):*\n• SOL: `" ++
        b.1 ++ "`\n• Agent tokens: `" ++ b.2.shortText ++ "`") (mainMenu handle)
  | .price => do
      match ← await (fetchSolPrice env) with
      | some p => do
          let fixed ← .ofExcept (p.toFixed 2)
          editOrReply chat msgId ("*" ++ name ++ ", SOL price (as of " ++ time ++ "):* `$" ++
            fixed ++ "` USD") (mainMenu handle)
      | none =>
          editOrReply chat msgId "❌ Could not fetch SOL price right now." (mainMenu handle)
  | .portfolio => do
      let p ← await (getPortfolio env handle)
      editOrReply chat msgId (portfolioText name time p) (mainMenu handle)
  | .trade => editOrReply chat msgId ("*" ++ name ++ ", choose trade action:*") (tradeMenu handle)
  | .history => do
      let hist ← await («recall» handle 5)
      editOrReply chat msgId (historyText name hist) (mainMenu handle)
  | .deposit => do
      let addr ← await (walletOf env handle)
      editOrReply chat msgId ("🔑 *" ++ name ++ ", your deposit address:*\n`" ++ addr ++ "`")
        (mainMenu handle)
  | .autoOn => do
      let st ← toggleAuto env handle (some true)
      editOrReply chat msgId (switchText name time "ENABLED ✅" st) (mainMenu handle)
  | .autoOff => do
      let st ← toggleAuto env handle (some false)
      editOrReply chat msgId (switchText name time "DISABLED ❌" st) (mainMenu handle)
  | .help => editOrReply chat msgId (helpText name) (mainMenu handle)
  | .quickBuy => do
      await (editOrReply chat msgId ("*" ++ name ++ ", buy order sent (0.10 SOL)*\n_(updated " ++
        time ++ ")_") (tradeMenu handle))
      handleMessage env (quickTrade "QBUY" handle)
  | .quickSell => do
      await (editOrReply chat msgId ("*" ++ name ++ ", sell order sent (0.10 SOL)*\n_(updated " ++
        time ++ ")_") (tradeMenu handle))
      handleMessage env (quickTrade "QSELL" handle)
  | .back => editOrReply chat msgId env.menuTitle (mainMenu handle)
  | .launch =>
      editOrReply chat msgId ("*" ++ name ++ ", choose launch method:*") (launchMenu handle)
  | .aiConfig => do
      await (editOrReply chat msgId "🧠 Generating launch configuration via AI…"
        (launchMenu handle))
      match ← (newConfig env handle).outcome with
      | .ok (cfg, imgUrl) =>
          replyWithPhoto chat (some imgUrl) (previewText cfg) (confirmMenu handle)
      | .error err => reply chat ("❌ Failed to generate config:\n" ++ err.message) []
  | .confirm => do
      match ← ask (.configGet handle) with
      | none =>
          editOrReply chat msgId
            "❌ No configuration found. Please regenerate or use Manual Launch."
            (launchMenu handle)
      | some cfg => do
          await (editOrReply chat msgId "🚀 Launching token…" (launchMenu handle))
          launchAndReport env chat cfg handle
  | .manual => do
      await (editOrReply chat msgId "*Please send the launch configuration JSON now.*"
        (launchMenu handle))
      ask (.manualAdd handle)

/-! ## Handlers -/

/-- `/start`. -/
def onStart (sender : TgAccount) (chat : Chat) : Prog Unit := do
  let handle : Str := some sender.handle
  -- `saveChatId` does nothing, but is waited for
  ask .tick
  let caption := "*" ++ env.greeting ++ "*\n_Hello, " ++ sender.name handle ++ "!_"
  if env.greetingImg.getD "" = "" then reply chat caption []
  else replyWithPhoto chat env.greetingImg caption []
  reply chat env.menuTitle (mainMenu handle)

/-- A press of a button, given what its data says. -/
def onAction (sender : TgAccount) (chat : Chat) (msgId : Nat) (time : String)
    (action : Option Action) (handle : Str) : Prog Unit := do
  ask .tick
  let _ ← (attempt (ask (.telegram .answerCbQuery))).outcome
  match action with
  | some action => act env chat msgId (sender.name handle) time handle action
  | none => return ()

/-- A press of a button. -/
def onCallback (sender : TgAccount) (chat : Chat) (msgId : Nat) (data time : String) : Prog Unit :=
  onAction env sender chat msgId time (readData data).1 (readData data).2

/-- The text the client takes for a launch configuration. -/
def onManual (chat : Chat) (handle : Str) (text : String) : Prog Unit :=
  match parseJson (some text) with
  | .error _ => reply chat "❌ Invalid JSON. Please try /launch again." []
  | .ok cfg => do
      reply chat "🚀 Launching token with your JSON…" []
      launchAndReport env chat cfg handle

/-- A text for the agent, without the name of the bot. -/
def forAgent (text : String) : String :=
  if env.botName.getD "" = "" then text else trim (removeAll ("@" ++ env.botName.getD "") text)

/-- A text message. -/
def onText (sender : TgAccount) (chat : Chat) (text : String) (hasMention : Bool) : Prog Unit := do
  let handle : Str := some sender.handle
  let awaited : Bool ← ask (.manualHas handle)
  if awaited then do
    ask (.manualDelete handle)
    onManual env chat handle text
  else if !chat.isPrivate && !hasMention && !startsWith text "/" then return ()
  else do
    ask .tick
    .spawn (handleMessage env ⟨handle, some (forAgent env text), none, some (.telegram chat.id)⟩)

/-- The program of an update. -/
def Update.body : Update → Prog Unit
  | .start sender chat => onStart env sender chat
  | .press sender chat msgId data time => onCallback env sender chat msgId data time
  | .text sender chat said hasMention => onText env sender chat said hasMention

end

end Nexus
