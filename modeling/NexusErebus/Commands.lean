import NexusErebus.Db
import NexusErebus.Memory
import NexusErebus.Solana
import NexusErebus.Text.Double
import NexusErebus.Text.Regex

/-!
# Users and commands (commands.js)

Every process keeps the users it has met in a map.  `ensure` looks a handle up and, if it
is new, generates a key pair for it and stores the public fields.  `initializeUsers` fills
the map from the store when the agent boots.  `handleMessage` takes a message of any front
end to a command.

An object of the map is read and written through its handle, because no handle is ever
given a second object.  A message names the way it is answered.
-/

namespace Nexus

open Async Text

/-! ## Patterns -/

namespace Rx

open Text.Rx

/-- Spaces, at least so many. -/
def spaces (min : Nat) : Text.Rx := many isSpace min none

/-- `word\s+([A-Za-z0-9]{32,44})\s+([\d.]+)`, with or without a slash in front. -/
def trade (word : String) : Text.Rx :=
  seq (alt (lit ("/" ++ word)) (lit word)) <| seq (spaces 1) <|
    seq (group 1 (many Char.isAlphanum 32 (some 44))) <| seq (spaces 1) <|
      group 2 (many (fun c => c.isDigit || c = '.') 1 none)

def buy : Text.Rx := trade "buy"

def sell : Text.Rx := trade "sell"

/-- `\b(?:…)\b`. -/
def whole (r : Text.Rx) : Text.Rx := seq boundary (seq r boundary)

def dep : Text.Rx := whole (group 1 (alt (lit "deposit") (lit "wallet")))

def bal : Text.Rx := whole (lit "balance")

def port : Text.Rx := whole (alt (lit "holdings") (alt (lit "portfolio") (lit "how much i hold")))

def price : Text.Rx :=
  whole (alt (seq (lit "sol") (seq (opt (lit "ana")) (lit " price"))) (lit "price of solana"))

def auto : Text.Rx :=
  whole (seq (lit "auto") (seq (opt (lit "trade")) (seq (spaces 0)
    (group 1 (alt (lit "on") (lit "off"))))))

def risk : Text.Rx :=
  whole (seq (lit "risk") (seq (spaces 0)
    (group 1 (alt (lit "low") (alt (lit "med") (lit "high"))))))

end Rx

/-! ## Prices -/

/-- A price, as its source gives it. -/
inductive Price where
  | num (x : Number)
  | json (v : Json)

namespace Price

/-- The number a price counts as. -/
def toNum : Price → Number
  | .num x => x
  | .json v => Json.toNumber (some v)

/-- `price.toFixed(k)`. -/
def toFixed (k : Nat) : Price → Except Err String
  | .num x => .ok (x.toFixed k)
  | .json (.num q) => .ok (Number.toFixed k (some q))
  | .json _ => .error ⟨.typeError, "price.toFixed is not a function"⟩

/-- The text of a price in a template. -/
def text : Price → String
  | .num x => x.text
  | .json v => Json.text (some v)

end Price

/-- `x?.key`. -/
def optProp (x : Option Json) (key : String) : Option Json :=
  if Json.nullish x then none else x.bind (Json.field key)

section

variable (env : Env)

/-- The price of SOL in USD: from Binance, else from CoinGecko, else from a quote. -/
def fetchSolPrice : Prog (Option Price) := do
  let binance ← Prog.outcome do
    let j ← fetchJson
      ⟨"https://api.binance.com/api/v3/ticker/price?symbol=SOLUSDT", "GET", .none⟩
    prop (some j) "price"
  match binance with
  | .ok price =>
      if Json.truthy price then return some (.num (Number.parseFloat (Json.text price)))
      else coinGecko
  | .error _ => coinGecko
where
  coinGecko : Prog (Option Price) := do
    let gecko ← Prog.outcome do
      let j ← fetchJson
        ⟨"https://api.coingecko.com/api/v3/simple/price?ids=solana&vs_currencies=usd", "GET",
          .none⟩
      let solana ← prop (some j) "solana"
      return optProp solana "usd"
    match gecko with
    | .ok (some usd) => if Json.truthy (some usd) then return some (.json usd) else jupiter
    | _ => jupiter
  jupiter : Prog (Option Price) := do
    let route ← (await (quoteSOLto env env.usdcMint (some lamportsPerSol))).outcome
    match route with
    | .ok route =>
        let outAmount := optProp (some route) "outAmount"
        if Json.truthy outAmount then return some (.num ((Json.toNumber outAmount).div 1000000))
        else return none
    | .error _ => return none

end

/-- `{}` if the prices cannot be had. -/
def fetchTokenPrices (mints : List String) : Prog Json := do
  if mints = [] then return .obj []
  else do
    let prices ← (fetchJson ⟨"https://api.coingecko.com/api/v3/simple/token_price/solana" ++
      "?contract_addresses=" ++ join "," mints ++ "&vs_currencies=usd", "GET", .none⟩).outcome
    match prices with
    | .ok prices => return prices
    | .error _ => return .obj []

/-! ## Users -/

/-- The object of a handle. -/
def userObject (h : Str) : Prog User := do
  match ← ask (.usersGet h) with
  | some u => return u
  | none => typeError "Cannot read properties of undefined (reading 'sol')"

/-- `b.toString()`. -/
def boolText (b : Bool) : String := if b then "true" else "false"

section

variable (env : Env)

/-- Store the public fields.  They are read when the function is called. -/
def persist (handle : Str) : Prog Unit := do
  let u ← userObject handle
  await (upsertUser env handle
    [("sol", some u.sol.shortText), ("tierBal", some u.tierBal.shortText),
      ("auto", some (boolText u.auto)), ("risk", u.risk)])

/-- What `persist` writes to the record of a user. -/
def publicFields (u : User) : List (String × String) :=
  [("sol", u.sol.shortText), ("tierBal", u.tierBal.shortText), ("auto", boolText u.auto),
    ("risk", redisArg u.risk)]

variable {env} in
theorem persist_eq (handle : Str) : persist env handle = (userObject handle).bind fun u =>
    await ((redis (.sadd usersSetKey (redisArg handle))).bind fun _ =>
      redis (.hset (userKey handle) (publicFields u))) := by
  rw [persist, Prog.bind_eq]
  refine congrArg _ (funext fun u => congrArg await ?_)
  rw [upsertUser_public rfl rfl]
  rfl

theorem issues_userObject {pre : Cmd → Prop} {handle : Str} (hget : pre (.usersGet handle)) :
    (userObject handle).Issues pre := by
  refine Prog.issues_bind (issues_ask hget) fun u => ?_
  cases u with
  | some u => exact .ret u
  | none => exact issues_typeError _

/-- The wallet of a handle, which is generated if the handle is new. -/
def ensure (handle : Str) : Prog Keypair := do
  match ← ask (.usersGet handle) with
  | some u => return u.wallet
  | none => do
      let wallet ← ask (.generate (.wallet handle))
      ask (.usersSet handle ⟨wallet, some 0, some 0, false, some "med"⟩)
      await (persist env handle)
      return wallet

def walletOf (handle : Str) : Prog String := do
  let wallet ← await (ensure env handle)
  ask (.note handle wallet.address)
  return wallet.address

/-- The SOL balance as a text, and the balance of agent tokens. -/
def balanceOf (handle : Str) : Prog (String × Number) := do
  let _ ← await (ensure env handle)
  let u ← userObject handle
  return (u.sol.toFixed 3, u.tierBal)

/-- `users.get(handle) || await ensure(handle)`. -/
def knownWallet (handle : Str) : Prog Keypair := do
  match ← ask (.usersGet handle) with
  | some u => return u.wallet
  | none => await (ensure env handle)

/-- Refresh the balances of a user and store them. -/
def updateBalances (handle : Str) : Prog (Number × Number) := do
  let wallet ← knownWallet env handle
  let (sol, agentLamports) ← await (refreshBalances env wallet.publicKey)
  ask (.usersAssign handle (.sol sol))
  ask (.usersAssign handle (.tierBal agentLamports))
  await (persist env handle)
  return (sol, agentLamports)

/-! ## Portfolios -/

/-- A line of a portfolio. -/
structure Token where
  mint : String
  amount : Number
  price : Option Json
  usdValue : String

/-- A number as JSON, where `NaN` is `null`. -/
def numJson : Number → Json
  | some q => .num q
  | none => .null

/-- What `getPortfolio` returns. -/
structure Portfolio where
  sol : Number
  solUsd : String
  tokens : List Token
  totalUsd : String

/-- The positive balances, added up by mint. -/
def tokenBalances : List (String × String) → List (String × Number) → List (String × Number)
  | [], balances => balances
  | (mint, uiAmount) :: rest, balances =>
      let amt := Number.parseFloat uiAmount
      if amt.gt (some 0) then
        -- a sum of zero counts as missing, which makes no difference
        let sum := ((balances.lookup mint).getD (some 0)).add amt
        tokenBalances rest (Assoc.set mint sum balances)
      else tokenBalances rest balances

/-- The lines of a portfolio and their total. -/
def tokenLines (prices : Json) : List (String × Number) → Number → Prog (List Token × Number)
  | [], totalUsd => return ([], totalUsd)
  | (mint, amt) :: rest, totalUsd => do
      let priceObj ← prop (some prices) (toLowerCase mint)
      let price : Option Json :=
        if Json.nullish (optProp priceObj "usd") then some (.num 0) else optProp priceObj "usd"
      let usdValue := (amt.mul (Json.toNumber price)).toFixed 2
      let (tokens, totalUsd) ←
        tokenLines prices rest (totalUsd.add (Number.parseFloat usdValue))
      return (⟨mint, amt, price, usdValue⟩ :: tokens, totalUsd)

/-- The snapshot that is kept for analysis. -/
def snapshotJson (ts : Nat) (sol : Number) (solUsd : String) (tokens : List Token) : Json :=
  .obj [("ts", .num ts), ("sol", numJson sol), ("solUsd", .str solUsd),
    ("tokens", .arr (tokens.map fun t =>
      .obj [("mint", .str t.mint), ("amount", numJson t.amount),
        ("price", t.price.getD .null), ("usdValue", .str t.usdValue)]))]

/-- The key of the stream of snapshots of a handle. -/
def portfolioKey (handle : Str) : String := "portfolio_history:" ++ handle.text

def getPortfolio (handle : Str) : Prog Portfolio := do
  let wallet ← await (ensure env handle)
  let solPrice ← await (fetchSolPrice env)
  let (sol, _) ← await (updateBalances env handle)
  let solUsd := match solPrice with
    | some price => (sol.mul price.toNum).toFixed 2
    | none => "N/A"
  let raw ← attempt (ask (.getParsedTokenAccountsByOwner wallet.publicKey .token))
  let balances := tokenBalances raw []
  let prices ← await (fetchTokenPrices (balances.map Prod.fst))
  let solValue : Number := match solPrice with
    | some price => sol.mul price.toNum
    | none => some 0
  let (tokens, totalUsd) ← tokenLines prices balances solValue
  let ts : Nat ← ask .now
  redis (.xadd (portfolioKey handle)
    [("data", Json.stringify (snapshotJson ts sol solUsd tokens))])
  return ⟨sol, solUsd, tokens, totalUsd.toFixed 2⟩

/-- The first six characters of a mint. -/
def Token.short (t : Token) : String := String.ofList (t.mint.toList.take 6)

/-- The portfolio as an answer. -/
def Portfolio.reply (p : Portfolio) : String :=
  "**Portfolio (Total $" ++ p.totalUsd ++ ")**\n• SOL: " ++ p.sol.toFixed 3 ++ " (~$" ++
    p.solUsd ++ ")\n" ++ join "" (p.tokens.map fun t =>
      "• " ++ t.short ++ "…: " ++ t.amount.text ++ " @ $" ++ Json.text t.price ++ " → $" ++
        t.usdValue ++ "\n")

/-! ## Settings -/

def riskName (r : Str) : String :=
  if r = some "low" then "conservative" else if r = some "high" then "aggressive" else "balanced"

/-- What the setters return. -/
structure Settings where
  autoTrade : Bool
  risk : String

/-- Switch auto-trading on or off, or over if `state` is not a truth value. -/
def toggleAuto (handle : Str) (state : Option Bool) : Prog Settings := do
  match ← ask (.usersGet handle) with
  | none =>
      match state with
      | some _ => typeError "Cannot set properties of undefined (setting 'auto')"
      | none => typeError "Cannot read properties of undefined (reading 'auto')"
  | some u => do
      let auto := state.getD (!u.auto)
      ask (.usersAssign handle (.auto auto))
      .spawn (persist env handle)
      return ⟨auto, riskName u.risk⟩

def setRisk (handle : Str) (level : Str) : Prog Settings := do
  match ← ask (.usersGet handle) with
  | none => typeError "Cannot set properties of undefined (setting 'risk')"
  | some u => do
      ask (.usersAssign handle (.risk level))
      .spawn (persist env handle)
      return ⟨u.auto, riskName level⟩

section

variable {env : Env} {pre : Cmd → Prop} {handle : Str} (hget : pre (.usersGet handle))

include hget

theorem issues_toggleAuto (hassign : ∀ b, pre (.usersAssign handle (.auto b)))
    (hpersist : (persist env handle).Issues pre) (state : Option Bool) :
    (toggleAuto env handle state).Issues pre := by
  refine Prog.issues_bind (issues_ask hget) fun u => ?_
  cases u with
  | none =>
      cases state with
      | some b => exact issues_typeError _
      | none => exact issues_typeError _
  | some u =>
      refine Prog.issues_bind (issues_ask (hassign _)) fun _ => ?_
      exact Prog.issues_bind (Prog.issues_spawn hpersist) fun _ => .ret _

theorem issues_setRisk (hassign : ∀ level, pre (.usersAssign handle (.risk level)))
    (hpersist : (persist env handle).Issues pre) (level : Str) :
    (setRisk env handle level).Issues pre := by
  refine Prog.issues_bind (issues_ask hget) fun u => ?_
  cases u with
  | none => exact issues_typeError _
  | some u =>
      refine Prog.issues_bind (issues_ask (hassign _)) fun _ => ?_
      exact Prog.issues_bind (Prog.issues_spawn hpersist) fun _ => .ret _

end

/-! ## Boot and deposits -/

/-- Load a stored user.  Without a usable key the user is skipped. -/
def hydrate (handle : String) : Prog Unit := do
  match ← await (getUser (some handle)) with
  | none => return ()
  | some data => do
      let ⟨secret, legacyStr⟩ ← await (getWalletCompat env (some handle))
      match secret with
      | some secret =>
          if secret.length = 64 then do
            let kp ← .ofExcept (env.keypair secret)
            match legacyStr with
            | some s =>
                if s ≠ "" then
                  await (storeSecret env (some handle) (charsJson s))
                else pure ()
            | none => pure ()
            ask (.usersSet (some handle) ⟨kp.filled,
              (Number.parseFloat ((data.lookup "sol").getD "0")).held,
              (Number.parseFloat ((data.lookup "tierBal").getD "0")).held,
              data.lookup "auto" = some "true",
              some ((data.lookup "risk").getD "med")⟩)
          else return ()
      | none => return ()

variable {env} in
theorem issues_hydrate {pre : Cmd → Prop} {handle : String} (htick : pre .tick)
    (hall : pre (.redis (.hgetall (userKey (some handle)))))
    (hwallet : pre (.redis (.hget (userKey (some handle)) "wallet")))
    (hstore : ∀ array, (storeSecret env (some handle) array).Issues pre)
    (hset : ∀ u, pre (.usersSet (some handle) u)) : (hydrate env handle).Issues pre := by
  refine Prog.issues_bind (issues_await htick (issues_getUser hall)) fun data => ?_
  cases data with
  | none => exact .ret _
  | some data =>
      refine Prog.issues_bind (issues_await htick (issues_getWalletCompat hwallet)) fun w => ?_
      dsimp only
      split
      · split
        · refine Prog.issues_bind (Prog.issues_ofExcept _) fun kp => ?_
          split
          · split
            · exact Prog.issues_bind (issues_await htick (hstore _)) fun _ => issues_ask (hset _)
            · exact issues_ask (hset _)
          · exact issues_ask (hset _)
        · exact .ret _
      · exact .ret _

/-- Watch the accounts of the users in the map. -/
def watchDeposits : Prog Unit := do
  let handles : List Str ← ask .usersKeys
  Prog.forEach (fun h => do
    let known : Bool ← ask (.watched h)
    if known then return () else ask (.watch h)) handles

omit env in
theorem issues_watchDeposits {pre : Cmd → Prop} (hkeys : pre .usersKeys)
    (hwatched : ∀ h, pre (.watched h)) (hwatch : ∀ h, pre (.watch h)) : watchDeposits.Issues pre := by
  refine Prog.issues_bind (issues_ask hkeys) fun handles => ?_
  refine Prog.issues_forEach fun h _ => Prog.issues_bind (issues_ask (hwatched h)) fun known => ?_
  split
  · exact .ret _
  · exact issues_ask (hwatch h)

def initializeUsers : Prog Unit := do
  let handles ← await getAllUsers
  Prog.forEach (hydrate env) handles
  watchDeposits

/-- `enqueueTrade`. -/
def enqueueTrade (job : TradeJob) : Prog Unit := ask (.addJob job)

/-- What the watchers call when a balance has changed. -/
def onUpdate (handle : Str) : Prog Unit := do
  let u ← userObject handle
  ask (.usersSet handle u)
  await (persist env handle)
  let u ← userObject handle
  if u.auto && u.sol.gt (some (5 / 100)) then
    await (enqueueTrade ⟨⟨.sell, some solMint, some (2 / 100)⟩, handle⟩)
  else return ()

/-- The SOL account of a user has changed. -/
def solChanged (handle : Str) : Prog Unit := do
  let u ← userObject handle
  let (sol, _) ← await (refreshBalances env u.wallet.publicKey)
  ask (.usersAssign handle (.sol sol))
  .spawn (onUpdate env handle)

/-- The token account of a user has changed. -/
def tokenChanged (handle : Str) : Prog Unit := do
  let u ← userObject handle
  let (_, agentLamports) ← await (refreshBalances env u.wallet.publicKey)
  ask (.usersAssign handle (.tierBal agentLamports))
  .spawn (onUpdate env handle)

/-! ## Messages -/

/-- The functions that answer a message: to a Telegram chat, on Twitter, and the one of the
REST front end, which does nothing. -/
inductive Reply where
  | telegram (chat : String)
  | twitter
  | silent

/-- Answer a message. -/
def Reply.send : Reply → String → Prog Unit
  | .telegram chat, text => attempt (ask (.telegram (.sendMessage chat text)))
  | .twitter, text => attempt (ask (.twitterReply text))
  | .silent, _ => return ()

/-- A message of any front end. -/
structure Message where
  handle : Str
  text : Str
  button : Str
  reply : Option Reply

/-- Call the function `fn` that answers a message, which may be missing. -/
def answer (fn : String) (reply : Option Reply) (text : String) : Prog Unit :=
  match reply with
  | some r => r.send text
  | none => typeError (fn ++ " is not a function")

def stripMention (txt : String) : String :=
  if env.twHandle = "" then txt else trim (removeAll ("@" ++ env.twHandle) txt)

def dispatchTrade (cmd : TradeCmd) (handle : Str) (reply : Option Reply) : Prog Unit := do
  await (enqueueTrade ⟨cmd, handle⟩)
  match reply with
  | some r => .spawn (r.send ("🔄 Trade queued: " ++ cmd.t.text ++ " " ++ cmd.sol.text ++ " SOL"))
  | none => return ()

/-- Answer with the price of SOL. -/
def replyPrice (fn : String) (reply : Option Reply) : Prog Unit := do
  match ← await (fetchSolPrice env) with
  | some price => do
      let fixed ← .ofExcept (price.toFixed 2)
      answer fn reply ("🚀 SOL is currently $" ++ fixed ++ " USD.")
  | none => answer fn reply "❌ Could not fetch SOL price right now."

/-- Answer with the portfolio. -/
def replyPortfolio (handle : Str) (fn : String) (reply : Option Reply) : Prog Unit := do
  let p ← await (getPortfolio env handle)
  answer fn reply p.reply

/-- `x.trim()`. -/
def trimmed : Option Json → Prog String
  | some (.str s) => .ret (trim s)
  | none => typeError "Cannot read properties of undefined (reading 'trim')"
  | some .null => typeError "Cannot read properties of null (reading 'trim')"
  | some _ => typeError "(intermediate value).response.trim is not a function"

/-- The prompt for the language model. -/
def aiContext (history : List (List (String × String))) (text : String)
    (price : Option Price) (port : Portfolio) : String :=
  let said := join "" (history.map fun msg => "User: " ++ Str.text (msg.lookup "text") ++ "\n")
  let portLines := join "\n"
    (("SOL:  " ++ port.sol.toFixed 3 ++ "  (~$" ++ port.solUsd ++ ")") ::
      port.tokens.map fun t => t.short ++ "… : " ++ t.amount.text ++ " @ $" ++
        Json.text t.price ++ " = $" ++ t.usdValue)
  let priceNow := match price with
    | some p => p.text
    | none => "N/A"
  said ++ "User: " ++ text ++ "\n\n" ++ "### Real-time facts\n" ++ "SOL price: $" ++ priceNow ++
    "\n" ++ "Portfolio:\n" ++ portLines ++ "\n" ++ "AI:"

/-- The conversation with the language model. -/
def converse (text : String) (handle : Str) (reply : Option Reply) : Prog Unit := do
  let ts : Nat ← ask .now
  await (remember handle text ts)
  let history ← await («recall» handle 10)
  let priceNow ← await (fetchSolPrice env)
  let port ← await (getPortfolio env handle)
  let prompt := env.persona ++ "\nGoals: " ++ env.goals ++ "\n\n" ++
    aiContext history text priceNow port
  let j ← fetchJson ⟨env.ollamaUrl, "POST", .text (Json.stringify (.obj
    [("model", .str env.ollamaModel), ("prompt", .str prompt), ("stream", .bool false)]))⟩
  let response ← prop (some j) "response"
  let said ← trimmed response
  .spawn (answer "reply" reply said)
  let ts : Nat ← ask .now
  await (remember handle said ts)

def dispatchAI (text : String) (handle : Str) (reply : Option Reply) : Prog Unit :=
  let clean := stripMention env text
  if Rx.price.test clean then replyPrice env "reply" reply
  else if Rx.port.test clean then replyPortfolio env handle "reply" reply
  else (converse env text handle reply).tryCatch fun _ =>
    .spawn (answer "reply" reply "🤖 …sorry, I had a brain-freeze.")

/-- The actions of a button payload. -/
inductive ButtonAct where
  | auto (on : Bool)
  | risk (level : Str)
  | trade (side : Side) (mint : Str)

/-- Read a button payload. -/
def buttonAct (button : Str) : Option ButtonAct :=
  if button.getD "" = "" then none
  else
    let parts := split "::" (button.getD "")
    let act := parts[1]?
    let arg : Str := parts[2]?
    if act = some "AUTO" then some (.auto (arg = some "on"))
    else if act = some "RISK" then some (.risk arg)
    else if act = some "QBUY" then some (.trade .buy arg)
    else if act = some "QSELL" then some (.trade .sell arg)
    else none

/-- The commands of a text. -/
inductive TextCmd where
  | trade (cmd : TradeCmd)
  | deposit
  | balance
  | portfolio
  | price
  | auto (val : Str)
  | risk (val : Str)

/-- A trade, given the groups of its pattern. -/
def tradeOf (t : Side) (groups : List (Nat × String)) : TextCmd :=
  .trade ⟨t, groups.lookup 1, Number.ofText ((groups.lookup 2).getD "")⟩

/-- Read a text. -/
def textCmd (clean : String) : Option TextCmd :=
  match Rx.buy.exec clean with
  | some groups => some (tradeOf .buy groups)
  | none =>
      match Rx.sell.exec clean with
      | some groups => some (tradeOf .sell groups)
      | none =>
          if Rx.dep.test clean then some .deposit
          else if Rx.bal.test clean then some .balance
          else if Rx.port.test clean then some .portfolio
          else if Rx.price.test clean then some .price
          else
            -- the risk wins if both are there
            match Rx.risk.exec clean with
            | some groups => some (.risk (groups.lookup 1))
            | none => (Rx.auto.exec clean).map fun groups => .auto (groups.lookup 1)

/-- The answer of a switch. -/
def autoText (r : Settings) : String :=
  "Auto-trading *" ++ (if r.autoTrade then "ENABLED ✅" else "DISABLED ❌") ++ "*"

/-- Carry out the action of a button. -/
def handleButton (m : Message) : ButtonAct → Prog Unit
  | .auto on => do
      let r ← toggleAuto env m.handle (some on)
      answer "m.reply" m.reply (autoText r)
  | .risk level => do
      let r ← setRisk env m.handle level
      answer "m.reply" m.reply ("Risk profile → *" ++ r.risk ++ "*")
  | .trade side mint => dispatchTrade ⟨side, mint, some (1 / 10)⟩ m.handle m.reply

/-- Carry out the command of a text. -/
def handleText (m : Message) : TextCmd → Prog Unit
  | .deposit => do
      let address ← await (walletOf env m.handle)
      answer "m.reply" m.reply ("🔑 Deposit address:\n" ++ address)
  | .balance => do
      let (sol, tier) ← await (updateBalances env m.handle)
      answer "m.reply" m.reply ("Wallet SOL: " ++ sol.toFixed 3 ++ "\nAgent tokens: " ++
        tier.shortText)
  | .portfolio => replyPortfolio env m.handle "m.reply" m.reply
  | .price => replyPrice env "m.reply" m.reply
  | .auto val => do
      let r ← toggleAuto env m.handle (some (val = some "on"))
      answer "m.reply" m.reply (autoText r)
  | .risk _ => .throw ⟨.referenceError, "handle is not defined"⟩
  | .trade cmd => dispatchTrade cmd m.handle m.reply

def handleMessage (m : Message) : Prog Unit :=
  match buttonAct m.button with
  | some act => handleButton env m act
  | none =>
      let txt := m.text.getD ""
      match textCmd (stripMention env txt) with
      | some cmd => handleText env m cmd
      | none => dispatchAI env txt m.handle m.reply

end

end Nexus
