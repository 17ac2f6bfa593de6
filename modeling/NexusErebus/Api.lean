import NexusErebus.Commands
import NexusErebus.Token

/-!
# The API server (api-server.js)

A request goes through the middleware in the order it was registered.  `POST /auth` gives a
token to a handle.  Everything else comes after `auth`, `csurf` and the double-submit check.

The body is read by `express.json`, which comes after the two middlewares that clean bodies,
so these find none.  Which requests the rate limiter turns away is left to the environment.
-/

namespace Nexus

open Async Text

/-! ## Requests -/

/-- The methods the server tells apart. -/
inductive HttpMethod where
  | get | head | options | post | other
  deriving DecidableEq, Repr

/-- A request, as the middleware finds it. -/
structure ApiRequest where
  method : HttpMethod
  path : String
  /-- The body cannot be read. -/
  malformed : Bool
  /-- The rate limiter lets the request through. -/
  admitted : Bool
  authorization : Str
  /-- The CSRF cookie. -/
  csrfCookie : Str
  /-- What `csurf` finds in the body, the query or a header it asks for before `x-csrf-token`. -/
  csrfField : Str
  xCsrfToken : Str
  xXsrfToken : Str
  body : Option Json

/-- The routes. -/
inductive Route where
  | auth | wallet | balance | portfolio | solPrice | auto | risk | trade | health
  deriving DecidableEq, Repr

/-- The route of a method and a path.  Case and a slash at the end make no difference, and
`HEAD` counts as `GET`. -/
def routeOf (method : HttpMethod) (path : String) : Option Route :=
  let path := toLowerCase path
  let path := if path.toList.getLast? = some '/' then String.ofList path.toList.dropLast else path
  match method with
  | .get | .head =>
      [("/wallet", Route.wallet), ("/balance", .balance), ("/portfolio", .portfolio),
        ("/sol-price", .solPrice), ("/health", .health)].lookup path
  | .post =>
      [("/auth", Route.auth), ("/auto", .auto), ("/risk", .risk), ("/trade", .trade)].lookup path
  | _ => none

/-- A response: its status and its body. -/
abbrev Answer := Nat × Json

def errorAnswer (status : Nat) (error : String) : Answer := (status, .obj [("error", .str error)])

def errorDetails (status : Nat) (error details : String) : Answer :=
  (status, .obj [("error", .str error), ("details", .str details)])

/-- What the error handler answers. -/
def unexpected : Answer := errorDetails 500 "server_error" "An unexpected error occurred"

/-! ## Schemas -/

/-- A property of an object.  Anything else fails the schema. -/
def schemaField (body : Option Json) (key : String) : Option Json :=
  match body with
  | some (.obj kvs) => (Json.obj kvs).field key
  | _ => none

/-- `/^@[a-zA-Z0-9_]+$/` and the bounds on the length. -/
def validHandle (handle : String) : Bool :=
  let cs := handle.toList
  2 ≤ cs.length && cs.length ≤ 32 && cs.head? = some '@' && cs.tail.all isWord

/-- The handle and the method of `schemaAuth`. -/
def schemaAuth (body : Option Json) : Option (String × String) :=
  match schemaField body "handle", schemaField body "method" with
  | some (.str handle), some (.str method) =>
      if validHandle handle && ["telegram", "twitter"].contains method then some (handle, method)
      else none
  | _, _ => none

def schemaAuto (body : Option Json) : Option Bool :=
  match schemaField body "on" with
  | some (.bool on) => some on
  | _ => none

def schemaRisk (body : Option Json) : Option String :=
  match schemaField body "level" with
  | some (.str level) => if ["low", "med", "high"].contains level then some level else none
  | _ => none

/-- The side, the mint and the amount of `schemaTrade`. -/
def schemaTrade (body : Option Json) : Option (Side × String × ℚ) :=
  match schemaField body "side", schemaField body "mint", schemaField body "sol" with
  | some (.str side), some (.str mint), some (.num sol) =>
      if mint.toList.length = 44 && mint.toList.all Char.isAlphanum && 0 < sol && sol ≤ 10 then
        if side = "buy" then some (.buy, mint, sol)
        else if side = "sell" then some (.sell, mint, sol)
        else none
      else none
  | _, _, _ => none

section

variable (env : Env)

/-! ## Middleware -/

/-- `tokens.verify(secret, token)` of the library behind `csurf`. -/
def csrfVerify (secret token : String) : Bool :=
  match token.toList.idxOf? '-' with
  | none => false
  | some i =>
      let salt := String.ofList (token.toList.take i)
      secret ≠ "" && token = salt ++ "-" ++ env.csrfHash (salt ++ "-" ++ secret)

/-- The token `csurf` finds. -/
def csrfValue (r : ApiRequest) : String :=
  (([r.csrfField, r.xCsrfToken, r.xXsrfToken].map (·.getD "")).find? (· ≠ "")).getD ""

/-- `csurf`.  Without a cookie it makes up a secret. -/
def csrfProtection (r : ApiRequest) : Prog Bool := do
  let fresh : Bytes ← ask (.randomBytes 18)
  let secret := if r.csrfCookie.getD "" = "" then Base64.encodeUrl fresh else r.csrfCookie.getD ""
  return r.method = .get || r.method = .head || r.method = .options ||
    csrfVerify env secret (csrfValue r)

/-- The double-submit check. -/
def doubleSubmit (r : ApiRequest) : Bool :=
  r.xCsrfToken.getD "" ≠ "" && r.csrfCookie.getD "" ≠ "" && r.xCsrfToken = r.csrfCookie

/-- The token in the `Authorization` header. -/
def bearer (authorization : Str) : String :=
  let s := authorization.getD ""
  if startsWith s "Bearer " then slice s 7 else s

theorem bearer_token (tok : String) : bearer (some ("Bearer " ++ tok)) = tok := by
  have h := after_append "Bearer " tok
  simp only [after, startsWith_append, if_true, Option.some.injEq] at h
  simp only [bearer, Option.getD_some, startsWith_append, if_true]
  exact h

/-- `auth`.  The user, and the time the token was checked at. -/
def auth (r : ApiRequest) : Prog (Except Answer (Json × Nat)) :=
  let token := bearer r.authorization
  if token = "" then return .error (errorDetails 401 "unauthorized" "No token provided")
  else do
    let now : Nat ← ask .now
    match verifyToken env token now with
    | .error e =>
        let details := if e.message = "token_expired" then "Token expired" else "Invalid token"
        return .error (errorDetails 401 "unauthorized" details)
    | .ok user => do
        ask (.apiNote (.verified (payloadDay (tokenPayload token)) (tokenPayload token)))
        return .ok (user, now)

/-! ## Handlers -/

/-- `signToken`, at the times the clock shows. -/
def issueToken (handle : String) : Prog String := do
  let expTime : Nat ← ask .now
  let iatTime : Nat ← ask .now
  let dayTime : Nat ← ask .now
  ask (.apiNote (.signed handle expTime iatTime dayTime))
  return signToken env handle expTime iatTime dayTime

/-- `POST /auth`. -/
def postAuth (r : ApiRequest) : Prog Answer := do
  match schemaAuth r.body with
  | none => return errorAnswer 400 "invalid"
  | some (handle, method) => do
      let token ← issueToken env (toLowerCase handle)
      return (200, .obj [("token", .str token), ("expiresIn", .num 7200), ("method", .str method)])

def settingsJson (s : Settings) : Json :=
  .obj [("autoTrade", .bool s.autoTrade), ("risk", .str s.risk)]

def portfolioJson (p : Portfolio) : Json :=
  .obj [("sol", numJson p.sol), ("solUsd", .str p.solUsd),
    ("tokens", .arr (p.tokens.map fun t =>
      .obj [("mint", .str t.mint), ("amount", numJson t.amount),
        ("price", t.price.getD .null), ("usdValue", .str t.usdValue)])),
    ("totalUsd", .str p.totalUsd)]

def priceJson : Option Price → Json
  | none => .null
  | some (.num x) => numJson x
  | some (.json v) => v

/-- The message of `POST /trade`. -/
def tradeMessage (user : Str) (side : Side) (mint : String) : Message where
  handle := user
  text := none
  button := some ((if side = .buy then "BTN::QBUY::" else "BTN::QSELL::") ++ mint ++ "::" ++
    user.text)
  reply := some .silent

/-- The handlers behind `auth`. -/
def handler (r : ApiRequest) (user : Str) : Route → Prog Answer
  | .wallet => do
      let addr ← await (walletOf env user)
      return (200, .obj [("addr", .str addr)])
  | .balance => do
      let (sol, tier) ← await (balanceOf env user)
      return (200, .obj [("sol", .str sol), ("tier", numJson tier)])
  | .portfolio => do
      let p ← await (getPortfolio env user)
      return (200, portfolioJson p)
  | .solPrice => do
      let price ← await (fetchSolPrice env)
      return (200, .obj [("price", priceJson price)])
  | .auto =>
      match schemaAuto r.body with
      | none => return errorAnswer 400 "invalid"
      | some on => do
          let s ← toggleAuto env user (some on)
          return (200, settingsJson s)
  | .risk =>
      match schemaRisk r.body with
      | none => return errorAnswer 400 "invalid"
      | some level => do
          let s ← setRisk env user (some level)
          return (200, settingsJson s)
  | .trade =>
      match schemaTrade r.body with
      | none => return errorAnswer 400 "invalid"
      | some (side, mint, _) => do
          await (handleMessage env (tradeMessage user side mint))
          return (200, .obj [("queued", .bool true)])
  | .health => do
      let timestamp : Nat ← ask .now
      return (200, .obj [("status", .str "healthy"), ("timestamp", .num timestamp)])
  -- `POST /auth` has been answered before
  | .auth => return (404, .null)

/-- The handlers answer for their own errors. -/
def runHandler (r : ApiRequest) (user : Json) (time : Nat) (route : Route) : Prog Answer := do
  ask (.apiNote (.handled user time))
  -- a token that was signed names its user by a string
  (handler env r (some (Json.textOf user)) route).tryCatch fun _ =>
    return errorAnswer 500 "server_error"

/-- Everything but `POST /auth`. -/
def protectedRoute (r : ApiRequest) : Prog Answer := do
  match ← auth env r with
  | .error answer => return answer
  | .ok (user, time) => do
      let passed ← csrfProtection env r
      if !passed then return unexpected
      else if !doubleSubmit r then return errorAnswer 403 "csrf"
      else
        match routeOf r.method r.path with
        | none => return (404, .null)
        | some route => runHandler env r user time route

/-- The answer to a request. -/
def answerRequest (r : ApiRequest) : Prog Answer :=
  if r.malformed then return unexpected
  -- the CORS middleware answers preflights
  else if r.method = .options then return (200, .null)
  else if !r.admitted then return (429, .str "Too many requests, please try again later.")
  else if routeOf r.method r.path = some .auth then do
    let passed ← csrfProtection env r
    if passed then postAuth env r else return unexpected
  else protectedRoute env r

/-- The program of a request. -/
def onRequest (r : ApiRequest) : Prog Unit := do
  let (status, body) ← answerRequest env r
  ask (.respond status body)

end

end Nexus
