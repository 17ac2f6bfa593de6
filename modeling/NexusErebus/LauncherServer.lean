import NexusErebus.Api
import NexusErebus.Launcher

/-!
# The launcher server (launcher/server.js)

Two endpoints are public: one gives out API keys, behind a captcha, and one shows the metadata
of a token.  Everything else comes after the captcha and the check of the API key, and works
with the key pair of the user in the header.

An endpoint catches its own errors.  An error of the middleware goes to the error handler at the
end of the chain.
-/

namespace Nexus

open Async Text

/-! ## Requests -/

/-- A request, as the middleware finds it. -/
structure LauncherRequest where
  method : HttpMethod
  path : String
  ip : String
  /-- The error of the body parser. -/
  malformed : Option Err
  xCaptchaToken : Str
  xUserId : Str
  xApiKey : Str
  body : Option Json

/-- The endpoints behind the API key. -/
inductive Endpoint where
  | createToken | createPool | buyToken | sellToken | launchToken
  deriving DecidableEq, Repr

/-- The routes. -/
inductive LauncherRoute where
  | getApiKey
  | token (mint : String)
  | endpoint (e : Endpoint)
  deriving DecidableEq, Repr

/-- The route of a method and a path.  A mint is one segment of the path. -/
def launcherRoute (method : HttpMethod) (path : String) : Option LauncherRoute :=
  let path := if path.toList.getLast? = some '/' then String.ofList path.toList.dropLast else path
  match method with
  | .get | .head =>
      let mint := slice path 7
      if startsWith (toLowerCase path) "/token/" && mint ≠ "" && !mint.toList.contains '/' then
        some (.token mint)
      else none
  | .post =>
      [("/get-api-key", LauncherRoute.getApiKey), ("/create-token", .endpoint .createToken),
        ("/create-pool", .endpoint .createPool), ("/buy-token", .endpoint .buyToken),
        ("/sell-token", .endpoint .sellToken),
        ("/launch-token", .endpoint .launchToken)].lookup (toLowerCase path)
  | _ => none

/-- The characters `encodeURIComponent` leaves alone. -/
def isUnreserved (c : Char) : Bool := c.isAlphanum || "-_.!~*'()".toList.contains c

/-- `encodeURIComponent(s)`. -/
def encodeURIComponent (s : String) : String :=
  String.ofList (s.toList.flatMap fun c =>
    if isUnreserved c then [c]
    else (Utf8.encode (String.singleton c)).flatMap fun b =>
      '%' :: (Hex.encode [b]).toList.map Char.toUpper)

/-- `const { key, .. } = req.body`. -/
def requestBody (body : Option Json) (key : String) : Prog Json :=
  let message := "Cannot destructure property '" ++ key ++ "' of 'req.body' as it is "
  match body with
  | none => typeError (message ++ "undefined.")
  | some .null => typeError (message ++ "null.")
  | some v => .ret v

theorem requestBody_cases (body : Option Json) (key : String) :
    (Json.nullish body = true ∧ ∃ e, requestBody body key = .throw e) ∨
      Json.nullish body = false ∧ ∃ v, body = some v ∧ requestBody body key = .ret v := by
  rcases body with _ | v
  · exact .inl ⟨rfl, _, rfl⟩
  · cases v with
    | null => exact .inl ⟨rfl, _, rfl⟩
    | _ => exact .inr ⟨rfl, _, rfl, rfl⟩

section

variable (env : Env)

/-! ## Middleware -/

/-- The captcha is solved, with a score that is high enough. -/
def verifyRecaptcha (token : String) : Prog Bool := do
  let json ← fetchJson ⟨"https://www.google.com/recaptcha/api/siteverify", "POST",
    .text ("secret=" ++ encodeURIComponent env.recaptchaSecret.text ++ "&response=" ++
      encodeURIComponent token)⟩
  let success ← prop (some json) "success"
  let score := if Json.nullish (json.field "score") then some 0
    else Json.toNumber (json.field "score")
  match success with
  | some (.bool true) => return score.any (1 / 2 ≤ ·)
  | _ => return false

/-- The counter of an address. -/
def captchaKey (ip : String) : String := "captcha:fail:" ++ ip

/-- How many captchas are asked for. -/
def captchasRequired (stored : Option String) : String :=
  let attempts := ((stored.map parseInt).getD none).getD 0
  if 5 < attempts then "2" else "1"

/-- `captchaMiddleware`.  `none` passes the request on. -/
def captchaMiddleware (r : LauncherRequest) : Prog (Option Answer) :=
  Prog.tryCatch (do
    let headerToken := r.xCaptchaToken.getD ""
    let stored : Option String ← tryRedis (.get (captchaKey r.ip))
    let required := captchasRequired stored
    if headerToken = "" then return some (errorAnswer 429 ("Captcha required: solve " ++ required))
    else do
      let ok ← await (verifyRecaptcha env headerToken)
      if !ok then do
        tryRedis (.incr (captchaKey r.ip))
        tryRedis (.expire (captchaKey r.ip) 3600)
        return some (errorAnswer 429 ("Captcha failed: solve " ++ required))
      else do
        tryRedis (.del (captchaKey r.ip))
        return none)
    fun _ => do
      onError env
      return some (errorAnswer 500 "Captcha internal error")

/-- The API key of a user. -/
def apiKeyKey (userId : String) : String := "apikey:" ++ userId

def generateApiKey (userId : Option Json) : Prog String := do
  let bytes : Bytes ← ask (.randomBytes 32)
  let key := Hex.encode bytes
  tryRedis (.setex (apiKeyKey (Json.text userId)) 7200 key)
  return key

def forbidden : Answer := (403, .str "Forbidden")

/-- `validateApiKey`.  The user the key belongs to. -/
def validateApiKey (r : LauncherRequest) : Prog (Except Answer String) := do
  let userId := r.xUserId.getD ""
  let key := r.xApiKey.getD ""
  if userId = "" ∨ key = "" then do
    onSpam env
    return .error forbidden
  else do
    let stored : Option String ← tryRedis (.get (apiKeyKey userId))
    if stored ≠ some key then do
      onSpam env
      return .error forbidden
    else return .ok userId

/-! ## Endpoints -/

/-- An endpoint answers for its own errors. -/
def endpoint (body : Prog Answer) : Prog Answer :=
  body.tryCatch fun err => do
    onError env
    return errorAnswer 500 err.message

/-- `POST /get-api-key`. -/
def getApiKey (r : LauncherRequest) : Prog Answer := endpoint env do
  let userId := (← requestBody r.body "userId").field "userId"
  if !Json.truthy userId then return errorAnswer 400 "userId required"
  else do
    let apiKey ← await (generateApiKey userId)
    return (200, .obj [("userId", userId.getD .null), ("apiKey", .str apiKey),
      ("expiresIn", .num 7200)])

/-- The metadata of a token. -/
def tokenmetaKey (mint : String) : String := "tokenmeta:" ++ mint

/-- `GET /token/:mint`. -/
def getToken (mint : String) : Prog Answer := endpoint env do
  let fields : List (String × String) ← tryRedis (.hgetall (tokenmetaKey mint))
  if fields = [] then return errorAnswer 404 "Not found"
  else return (200, .obj (fields.map fun kv => (kv.1, .str kv.2)))

def getUserKP (userId : String) : Prog Keypair := launchKeypair env (some userId)

/-- `POST /create-token`. -/
def createToken (body : Option Json) (userId : String) : Prog Answer := endpoint env do
  let body ← requestBody body "decimals"
  let userKP ← await (getUserKP env userId)
  let decimals := body.field "decimals"
  let mint ← attempt (ask (.createMint userKP decimals))
  let account ← attempt (ask (.getOrCreateAssociatedTokenAccount userKP mint userKP.publicKey))
  attempt (ask (.mintTo userKP mint account (mintAmount (body.field "supply") decimals)))
  let imageUrl ← await (generateImage env
    (some (.str ("Logo for token " ++ Json.text (body.field "tokenName")))))
  let website := env.metadataBaseUrl ++ "/token/" ++ mint.toBase58
  let name ← .ofExcept (hSetArg (body.field "tokenName"))
  tryRedis (.hset (tokenmetaKey mint.toBase58)
    [("name", name), ("image", imageUrl), ("website", website)])
  return (200, .obj [("mint", .str mint.toBase58), ("account", .str account.toBase58),
    ("imageUrl", .str imageUrl), ("website", .str website)])

/-- The answer to a transaction that was confirmed. -/
def signatureAnswer (signature : String) : Answer :=
  (200, .obj [("success", .bool true), ("signature", .str signature)])

/-- `POST /create-pool`. -/
def createPool (body : Option Json) (userId : String) : Prog Answer := endpoint env do
  let body ← requestBody body "tokenAMint"
  let userKP ← await (getUserKP env userId)
  let now : Nat ← ask .now
  let tokenA ← .ofExcept (newPublicKey (body.field "tokenAMint"))
  let tokenB ← .ofExcept (newPublicKey (body.field "tokenBMint"))
  let tx ← attempt (ask (.createLaunchpadPool userKP
    (poolParamsOf env tokenA tokenB (some (.num 6)) (body.field "totalSellA")
      (body.field "totalFundRaisingB") body (now / 1000))
    (platformConfigOf env 100 3000 5000 2000) env.launchpadProgram))
  let sig ← attempt (ask (.sendAndConfirmTransaction tx userKP))
  return signatureAnswer sig

/-- Trade with a pool.  The first field of the request names the pool, and `trade` makes the
transaction from it and from the token account. -/
def tradePool (body : Option Json) (userId : String)
    (trade : Keypair → Json → PublicKey → PublicKey → Prog String) : Prog Answer := endpoint env do
  let body ← requestBody body "poolId"
  let userKP ← await (getUserKP env userId)
  let pool ← .ofExcept (newPublicKey (body.field "poolId"))
  let account ← attempt (ask (.getOrCreateAssociatedTokenAccount userKP pool userKP.publicKey))
  let tx ← trade userKP body pool account
  let sig ← attempt (ask (.sendAndConfirmTransaction tx userKP))
  return signatureAnswer sig

/-- `POST /buy-token`. -/
def buyToken (body : Option Json) (userId : String) : Prog Answer :=
  tradePool env body userId fun userKP body pool account =>
    attempt (ask (.buyLaunchpadToken userKP pool (body.field "amountB") account
      env.launchpadProgram))

/-- `POST /sell-token`. -/
def sellToken (body : Option Json) (userId : String) : Prog Answer :=
  tradePool env body userId fun userKP body pool account =>
    attempt (ask (.sellLaunchpadToken userKP pool (body.field "amountA") account
      env.launchpadProgram))

/-- The answer to a launch. -/
def launchedAnswer (res : Launched) : Answer :=
  (200, .obj [("success", .bool true), ("mint", .str res.mint), ("account", .str res.account),
    ("imageUrl", .str res.imageUrl), ("website", .str res.website),
    ("poolSignature", .str res.poolSignature)])

/-- `POST /launch-token`. -/
def launchToken (body : Option Json) (userId : String) : Prog Answer := endpoint env do
  let body ← requestBody body "decimals"
  let userKP ← await (getUserKP env userId)
  let decimals := body.field "decimals"
  let supply := body.field "supply"
  let mint ← attempt (ask (.createMint userKP decimals))
  let account ← attempt (ask (.getOrCreateAssociatedTokenAccount userKP mint userKP.publicKey))
  attempt (ask (.mintTo userKP mint account (mintAmount supply decimals)))
  let imageUrl ← await (generateImage env
    (some (.str ("Logo for " ++ Json.text (body.field "tokenName")))))
  let website := env.metadataBaseUrl ++ "/token/" ++ mint.toBase58
  let name ← .ofExcept (hSetArg (body.field "tokenName"))
  tryRedis (.hset (tokenmetaKey mint.toBase58)
    [("name", name), ("image", imageUrl), ("website", website)])
  let now : Nat ← ask .now
  let tokenB ← .ofExcept (newPublicKey (body.field "tokenBMint"))
  let tx ← attempt (ask (.createLaunchpadPool userKP
    (poolParamsOf env mint tokenB decimals supply (body.field "totalRaiseB") body (now / 1000))
    (platformConfigOf env 300 6000 2500 1500) env.launchpadProgram))
  let sig ← attempt (ask (.sendAndConfirmTransaction tx userKP))
  return launchedAnswer ⟨mint.toBase58, account.toBase58, imageUrl, website, sig⟩

/-- The program of an endpoint. -/
def Endpoint.body (body : Option Json) (userId : String) : Endpoint → Prog Answer
  | .createToken => Nexus.createToken env body userId
  | .createPool => Nexus.createPool env body userId
  | .buyToken => Nexus.buyToken env body userId
  | .sellToken => Nexus.sellToken env body userId
  | .launchToken => Nexus.launchToken env body userId

/-! ## The server -/

/-- A middleware that passes a request on, and what comes after it. -/
def afterCaptcha (r : LauncherRequest) (rest : Prog Answer) : Prog Answer := do
  match ← captchaMiddleware env r with
  | some answer => return answer
  | none => rest

/-- Everything behind the API key. -/
def behindKey (r : LauncherRequest) (route : Option LauncherRoute) : Prog Answer := do
  match ← validateApiKey env r with
  | .error answer => return answer
  | .ok userId =>
      match route with
      | some (.endpoint e) => e.body env r.body userId
      | _ => return (404, .null)

/-- The answer to a request.  Errors nobody caught go to the last handler of the chain. -/
def launcherAnswer (r : LauncherRequest) : Prog Answer := endpoint env do
  -- the CORS middleware answers preflights
  if r.method = .options then return (204, .null)
  else
    match r.malformed with
    | some err => .throw err
    | none =>
        match launcherRoute r.method r.path with
        | some .getApiKey => afterCaptcha env r (getApiKey env r)
        | some (.token mint) => getToken env mint
        | route => afterCaptcha env r (behindKey env r route)

/-- The program of a request. -/
def onLauncherRequest (r : LauncherRequest) : Prog Unit := do
  let (status, body) ← launcherAnswer env r
  ask (.respond status body)

end

end Nexus
