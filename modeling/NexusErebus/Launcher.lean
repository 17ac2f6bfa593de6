import NexusErebus.Commands
import NexusErebus.Firewall

/-!
# The launcher (utils-launcher.js)

A launch takes its parameters from an object that may hold anything: an answer of the
language model, or a text of the user.  `generateLaunchConfig` makes such an object.
`launchTokenInternal` mints the token, has a logo drawn, stores the metadata and creates the
pool, and stops at the first step that fails.  The steps behind the key pair are `launchWith`.

The launcher looks for the key of a user under `wallet:<handle>`, as plain JSON.
-/

namespace Nexus

open Async Text

section

variable (env : Env)

/-! ## Language model and images -/

/-- `const { key } = x`, for a value that was read. -/
def destructure (x : Json) (key : String) : Prog (Option Json) :=
  match x with
  | .null => typeError
      ("Cannot destructure property '" ++ key ++ "' of '(intermediate value)' as it is null.")
  | v => .ret (v.field key)

/-- A response with a status of success.  Any other is an incident. -/
def expectOk (api : String) (res : Response) : Prog Response :=
  if res.ok then .ret res
  else do
    onError env
    .throw (.new (api ++ " " ++ res.statusText))

/-- Ask the language model. -/
def askOllama (prompt : String) : Prog String := do
  let res ← attempt (ask (.fetch ⟨env.ollamaUrl, "POST", .text (Json.stringify (.obj
    [("model", .str env.ollamaModel), ("prompt", .str prompt), ("stream", .bool false)]))⟩))
  let res ← expectOk env "Ollama API" res
  let j ← jsonParse (some res.body)
  let response ← destructure j "response"
  trimmed response

def generateImageDescription (tokenName : Option Json) : Prog String :=
  askOllama env ("You are a creative branding assistant.\n" ++
    "Provide a vivid, concise description for a meme character to represent the meme token " ++
    "named \"" ++ Json.text tokenName ++ "\".\n" ++
    "Respond with nothing but the plain text description.")

def generateImage (prompt : Option Json) : Prog String := do
  let res ← attempt (ask (.fetch ⟨env.imageApiRoot ++ "/obtener_imagen", "POST",
    .form [("texto", Json.text prompt)]⟩))
  let res ← expectOk env "Image API" res
  let filename := (split "/" res.body).getLast?.getD ""
  return env.imageApiRoot ++ "/images/" ++ filename

/-! ## Launch parameters -/

/-- Leave out the commas in front of a bracket, and the spaces between.  The counter is how
many characters are still to be left out. -/
def closeUp (close : Char) : Nat → List Char → List Char
  | _, [] => []
  | n + 1, _ :: cs => closeUp close n cs
  | 0, c :: cs =>
      if c = ',' ∧ (cs.dropWhile isSpace).head? = some close then
        close :: closeUp close ((cs.takeWhile isSpace).length + 1) cs
      else c :: closeUp close 0 cs

/-- The text from the first opening brace to the last closing one, without trailing commas. -/
def jsonText (raw : String) : Option String :=
  let cs := raw.toList
  match cs.idxOf? '{', cs.reverse.idxOf? '}' with
  | some start, some stop =>
      some (String.ofList (closeUp ']' 0 (closeUp '}' 0 ((cs.take (cs.length - stop)).drop start))))
  | _, _ => none

/-- The properties that are not `undefined`. -/
def definedProps (props : List (String × Option Json)) : List (String × Json) :=
  props.filterMap fun kv => kv.2.map (kv.1, ·)

/-- The launch parameters: what the language model says about the token, and the rest from
the environment. -/
def generateLaunchConfig : Prog Json := do
  let raw ← askOllama env ("You are a Meme Token Launchpad configuration generator.\n" ++
    "You only fundraise in SOL, never USDC.\n" ++
    "Generate a fun meme token viral, output exactly one JSON object with these fields:\n" ++
    "  - decimals (integer always 6)\n" ++ "  - supply (integer)\n" ++
    "  - tokenName (string)\n" ++ "Respond with nothing but the raw JSON object.")
  match jsonText raw with
  | none => .throw (.new ("AI did not return a JSON object:\n" ++ raw))
  | some text =>
      match parseJson (some text) with
      | .error e => .throw (.new ("Failed to parse AI response: " ++ e.message ++ "\n" ++ text))
      | .ok aiCfg => do
          let previewPair : Keypair ← ask (.generate .mint)
          let decimals ← prop (some aiCfg) "decimals"
          let supply ← prop (some aiCfg) "supply"
          let tokenName ← prop (some aiCfg) "tokenName"
          return .obj (definedProps
            [("decimals", decimals), ("supply", supply), ("tokenName", tokenName),
              ("tokenMint", some (.str previewPair.address)), ("tokenBMint", some (.str solMint)),
              ("totalRaiseB", some (numJson env.launch.totalRaiseSol)),
              ("cliffPeriod", some (numJson env.launch.cliffPeriod)),
              ("unlockPeriod", some (numJson env.launch.unlockPeriod)),
              ("startDelay", some (numJson env.launch.startDelay))])

/-! ## Launch -/

/-- The key of a user in the store of the launcher. -/
def launchWalletKey (userId : Str) : String := "wallet:" ++ userId.text

/-- `Keypair.fromSecretKey(Uint8Array.from(JSON.parse(s)))`. -/
def readKeypair (s : Str) : Except Err Keypair :=
  (parseJson s).bind fun v => (uint8ArrayFrom v).bind env.keypair

/-- The key pair of a user. -/
def launchKeypair (userId : Str) : Prog Keypair := do
  let walletJson : Option String ← tryRedis (.get (launchWalletKey userId))
  if walletJson.getD "" = "" then do
    onError env
    .throw (.new "Wallet not found")
  else .ofExcept (readKeypair env walletJson)

/-- `10 ** x`, for an integer.  A fractional power of ten is not a rational number. -/
def tenTo : Number → Number
  | some q => if q.den = 1 then some (Number.pow10 q.num) else none
  | none => none

/-- `supply * 10 ** decimals`. -/
def mintAmount (supply decimals : Option Json) : Number :=
  ((Json.toNumber supply).held.mul (tenTo (Json.toNumber decimals)).held).held

/-- A value, as the client sends it in the fields of `hSet`. -/
def hSetArg : Option Json → Except Err String
  | some (.str s) => .ok s
  | some (.num q) => .ok (Number.textOf q)
  | none => .error ⟨.typeError,
      "\"arguments[3]\" must be of type \"string | Buffer\", got undefined instead."⟩
  | some (.bool _) => .error ⟨.typeError,
      "\"arguments[3]\" must be of type \"string | Buffer\", got boolean instead."⟩
  | some _ => .error ⟨.typeError,
      "\"arguments[3]\" must be of type \"string | Buffer\", got object instead."⟩

/-- `new PublicKey(x)`. -/
def newPublicKey : Option Json → Except Err PublicKey
  | some (.str s) =>
      match Base58.decode s with
      | some bs => if bs.length = 32 then .ok ⟨bs⟩ else .error (.new "Invalid public key input")
      | none => .error (.new "Non-base58 character")
  | none => .error ⟨.typeError, "Cannot read properties of undefined (reading '_bn')"⟩
  | some .null => .error ⟨.typeError, "Cannot read properties of null (reading '_bn')"⟩
  | some _ => .error (.new "Invalid public key input")

/-- `n + x`, where a text is appended. -/
def plusJson (n : ℚ) (x : Option Json) : Json :=
  match x with
  | some (.str s) => .str (Number.textOf n ++ s)
  | some (.arr xs) => .str (Number.textOf n ++ Json.text (some (.arr xs)))
  | some (.obj kvs) => .str (Number.textOf n ++ Json.text (some (.obj kvs)))
  | x => numJson (Number.add (some n) (Json.toNumber x))

/-- The parameters of a pool, at a time in seconds. -/
def poolParamsOf (tokenA tokenB : PublicKey) (decimals totalSellA totalFundRaisingB : Option Json)
    (params : Json) (now : Nat) : List (String × Option Json) :=
  [("tokenAMint", some (.str tokenA.toBase58)), ("tokenBMint", some (.str tokenB.toBase58)),
    ("decimals", decimals), ("supply", params.field "supply"),
    ("totalSellA", totalSellA), ("totalFundRaisingB", totalFundRaisingB),
    ("totalLockedAmount", params.field "supply"), ("cliffPeriod", params.field "cliffPeriod"),
    ("unlockPeriod", params.field "unlockPeriod"),
    ("startTime", some (plusJson now (params.field "startDelay"))),
    ("platformID", some (.str env.platformPub.toBase58)), ("platformFeeRate", some (.num 300)),
    ("migrateType", some (.str "cpmm")), ("curveType", some (.str env.curveType))]

/-- The parameters of the pool of a launch. -/
def poolParams (params : Json) (mint tokenB : PublicKey) (now : Nat) :
    List (String × Option Json) :=
  poolParamsOf env mint tokenB (params.field "decimals") (params.field "supply")
    (params.field "totalRaiseB") params now

/-- `new PlatformConfig(..)`. -/
def platformConfigOf (feeRate creatorScale platformScale burnScale : ℚ) : List (String × Json) :=
  [("owner", .str env.platformPub.toBase58), ("feeRate", .num feeRate),
    ("creatorScale", .num creatorScale), ("platformScale", .num platformScale),
    ("burnScale", .num burnScale)]

/-- The configuration of the platform for a launch. -/
def platformConfig : List (String × Json) := platformConfigOf env 300 6000 2500 1500

/-- What a launch returns. -/
structure Launched where
  mint : String
  account : String
  imageUrl : String
  website : String
  poolSignature : String

/-- Mint the token, have the logo drawn, store the metadata and create the pool. -/
def launchWith (userKP : Keypair) (params : Json) (logo : Prog String) : Prog Launched := do
  let decimals := params.field "decimals"
  let mint ← attempt (ask (.createMint userKP decimals))
  let account ← attempt (ask (.getOrCreateAssociatedTokenAccount userKP mint userKP.publicKey))
  attempt (ask (.mintTo userKP mint account (mintAmount (params.field "supply") decimals)))
  let imageUrl ← logo
  let website := env.metadataBaseUrl ++ "/token/" ++ mint.toBase58
  let name ← .ofExcept (hSetArg (params.field "tokenName"))
  tryRedis (.hset ("tokenmeta:" ++ mint.toBase58)
    [("name", name), ("image", imageUrl), ("website", website)])
  let now : Nat ← ask .now
  let tokenB ← .ofExcept (newPublicKey (params.field "tokenBMint"))
  let tx ← attempt (ask (.createLaunchpadPool userKP (poolParams env params mint tokenB (now / 1000))
    (platformConfig env) env.launchpadProgram))
  let poolSignature ← attempt (ask (.sendAndConfirmTransaction tx userKP))
  return ⟨mint.toBase58, account.toBase58, imageUrl, website, poolSignature⟩

def launchTokenInternal (params : Json) (userId : Str) : Prog Launched := do
  let userKP ← launchKeypair env userId
  let _ ← prop (some params) "decimals"
  launchWith env userKP params do
    let logoDesc ← await (generateImageDescription env (params.field "tokenName"))
    await (generateImage env (some (.str logoDesc)))

end

/-! ## Contracts -/

/-- The commands beside the steps of a launch: requests to the services, and incidents. -/
def Cmd.aside : Cmd → Prop
  | .tick | .fetch _ => True
  | c => c.firewall = true

/-- The commands of a launch that ask for something: a service, the key of a user.  An incident
is one too. -/
def Cmd.asks (h : Str) : Cmd → Prop
  | .tick | .fetch _ => True
  | .tryRedis c => c = .get (launchWalletKey h)
  | c => c.firewall = true

/-- The commands of a launch. -/
def Cmd.launches (h : Str) : Cmd → Prop
  | .createMint _ _ | .getOrCreateAssociatedTokenAccount _ _ _ | .mintTo _ _ _ _
  | .createLaunchpadPool _ _ _ _ | .sendAndConfirmTransaction _ _ => True
  | .tryRedis (.hset key fields) =>
      startsWith key "tokenmeta:" = true ∧ ∀ f ∈ fields, f.1 ≠ "wallet"
  | c => c.asks h

section

variable {env : Env} {h : Str} {pre : Cmd → Prop}

theorem issues_trimmed (x : Option Json) : (trimmed x).Issues pre := by
  unfold trimmed
  split
  · exact .ret _
  · exact issues_typeError _
  · exact issues_typeError _
  · exact issues_typeError _

theorem issues_destructure (x : Json) (key : String) : (destructure x key).Issues pre := by
  unfold destructure
  split
  · exact issues_typeError _
  · exact .ret _

theorem aside_firewall {c : Cmd} (hc : c.firewall = true) : c.aside := by
  cases c with
  | tick | fetch => cases hc
  | _ => exact hc

theorem asks_of_aside {c : Cmd} (hc : c.aside) : c.asks h := by
  cases c with
  | tryRedis => cases hc
  | _ => exact hc

section

variable (hpre : ∀ c : Cmd, c.aside → pre c)

include hpre

theorem issues_incident : (onError env).Issues pre :=
  issues_onError fun c hc => hpre c (aside_firewall hc)

theorem issues_expectOk (api : String) (res : Response) : (expectOk env api res).Issues pre := by
  unfold expectOk
  split
  · exact .ret _
  · exact Prog.issues_bind (issues_incident hpre) fun _ => .throw _

theorem issues_askOllama (prompt : String) : (askOllama env prompt).Issues pre := by
  refine Prog.issues_bind (issues_attempt (issues_ask (hpre _ trivial))) fun res => ?_
  refine Prog.issues_bind (issues_expectOk hpre _ _) fun res => ?_
  refine Prog.issues_bind (issues_jsonParse _) fun j => ?_
  exact Prog.issues_bind (issues_destructure _ _) fun response => issues_trimmed response

theorem issues_generateImage (prompt : Option Json) : (generateImage env prompt).Issues pre := by
  refine Prog.issues_bind (issues_attempt (issues_ask (hpre _ trivial))) fun res => ?_
  exact Prog.issues_bind (issues_expectOk hpre _ _) fun res => .ret _

theorem issues_generateLaunchConfig (hmint : pre (.generate .mint)) :
    (generateLaunchConfig env).Issues pre := by
  refine Prog.issues_bind (issues_askOllama hpre _) fun raw => ?_
  split
  · exact .throw _
  · split
    · exact .throw _
    · refine Prog.issues_bind (issues_ask hmint) fun kp => ?_
      refine Prog.issues_bind (issues_prop _ _) fun decimals => ?_
      refine Prog.issues_bind (issues_prop _ _) fun supply => ?_
      exact Prog.issues_bind (issues_prop _ _) fun tokenName => .ret _

end

theorem issues_launchKeypair (hpre : ∀ c : Cmd, c.asks h → pre c) :
    (launchKeypair env h).Issues pre := by
  refine Prog.issues_bind (issues_attempt (issues_ask (hpre _ rfl))) fun walletJson => ?_
  split
  · exact Prog.issues_bind (issues_incident fun c hc => hpre c (asks_of_aside hc)) fun _ =>
      .throw _
  · exact Prog.issues_ofExcept _

theorem launches_of_asks {c : Cmd} (hc : c.asks h) : c.launches h := by
  cases c with
  | tryRedis c => cases hc; exact rfl
  | createMint | getOrCreateAssociatedTokenAccount | mintTo | createLaunchpadPool
  | sendAndConfirmTransaction => cases hc
  | _ => exact hc

theorem issues_launchTokenInternal (hpre : ∀ c : Cmd, c.launches h → pre c) (params : Json) :
    (launchTokenInternal env params h).Issues pre := by
  have hasks : ∀ c : Cmd, c.asks h → pre c := fun c hc => hpre c (launches_of_asks hc)
  have haside : ∀ c : Cmd, c.aside → pre c := fun c hc => hasks c (asks_of_aside hc)
  refine Prog.issues_bind (issues_launchKeypair hasks) fun userKP => ?_
  refine Prog.issues_bind (issues_prop _ _) fun _ => ?_
  refine Prog.issues_bind (issues_attempt (issues_ask (hpre _ trivial))) fun mint => ?_
  refine Prog.issues_bind (issues_attempt (issues_ask (hpre _ trivial))) fun account => ?_
  refine Prog.issues_bind (issues_attempt (issues_ask (hpre _ trivial))) fun _ => ?_
  refine Prog.issues_bind ?_ fun imageUrl => ?_
  · exact Prog.issues_bind (issues_await (hpre _ trivial) (issues_askOllama haside _)) fun logoDesc =>
      issues_await (hpre _ trivial) (issues_generateImage haside _)
  refine Prog.issues_bind (Prog.issues_ofExcept _) fun name => ?_
  refine Prog.issues_bind (issues_attempt (issues_ask (hpre _ ⟨?_, ?_⟩))) fun _ => ?_
  · simp [startsWith]
  · simp
  refine Prog.issues_bind (issues_ask (hpre _ rfl)) fun now => ?_
  refine Prog.issues_bind (Prog.issues_ofExcept _) fun tokenB => ?_
  refine Prog.issues_bind (issues_attempt (issues_ask (hpre _ trivial))) fun tx => ?_
  exact Prog.issues_bind (issues_attempt (issues_ask (hpre _ trivial))) fun _ => .ret _

end

end Nexus
