import NexusErebus.Firewall
import NexusErebus.Retry

/-!
# Quotes, swaps and transfers (utils-solana.js, utils-token.js)

`quoteSOLto` asks Jupiter for a route from SOL to a mint and caches it in Redis.
`executeSwap` has Jupiter build the transaction of a route, signs it and submits it.
The whole sequence is retried.  `transfer` and `transferToken` build and sign a token
transfer once and retry only its submission.  `burnAndDev` splits an amount between
the burn wallet and the developers.

The pieces of a function that compute without commands are definitions of their own:
`swapTransaction` is what becomes of the answer of the swap endpoint.  What the two
transfer functions have in common is `signTransfer`.
-/

namespace Nexus

open Async Text

/-! ## Constants -/

def solMint : String := "So11111111111111111111111111111111111111112"

def lamportsPerSol : ℚ := 1000000000

/-- The system program, whose bytes are all zero. -/
def burnWallet : PublicKey := ⟨List.replicate 32 0⟩

def jupQ : String := "https://quote-api.jup.ag/v6/quote"

def jupS : String := "https://quote-api.jup.ag/v6/swap"

/-- Seconds. -/
def cacheTtl : Nat := 60

/-- Seconds. -/
def decimalsTtl : Nat := 300

/-! ## Decimals -/

/-- `info.value.data.parsed.info.decimals`. -/
def parsedDecimals : Option Number → Prog Number
  | some d => .ret d
  | none => typeError "Cannot read properties of null (reading 'data')"

/-- A cached number counts if it is not zero. -/
def cachedDecimals : Option Number → Option Number
  | some (some q) => if q = 0 then none else some (some q)
  | _ => none

def decimalsOf (mint : PublicKey) : Prog Number := do
  let key := mint.toBase58
  let cached : Option Number ← ask (.decimalsGet key)
  match cachedDecimals cached with
  | some d => return d
  | none => do
      let info ← attempt (ask (.getParsedAccountInfo mint))
      let d ← parsedDecimals info
      ask (.decimalsSet key d)
      return d

section

variable (env : Env)

/-- `redis.setEx`, if the client has it. -/
def setEx (key : String) (seconds : Nat) (value : String) : Prog Unit :=
  if env.hasSetEx then redis (.setex key seconds value)
  else typeError "redis.setEx is not a function"

/-! ## Quotes -/

def quoteKey (mint : Str) (lamports : Number) : String :=
  "quote:" ++ mint.text ++ ":" ++ lamports.text

def quoteUrl (mint : Str) (lamports : Number) : String :=
  jupQ ++ "?inputMint=" ++ solMint ++ "&outputMint=" ++ mint.text ++ "&amount=" ++
    lamports.text ++ "&slippageBps=100"

/-- `x?.[0]`. -/
def first : Option Json → Option Json
  | some (.arr xs) => xs.head?
  | some (.str s) => s.toList.head?.map fun c => .str (String.singleton c)
  | some v => v.field "0"
  | none => none

/-- `j?.data?.[0] || null`, where `j` is `null` if the request failed. -/
def quoteResult (j : Except Err Json) : Json :=
  match first ((j.toOption).bind (Json.field "data")) with
  | some v => if Json.truthy (some v) then v else .null
  | none => .null

/-- Ask the service for a quote. -/
def fetchQuote (mint : Str) (lamports : Number) : Prog Json := do
  let j ← (fetchJson ⟨quoteUrl mint lamports, "GET", .none⟩).outcome
  let result := quoteResult j
  if Json.truthy (some result) then do
    setEx env (quoteKey mint lamports) cacheTtl (Json.stringify result)
    return result
  else return .null

def quoteSOLto (mint : Str) (lamports : Number) : Prog Json := do
  let cached : Option String ← redis (.get (quoteKey mint lamports))
  if cached.getD "" ≠ "" then jsonParse cached
  else fetchQuote env mint lamports

/-! ## Failures -/

/-- The handler of a call that failed after all its retries. -/
def rpcFailed {α : Type} (event : List (String × Json)) (e : Err) : Prog α := do
  onRpcFail env
  redis (.publish "nexus.events" (Json.stringify (.obj (event ++ [("error", .str e.message)]))))
  throw e

/-! ## Swaps -/

def swapRequest (route : Json) (kp : Keypair) : Request :=
  ⟨jupS, "POST", .text (Json.stringify (.obj
    [("route", route), ("userPublicKey", .str kp.address), ("wrapAndUnwrapSol", .bool true)]))⟩

/-- `Buffer.from(x, 'base64')`. -/
def bufferFrom : Option Json → Except Err Bytes
  | some (.str s) => .ok (Base64.decode s)
  | some (.arr xs) => .ok (xs.map fun x => (Json.toNumber (some x)).toUint8)
  | _ => .error ⟨.typeError, "The first argument must be of type string or an instance of Buffer"⟩

/-- The signed transaction made of the answer of the swap endpoint. -/
def swapTransaction (kp : Keypair) (r : Json) : Except Err SignedTx :=
  match r with
  | .null => .error ⟨.typeError, "Cannot read properties of null (reading 'swapTransaction')"⟩
  | r =>
      match bufferFrom (r.field "swapTransaction") with
      | .error e => .error e
      | .ok bytes =>
          if env.readsTransaction bytes kp then .ok ⟨.wire bytes, kp⟩
          else .error (.new "unknown signer")

/-- One attempt: fetch the transaction, sign it, submit it. -/
def swapAttempt (route : Json) (kp : Keypair) : Prog Unit := do
  let r ← fetchJson (swapRequest route kp)
  let tx ← .ofExcept (swapTransaction env kp r)
  let _ ← attempt (ask (.sendAndConfirmRawTransaction tx true))
  return ()

def executeSwap (route : Json) (kp : Keypair) : Prog Unit :=
  if Json.truthy (some route) then
    await ((withRetry (swapAttempt env route kp) .defaults).tryCatch
      (rpcFailed env [("event", .str "swap_failure"), ("wallet", .str kp.address)]))
  else return ()

/-! ## Transfers -/

/-- `createTransferCheckedInstruction`, which reads the amount as a big integer. -/
def transferInstruction (source mint destination owner : PublicKey) (amount decimals : Number) :
    Except Err TransferChecked :=
  match amount with
  | none => .error ⟨.rangeError, "The number NaN cannot be converted to a BigInt"⟩
  | some q =>
      if q.den = 1 then .ok ⟨source, mint, destination, owner, q.num, decimals⟩
      else .error ⟨.rangeError, "The number " ++ Number.textOf q ++
        " cannot be converted to a BigInt because it is not an integer"⟩

/-- A signed transaction with one transfer. -/
def transferTx (ix : TransferChecked) (fromKp : Keypair) (blockhash : String) : SignedTx :=
  ⟨.transfer ix fromKp.publicKey blockhash, fromKp⟩

/-- Build and sign a transfer. -/
def signTransfer (source mint destination : PublicKey) (fromKp : Keypair) (amount decimals : Number) :
    Prog SignedTx := do
  let ix ← .ofExcept
    (transferInstruction source mint destination fromKp.publicKey amount decimals)
  let blockhash ← attempt (ask .getLatestBlockhash)
  return transferTx ix fromKp blockhash

/-- Submit a signed transfer. -/
def submit (tx : SignedTx) : Prog String :=
  attempt (ask (.sendAndConfirmRawTransaction tx false))

def transfer (mint : PublicKey) (fromKp : Keypair) (dest : PublicKey) (lamports : Number) :
    Prog Unit := do
  let srcAta ← .ofExcept (env.ata mint fromKp.publicKey)
  let decimals ← await (decimalsOf mint)
  let tx ← signTransfer srcAta mint dest fromKp lamports decimals
  let _ ← await ((withRetry (submit tx) .defaults).tryCatch
    (rpcFailed env [("event", .str "transfer_failure"),
      ("from", .str fromKp.address), ("to", .str dest.toBase58)]))
  return ()

/-- The part of an amount that is burnt. -/
def burnShare (lamports pctBurn : Number) : Number := (lamports.mul pctBurn).floor

/-- The part of an amount that goes to the developers. -/
def devShare (lamports pctBurn : Number) : Number := lamports.sub (burnShare lamports pctBurn)

def burnAndDev (fromKp : Keypair) (lamports pctBurn : Number) : Prog Unit := do
  await (transfer env env.nxrMint fromKp burnWallet (burnShare lamports pctBurn))
  await (transfer env env.nxrMint fromKp env.devWallet (devShare lamports pctBurn))

/-! ## Balances -/

/-- `data.readBigUInt64LE(64)`. -/
def readBigUInt64LE (data : Bytes) : Except Err Nat :=
  if 72 ≤ data.length then
    .ok (((data.drop 64).take 8).foldr (fun b n => b.toNat + 256 * n) 0)
  else .error ⟨.rangeError, "Attempt to access memory outside buffer bounds"⟩

/-- The SOL balance and the raw amount of agent tokens. -/
def refreshBalances (owner : PublicKey) : Prog (Number × Number) := do
  let lamports ← attempt (ask (.getBalance owner))
  let sol : Number := some ((lamports : ℚ) / lamportsPerSol)
  let ata ← .ofExcept (env.ata env.agentMint owner)
  let info ← attempt (ask (.getAccountInfo ata))
  match info with
  | none => return (sol, some 0)
  | some data => do
      let agentLamports ← .ofExcept (readBigUInt64LE data)
      return (sol, Number.ofBigInt agentLamports)

/-! ## Token helpers -/

def decimalsCacheKey (mint : PublicKey) : String := "decimals:" ++ mint.toBase58

/-- `parseInt(s, 10)`. -/
def parseInt (s : String) : Number :=
  match (s.toList.dropWhile isSpace) with
  | '-' :: cs => (digits cs).map fun n => -n
  | '+' :: cs => digits cs
  | cs => digits cs
where
  digits (cs : List Char) : Number :=
    let ds := cs.takeWhile Char.isDigit
    if ds = [] then none else some (Number.natOf ds)

def getDecimals (mint : PublicKey) : Prog Number := do
  let key := decimalsCacheKey mint
  let cached : Option String ← redis (.get key)
  if cached.getD "" ≠ "" then return parseInt (cached.getD "")
  else do
    let info ← attempt (ask (.getParsedAccountInfo mint))
    let decimals ← parsedDecimals info
    setEx env key decimalsTtl decimals.text
    return decimals

/-- `Math.floor(amount * 10 ** decimals)`. -/
def rawAmount (amount decimals : Number) : Number :=
  (amount.mul (decimals.map fun d => Number.pow10 d.floor)).floor

def transferToken (mint : PublicKey) (fromKp : Keypair) (toPubkey : PublicKey) (amount : Number) :
    Prog String := do
  let fromATA ← .ofExcept (env.ata mint fromKp.publicKey)
  let toATA ← .ofExcept (env.ata mint toPubkey)
  let decimals ← await (getDecimals env mint)
  let raw := rawAmount amount decimals
  let tx ← signTransfer fromATA mint toATA fromKp raw decimals
  await (withRetry (submit tx) .defaults)

end

/-! ## Contracts -/

/-- The commands behind the helpers above, other than requests, submissions and the cache of
quotes. -/
def Cmd.plumbing : Cmd → Bool
  | .tick | .sleep _ | .decimalsGet _ | .decimalsSet _ _ | .getParsedAccountInfo _
  | .getLatestBlockhash => true
  | c => c.firewall

section

variable {env : Env} {pre : Cmd → Prop}

theorem issues_rpcFailed {α : Type} (hpre : ∀ c : Cmd, c.plumbing = true → pre c)
    (event : List (String × Json)) (e : Err) : (rpcFailed env event e : Prog α).Issues pre := by
  have hfire : ∀ c : Cmd, c.firewall = true → pre c := by
    intro c hc
    refine hpre c ?_
    cases c with
    | redis r => exact hc
    | _ => first | rfl | cases hc
  exact Prog.issues_bind (issues_onRpcFail hfire) fun _ =>
    Prog.issues_bind (issues_redis (hpre _ rfl)) fun _ => .throw e

theorem issues_setEx {key : String} {seconds : Nat} {value : String}
    (h : env.hasSetEx = true → pre (.redis (.setex key seconds value))) :
    (setEx env key seconds value).Issues pre := by
  unfold setEx
  split
  next hset => exact issues_redis (h hset)
  next => exact issues_typeError _

theorem issues_quoteSOLto {mint : Str} {lamports : Number}
    (hget : pre (.redis (.get (quoteKey mint lamports))))
    (hfetch : pre (.fetch ⟨quoteUrl mint lamports, "GET", .none⟩))
    (hset : env.hasSetEx = true →
      ∀ v, pre (.redis (.setex (quoteKey mint lamports) cacheTtl v))) :
    (quoteSOLto env mint lamports).Issues pre := by
  refine Prog.issues_bind (issues_redis hget) fun cached => ?_
  split
  · exact issues_jsonParse _
  · unfold fetchQuote
    refine Prog.issues_bind (Prog.issues_outcome (issues_fetchJson hfetch)) fun j => ?_
    dsimp only
    split
    · exact Prog.issues_bind (issues_setEx fun h => hset h _) fun _ => .ret _
    · exact .ret _

theorem issues_executeSwap {route : Json} {kp : Keypair}
    (hpre : ∀ c : Cmd, c.plumbing = true → pre c)
    (hsend : ∀ tx, pre (.sendAndConfirmRawTransaction tx true))
    (hfetch : Json.truthy (some route) = true → pre (.fetch (swapRequest route kp))) :
    (executeSwap env route kp).Issues pre := by
  unfold executeSwap
  split
  next h =>
    refine issues_await (hpre _ rfl) (Prog.issues_tryCatch ?_ fun e => issues_rpcFailed hpre _ e)
    refine issues_withRetry (issues_await (hpre _ rfl) ?_) fun _ => hpre _ rfl
    refine Prog.issues_bind (issues_fetchJson (hfetch h)) fun r => ?_
    refine Prog.issues_bind (Prog.issues_ofExcept _) fun tx => ?_
    exact Prog.issues_bind (issues_attempt (issues_ask (hsend tx))) fun _ => .ret ()
  next => exact .ret ()

theorem issues_refreshBalances (owner : PublicKey) (hbalance : pre (.getBalance owner))
    (hinfo : ∀ ata, pre (.getAccountInfo ata)) : (refreshBalances env owner).Issues pre := by
  refine Prog.issues_bind (issues_attempt (issues_ask hbalance)) fun lamports => ?_
  refine Prog.issues_bind (Prog.issues_ofExcept _) fun ata => ?_
  refine Prog.issues_bind (issues_attempt (issues_ask (hinfo ata))) fun info => ?_
  cases info with
  | none => exact .ret _
  | some data => exact Prog.issues_bind (Prog.issues_ofExcept _) fun _ => .ret _

theorem issues_parsedDecimals (info : Option Number) : (parsedDecimals info).Issues pre := by
  cases info with
  | some d => exact .ret d
  | none => exact issues_typeError _

theorem issues_decimalsOf (hpre : ∀ c : Cmd, c.plumbing = true → pre c) (mint : PublicKey) :
    (decimalsOf mint).Issues pre := by
  refine Prog.issues_bind (issues_ask (hpre _ rfl)) fun cached => ?_
  cases cachedDecimals cached with
  | some d => exact .ret d
  | none =>
      refine Prog.issues_bind (issues_attempt (issues_ask (hpre _ rfl))) fun info => ?_
      exact Prog.issues_bind (issues_parsedDecimals info) fun d =>
        .call (hpre _ rfl) fun _ => .ret d

theorem issues_signTransfer (hpre : ∀ c : Cmd, c.plumbing = true → pre c)
    (source mint destination : PublicKey) (fromKp : Keypair) (amount decimals : Number) :
    (signTransfer source mint destination fromKp amount decimals).Issues pre :=
  Prog.issues_bind (Prog.issues_ofExcept _) fun _ =>
    Prog.issues_bind (issues_attempt (issues_ask (hpre _ rfl))) fun _ => .ret _

theorem issues_transfer (hpre : ∀ c : Cmd, c.plumbing = true → pre c)
    (hsend : ∀ tx, pre (.sendAndConfirmRawTransaction tx false)) (mint : PublicKey)
    (fromKp : Keypair) (dest : PublicKey) (lamports : Number) :
    (transfer env mint fromKp dest lamports).Issues pre := by
  refine Prog.issues_bind (Prog.issues_ofExcept _) fun source => ?_
  refine Prog.issues_bind (issues_await (hpre _ rfl) (issues_decimalsOf hpre mint)) fun d => ?_
  refine Prog.issues_bind (issues_signTransfer hpre source mint dest fromKp lamports d) fun tx => ?_
  refine Prog.issues_bind (issues_await (hpre _ rfl) (Prog.issues_tryCatch ?_ fun e =>
    issues_rpcFailed hpre _ e)) fun _ => .ret ()
  exact issues_withRetry (issues_await (hpre _ rfl) (issues_attempt (issues_ask (hsend tx))))
    fun _ => hpre _ rfl

theorem issues_burnAndDev (hpre : ∀ c : Cmd, c.plumbing = true → pre c)
    (hsend : ∀ tx, pre (.sendAndConfirmRawTransaction tx false)) (fromKp : Keypair)
    (lamports pctBurn : Number) : (burnAndDev env fromKp lamports pctBurn).Issues pre :=
  Prog.issues_bind (issues_await (hpre _ rfl) (issues_transfer hpre hsend _ _ _ _)) fun _ =>
    issues_await (hpre _ rfl) (issues_transfer hpre hsend _ _ _ _)

end

end Nexus
