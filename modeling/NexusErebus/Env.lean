import NexusErebus.Chain

/-!
# The surroundings of the programs

Everything the programs take as given: the variables of `process.env` they read, the
functions of libraries that are not part of the repository, and facts about the
clients they are linked with.  A library function is a field.  Where the programs
depend on a law of it, the law is a field too, so a cipher that does not decrypt what
it encrypted cannot be built.
-/

namespace Nexus

open Text (Str)

/-- AES-256-GCM under the key of the store. -/
structure AesGcm where
  /-- Encrypt under an initialisation vector.  The answer is the cipher text and the
      tag. -/
  encrypt : Bytes → Bytes → Bytes × Bytes
  /-- Decrypt, given the initialisation vector, the tag and the cipher text.  `none`
      is an exception. -/
  decrypt : Bytes → Bytes → Bytes → Option Bytes
  /-- `getAuthTag` gives sixteen bytes. -/
  tag_length : ∀ iv plain, (encrypt iv plain).2.length = 16
  /-- Decryption inverts encryption.  There is none under an empty vector. -/
  decrypt_encrypt : ∀ iv plain, iv ≠ [] →
    decrypt iv (encrypt iv plain).2 (encrypt iv plain).1 = some plain

/-- HMAC-SHA256 under the keys that HKDF derives from `JWT_BASE_SECRET`, one for each day. -/
structure Mac where
  /-- The tag of a message under the key of a day, which is given as a text. -/
  digest : String → String → Bytes
  /-- A tag is not empty. -/
  digest_ne_nil : ∀ day message, digest day message ≠ []

/-- The kinds of incident the firewall counts. -/
inductive Incident where
  | error | rpcFail | spam | critical
  deriving DecidableEq, Repr

/-- The name of an incident in the events. -/
def Incident.name : Incident → String
  | .error => "error"
  | .rpcFail => "rpcFail"
  | .spam => "spam"
  | .critical => "critical"

/-- The launch parameters that come from the environment. -/
structure LaunchDefaults where
  totalRaiseSol : Number
  cliffPeriod : Number
  unlockPeriod : Number
  startDelay : Number

/-- The environment of the processes. -/
structure Env where
  /-- The cipher of the wallet fields. -/
  aes : AesGcm
  /-- The tags of the API tokens. -/
  mac : Mac
  /-- The hash of the CSRF tokens. -/
  csrfHash : String → String
  /-- The public key of an Ed25519 private scalar. -/
  publicKeyOf : Bytes → Bytes
  /-- `getAssociatedTokenAddressSync(mint, owner, false, program)`.  `none` is the exception
      for an owner that is not a point of the curve. -/
  associatedTokenAddress : PublicKey → PublicKey → TokenProgram → Option PublicKey
  /-- `Transaction.from` reads the bytes, and the key pair is one of the signers. -/
  readsTransaction : Bytes → Keypair → Bool
  /-- The shared Redis client has a method `setEx`. -/
  hasSetEx : Bool
  /-- `AGENT_MINT`. -/
  agentMint : PublicKey
  /-- `NXR_MINT`. -/
  nxrMint : PublicKey
  /-- The public key of `DEV_WALLET_SK`. -/
  devWallet : PublicKey
  /-- `USDC_MINT`. -/
  usdcMint : Str
  /-- `+MIN_NXR_SOL`. -/
  minNxrSol : Number
  /-- `+NXR_BURN_PCT`. -/
  nxrBurnPct : Number
  /-- `AGENT_TW_HANDLE` in lower case, or the empty string. -/
  twHandle : String
  /-- `AGENT_PERSONA` with the name filled in. -/
  persona : String
  /-- `AGENT_GOALS`. -/
  goals : String
  ollamaUrl : String
  ollamaModel : String
  /-- `AGENT_GREETING` with the name filled in. -/
  greeting : String
  /-- `AGENT_GREETING_IMG`. -/
  greetingImg : Str
  /-- `AGENT_MENU_TITLE` with the name filled in. -/
  menuTitle : String
  /-- The name of the bot in lower case, once it is known. -/
  botName : Str
  imageApiRoot : String
  metadataBaseUrl : String
  /-- `RECAPTCHA_SECRET`. -/
  recaptchaSecret : Str
  /-- The public key of `PLATFORM_PRIVATE_KEY`. -/
  platformPub : PublicKey
  /-- `DEV_LAUNCHPAD_PROGRAM`. -/
  launchpadProgram : PublicKey
  /-- The curve `BONDING_CURVE` names. -/
  curveType : String
  launch : LaunchDefaults
  /-- The URL of the Telegram bot API, with the token. -/
  telegramApi : String
  /-- `USE_TELEGRAM !== 'false'`. -/
  useTelegram : Bool
  /-- `FW_MAX_HP`. -/
  maxHp : ℚ
  /-- `FW_WEIGHT_*`. -/
  weight : Incident → ℚ
  /-- `FW_HEAL_RATE`. -/
  healRate : ℚ
  /-- `FW_HEAL_INTERVAL`, in milliseconds. -/
  healInterval : ℚ
  /-- `FW_BAR_LENGTH`. -/
  barLen : ℚ := 20
  /-- `FW_AUTO_EXIT !== 'false'`. -/
  autoExit : Bool

namespace Env

variable (env : Env)

/-- The token account of an owner, under the program the repository uses. -/
def ata (mint owner : PublicKey) : Except Err PublicKey :=
  match env.associatedTokenAddress mint owner .token2022 with
  | some account => .ok account
  | none => .error (.new "")

/-- `Keypair.fromSecretKey`. -/
def keypair (secret : Bytes) : Except Err Keypair := Keypair.fromSecretKey env.publicKeyOf secret

end Env

end Nexus
