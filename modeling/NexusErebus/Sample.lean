import NexusErebus.Runtime

/-!
# A sample deployment

One environment in which the programs can be run on concrete inputs.  The variables are
those of `.env.example`.  The library functions are tables: they answer as the libraries do
on the keys and texts below, and stand in for them elsewhere.
-/

namespace Nexus.Sample

/-! ## Keys -/

/-- The key pair of a user. -/
def alice : Keypair :=
  let seed :=
    [157, 97, 177, 157, 239, 253, 90, 96, 186, 132, 74, 244, 146, 236, 44, 196, 68, 73, 197, 105,
     123, 50, 105, 25, 112, 59, 172, 3, 28, 174, 127, 96]
  let publicKey :=
    [215, 90, 152, 1, 130, 177, 10, 183, 213, 75, 254, 211, 201, 100, 7, 58, 14, 225, 114, 243, 218,
     166, 35, 37, 175, 2, 26, 104, 247, 7, 81, 26]
  ⟨⟨publicKey⟩, seed ++ publicKey⟩

/-- The key pair of another user. -/
def bob : Keypair :=
  let seed :=
    [76, 205, 8, 155, 40, 255, 150, 218, 157, 182, 195, 70, 236, 17, 78, 15, 91, 138, 49, 159, 53,
     171, 166, 36, 218, 140, 246, 237, 79, 184, 166, 251]
  let publicKey :=
    [61, 64, 23, 195, 232, 67, 137, 90, 146, 183, 10, 167, 77, 27, 126, 188, 156, 152, 44, 207, 46,
     196, 150, 140, 192, 205, 85, 241, 42, 244, 102, 12]
  ⟨⟨publicKey⟩, seed ++ publicKey⟩

/-- The key pair behind the mint of the agent token. -/
def mint : Keypair :=
  let seed :=
    [197, 170, 141, 244, 63, 159, 131, 123, 237, 183, 68, 47, 49, 220, 183, 177, 102, 211, 133, 53,
     7, 111, 9, 75, 133, 206, 58, 46, 11, 68, 88, 247]
  let publicKey :=
    [252, 81, 205, 142, 98, 24, 161, 163, 141, 164, 126, 208, 2, 48, 240, 88, 8, 22, 237, 19, 186,
     51, 3, 172, 93, 235, 145, 21, 72, 144, 128, 37]
  ⟨⟨publicKey⟩, seed ++ publicKey⟩

/-- The public keys of the seeds above. -/
def publicKeyOf (seed : Bytes) : Bytes :=
  match [alice, bob, mint].find? fun kp => kp.secretKey.take 32 = seed with
  | some kp => kp.publicKey.bytes
  | none => seed

/-! ## Token accounts -/

/-- `NXR_MINT`. -/
def nxrMint : PublicKey :=
  ⟨[105, 246, 118, 216, 85, 105, 45, 159, 52, 154, 13, 189, 100, 6, 55, 234, 91, 113, 76, 88, 149,
    5, 188, 216, 234, 26, 135, 161, 118, 21, 67, 111]⟩

/-- Owners, mints and the token accounts derived from them. -/
def tokenAccounts : List ((PublicKey × PublicKey) × PublicKey) :=
  [((nxrMint, alice.publicKey),
    ⟨[216, 9, 162, 236, 18, 158, 104, 81, 237, 239, 237, 247, 120, 225, 39, 23, 248, 39, 191, 132,
      247, 32, 235, 199, 194, 29, 123, 219, 54, 136, 59, 52]⟩),
    ((nxrMint, bob.publicKey),
    ⟨[189, 39, 80, 237, 145, 73, 138, 129, 48, 194, 103, 100, 159, 216, 127, 207, 5, 152, 65, 39,
      107, 248, 26, 10, 171, 35, 68, 168, 9, 109, 68, 219]⟩),
    ((nxrMint, ⟨List.replicate 32 0⟩),
    ⟨[164, 5, 179, 43, 168, 52, 209, 84, 215, 49, 241, 107, 121, 23, 149, 254, 154, 167, 15, 54,
      171, 143, 58, 183, 105, 73, 250, 57, 237, 197, 30, 61]⟩),
    ((mint.publicKey, alice.publicKey),
    ⟨[177, 90, 220, 82, 210, 99, 63, 149, 233, 86, 109, 236, 209, 65, 220, 191, 212, 210, 108, 245,
      91, 160, 15, 59, 243, 195, 112, 186, 148, 128, 225, 225]⟩),
    ((mint.publicKey, bob.publicKey),
    ⟨[134, 225, 21, 241, 124, 130, 189, 91, 57, 82, 200, 227, 39, 253, 49, 48, 23, 43, 109, 165, 73,
      107, 150, 0, 208, 245, 235, 64, 168, 155, 102, 39]⟩),
    ((mint.publicKey, ⟨List.replicate 32 0⟩),
    ⟨[158, 218, 51, 184, 212, 28, 91, 80, 192, 236, 28, 36, 95, 175, 165, 67, 35, 189, 200, 190, 87,
      207, 20, 16, 4, 102, 238, 135, 210, 209, 2, 147]⟩)]

/-! ## The cipher -/

/-- A cipher that encrypts one text to a given cipher text and tag. -/
def aesGcm (iv plain cipher tag : Bytes) (hlen : tag.length = 16)
    (htag : tag ≠ List.replicate 16 0) : AesGcm where
  encrypt iv' plain' :=
    if iv' = iv ∧ plain' = plain then (cipher, tag) else (plain', List.replicate 16 0)
  decrypt iv' tag' cipher' :=
    if iv' = iv ∧ tag' = tag ∧ cipher' = cipher then some plain
    else if tag' = List.replicate 16 0 then some cipher' else none
  tag_length iv' plain' := by
    split
    · exact hlen
    · rfl
  decrypt_encrypt iv' plain' _ := by
    by_cases h : iv' = iv ∧ plain' = plain
    · simp [h]
    · have hzero : ¬(iv' = iv ∧ List.replicate 16 0 = tag ∧ plain' = cipher) :=
        fun hc => htag hc.2.1.symm
      simp only [if_neg h, if_neg hzero, if_true]

/-- The text `[157,97,…,26]` of the secret key of `alice`, encrypted under the key
`000102…1f` and twelve zero bytes. -/
def aes : AesGcm :=
  aesGcm (List.replicate 12 0)
    (Utf8.encode (Json.stringify (.arr (alice.secretKey.map fun b => .num b.toNat))))
    [85, 141, 128, 233, 153, 21, 180, 145, 57, 159, 158, 25, 41, 25, 166, 181, 224, 112, 111, 127,
     26, 180, 83, 3, 185, 174, 159, 186, 243, 211, 108, 110, 120, 115, 215, 143, 24, 222, 143, 50,
     31, 241, 69, 193, 237, 255, 93, 120, 133, 53, 114, 208, 85, 69, 114, 137, 97, 143, 9, 10, 124,
     88, 98, 211, 218, 67, 15, 51, 166, 253, 97, 210, 230, 165, 226, 245, 37, 8, 125, 169, 113, 36,
     6, 172, 12, 154, 112, 109, 5, 151, 38, 111, 203, 102, 253, 129, 224, 99, 98, 52, 0, 109, 212,
     133, 40, 78, 82, 24, 178, 22, 141, 113, 21, 139, 126, 89, 217, 73, 61, 165, 224, 62, 22, 207,
     86, 8, 10, 174, 79, 141, 166, 160, 218, 30, 56, 85, 45, 86, 244, 202, 120, 148, 170, 8, 16,
     107, 97, 72, 235, 134, 241, 211, 179, 38, 75, 99, 95, 74, 92, 210, 14, 78, 245, 21, 41, 208,
     236, 163, 176, 184, 157, 230, 8, 38, 216, 228, 5, 193, 99, 240, 217, 228, 232, 225, 86, 176,
     59, 113, 156, 56, 51, 74, 84, 153, 210, 118, 166, 44, 170, 25, 18, 155, 51, 148, 25, 110, 110,
     157, 60, 25, 120, 168, 33, 253, 73, 227, 120, 86, 198, 172, 23, 115, 195, 205, 118]
    [211, 81, 164, 9, 137, 175, 60, 169, 73, 22, 105, 105, 194, 144, 14, 39]
    (by decide) (by decide)

/-! ## The tags -/

/-- Tags under the keys of two days of `your_daily_rotating_master_secret`. -/
def tags : List ((String × String) × Bytes) :=
  [(("20224", "eyJhbGciOiJIUzI1NiIsInR5cCI6IkpXVCJ9." ++
      "eyJzdWIiOiJAYWxpY2UiLCJleHAiOjE3NDc0MDQwMDAsImlhdCI6MTc0NzM5NjgwMH0"),
    [173, 128, 33, 100, 201, 20, 138, 139, 86, 240, 242, 195, 218, 158, 137, 26, 130, 65, 183, 41,
     52, 128, 32, 191, 230, 16, 132, 168, 34, 99, 249, 151]),
    (("20224", "eyJhbGciOiJIUzI1NiIsInR5cCI6IkpXVCJ9." ++
      "eyJzdWIiOiJAYWxpY2UiLCJleHAiOjE3NDc0NDA4MDAsImlhdCI6MTc0NzQzMzYwMH0"),
    [174, 230, 162, 76, 235, 65, 5, 137, 155, 127, 26, 114, 29, 254, 20, 116, 67, 198, 198, 125,
     253, 81, 231, 16, 15, 58, 188, 64, 113, 222, 185, 4]),
    (("20225", "eyJhbGciOiJIUzI1NiIsInR5cCI6IkpXVCJ9." ++
      "eyJzdWIiOiJAYWxpY2UiLCJleHAiOjE3NDc0NDA4MDAsImlhdCI6MTc0NzQzMzYwMH0"),
    [59, 147, 157, 58, 33, 40, 192, 160, 56, 79, 121, 62, 49, 240, 19, 163, 115, 204, 209, 95,
     177, 77, 164, 165, 79, 65, 28, 38, 140, 130, 21, 253])]

theorem mem_tags {day message : String} {tag : Bytes}
    (h : tags.lookup (day, message) = some tag) : ((day, message), tag) ∈ tags := by
  obtain ⟨l₁, l₂, hl, -⟩ := List.lookup_eq_some_iff.mp h
  rw [hl]
  exact List.mem_append_right _ (List.mem_cons_self ..)

/-- A function that tells the days apart, with the tags above. -/
def mac : Mac where
  digest day message := (tags.lookup (day, message)).getD (0 :: Utf8.encode day)
  digest_ne_nil day message := by
    cases h : tags.lookup (day, message) with
    | none => simp
    | some tag =>
        have hall : ∀ kv ∈ tags, kv.2 ≠ [] := by decide
        exact hall _ (mem_tags h)

/-- `csurf`'s hash of a salt and a secret, in base 64. -/
def csrfHash (s : String) : String :=
  if s = "Ab3dE6gH-VJ1mqV0Jb2y0fmZT8kZ9hYwX" then "xJAYKgfQIwb4Iyuc225SAtR42kA"
  else "AAAAAAAAAAAAAAAAAAAAAAAAAAA"

/-! ## The environment -/

/-- The environment of a deployment.  A transaction that can be read has one signature, and
its signer pays the fee. -/
def env : Env where
  aes := aes
  mac := mac
  csrfHash := csrfHash
  publicKeyOf := publicKeyOf
  associatedTokenAddress mintPk owner _ := tokenAccounts.lookup (mintPk, owner)
  readsTransaction bytes kp := bytes.head? = some 1 ∧ (bytes.drop 69).take 32 = kp.publicKey.bytes
  hasSetEx := false
  agentMint := mint.publicKey
  nxrMint := nxrMint
  devWallet := bob.publicKey
  usdcMint := some "EPjFWdd5AufqSSqeM2qN1xzybapC8G4wEGGkZwyTDt1v"
  minNxrSol := some (2 / 100)
  nxrBurnPct := some (40 / 100)
  twHandle := "nexer_afbot"
  persona := "You are AgentName, a razor-sharp autonomous Solana trader AI."
  goals := "Provide up-to-the-minute market data, execute secure trades, burn NXR on each action."
  ollamaUrl := "http://localhost:11434/api/generate"
  ollamaModel := "llama3.2:3b"
  greeting := "Hey 🚀 I’m AgentName! Welcome aboard."
  greetingImg := some "https://aswss.com/images/tg-agents.png "
  menuTitle := "🤖 • AgentName Dashboard"
  botName := some "agentname_bot"
  imageApiRoot := "https://genelia.aswss.com"
  metadataBaseUrl := "https://tokens.nexus-ereb.us"
  recaptchaSecret := none
  platformPub := mint.publicKey
  launchpadProgram := nxrMint
  curveType := "LINEAR"
  launch := ⟨some 500, some 86400, some 604800, some 3600⟩
  telegramApi := "https://api.telegram.org/bot6155xxxxxxxxxxxxxxxxxxx"
  useTelegram := true
  maxHp := 20
  weight
    | .error => 2
    | .rpcFail => 5
    | .spam => 1
    | .critical => 10
  healRate := 1
  healInterval := 300000
  autoExit := true

/-- What a process finds that cannot reach anything outside. -/
def offline : (c : Cmd) → c.Ans
  | .tick | .sleep _ | .addJob _ | .usersSet _ _ | .usersAssign _ _ | .watch _
  | .decimalsSet _ _ | .manualAdd _ | .manualDelete _ | .configSet _ _ | .hpSet _
  | .lastIncidentSet _ | .jobCounted _ | .exit | .ready | .respond _ _ | .note _ _
  | .apiNote _ => ()
  | .now => (0 : Nat)
  | .randomBytes n => List.replicate n 0
  | .generate _ => alice
  | .redis c => (Redis.exec 0 c .empty).1
  | .tryRedis _ => none
  | .usersGet _ => none
  | .usersKeys => []
  | .watched _ | .manualHas _ => false
  | .decimalsGet _ => none
  | .configGet _ => none
  | .hpGet => (0 : ℚ)
  | .lastIncidentGet => (0 : Nat)
  | .fetch _ => .error ⟨.typeError, "fetch failed"⟩
  | .getBalance _ | .getAccountInfo _ | .getParsedAccountInfo _ | .getLatestBlockhash
  | .getParsedTokenAccountsByOwner _ _ | .createMint _ _
  | .getOrCreateAssociatedTokenAccount _ _ _ | .mintTo _ _ _ _ | .createLaunchpadPool _ _ _ _
  | .buyLaunchpadToken _ _ _ _ _ | .sellLaunchpadToken _ _ _ _ _
  | .sendAndConfirmTransaction _ _ | .telegram _ | .twitterReply _ => .error (.new "fetch failed")
  | .sendAndConfirmRawTransaction _ _ => (.error (.new "fetch failed"), false)

/-- A process that cannot reach anything outside. -/
def unplugged (c : Cmd) (t : Unit) : c.Ans × Unit := (offline c, t)

/-! ## Runs -/

/-- Redis and Telegram answer, nothing else does, and the next key is `kp`. -/
def online (kp : Keypair) : (c : Cmd) → c.Ans
  | .generate _ => kp
  | .telegram _ => .ok ()
  | c => offline c

/-- An event happens, and its program, the task number `i`, waits `n` times. -/
def serve (M : Async.Machine sig Err) (ans : (c : Cmd) → M.Ans c) (ev : M.Ev) (i n : Nat) :
    List M.Choice :=
  .start ev :: .resume i (fun _ => ans) ::
    (List.replicate n [.reply i ans, .resume i fun _ => ans]).flatten

end Nexus.Sample
