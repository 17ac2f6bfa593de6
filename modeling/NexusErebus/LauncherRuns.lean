import NexusErebus.Launches
import NexusErebus.System

/-!
# Runs of the launcher server

The server as a machine: requests come in at any time, and time passes.  A request goes through
the captcha gate and then to an endpoint.  The contracts of the two parts are stated here once.
The gate works on the counter of the address (`Cmd.gate`).  What comes later leaves the counters
alone and writes API keys in one way only (`Cmd.later`).  An endpoint loads the key pair of a user
and signs with nothing else (`Endpoint.body_eq`).
-/

namespace Nexus

open Async Text

/-! ## The machine -/

/-- What happens at the server. -/
inductive LauncherEv where
  | request (r : LauncherRequest)
  /-- Time passes. -/
  | time

section

variable (env : Env)

/-- The program of an event. -/
def LauncherEv.body : LauncherEv → Prog Unit
  | .request r => onLauncherRequest env r
  | .time => discard (ask .now)

/-- The server. -/
def launcherServer : Machine sig Err :=
  processes env (fun _ => .launcher) (LauncherEv.body env) fun _ st => some st

/-- Send the answer.  An error nobody caught goes to the last handler of the chain. -/
def responding (p : Prog Answer) : Prog Unit :=
  (endpoint env p).bind fun answer => ask (.respond answer.1 answer.2)

/-- The request that asks whether a captcha is solved. -/
def siteverify (token : String) : Request :=
  ⟨"https://www.google.com/recaptcha/api/siteverify", "POST",
    .text ("secret=" ++ encodeURIComponent env.recaptchaSecret.text ++ "&response=" ++
      encodeURIComponent token)⟩

end

/-- The service says that a captcha is solved, with a score that is high enough. -/
def captchaSolved (json : Json) : Bool :=
  match json.field "success" with
  | some (.bool true) =>
      (if Json.nullish (json.field "score") then some 0
        else Json.toNumber (json.field "score")).any (1 / 2 ≤ ·)
  | _ => false

-- a score of one half is enough, and a missing score counts as zero
example : captchaSolved (.obj [("success", .bool true), ("score", .num (1 / 2))]) = true ∧
    captchaSolved (.obj [("success", .bool true)]) = false := by
  decide +kernel

/-- The header with the captcha, the user and the API key of a request. -/
def LauncherRequest.token (r : LauncherRequest) : String := r.xCaptchaToken.getD ""

def LauncherRequest.user (r : LauncherRequest) : String := r.xUserId.getD ""

def LauncherRequest.key (r : LauncherRequest) : String := r.xApiKey.getD ""

/-- The `userId` of the body of a request. -/
def LauncherRequest.userId (r : LauncherRequest) : Option Json := r.body.bind (Json.field "userId")

/-! ## Contracts -/

/-- The commands of the captcha gate. -/
def Cmd.gate (env : Env) (r : LauncherRequest) : Cmd → Prop
  | .tryRedis (.get key) | .tryRedis (.incr key) | .tryRedis (.del key) => key = captchaKey r.ip
  | .tryRedis (.expire key seconds) => key = captchaKey r.ip ∧ seconds = 3600
  | .fetch request => request = siteverify env r.token
  | .tick => True
  | c => c.firewall = true

/-- The commands behind the gate.  They count nothing, set the API key of the `userId` in the body
for two hours, and ask no captcha service. -/
def Cmd.later (r : LauncherRequest) : Cmd → Prop
  | .redis c => ∃ channel message, c = .publish channel message
  | .tryRedis (.get _) | .tryRedis (.hgetall _) | .tryRedis (.hset _ _) => True
  | .tryRedis (.setex key seconds _) => key = apiKeyKey (Json.text r.userId) ∧ seconds = 7200
  | .tryRedis _ => False
  | .fetch request => ∃ fields, request.body = .form fields
  | _ => True

/-- A command behind the gate that signs with one key pair only. -/
def Cmd.signsAs (r : LauncherRequest) (kp : Keypair) (c : Cmd) : Prop :=
  c.later r ∧ ∀ kp', c.signer = some kp' → kp' = kp

section

variable {env : Env} {r : LauncherRequest} {pre : Cmd → Prop} {α : Type}

theorem gate_firewall {c : Cmd} (hc : c.firewall = true) : c.gate env r := by
  cases c with
  | tryRedis | fetch | tick => cases hc
  | _ => exact hc

theorem later_firewall {c : Cmd} (hc : c.firewall = true) : c.later r := by
  cases c with
  | redis c =>
      cases c with
      | publish channel message => exact ⟨channel, message, rfl⟩
      | _ => cases hc
  | tryRedis | fetch => cases hc
  | _ => trivial

theorem issues_tryRedis {c : Redis.Cmd} (hc : pre (.tryRedis c)) : (tryRedis c).Issues pre :=
  issues_attempt (issues_ask hc)

theorem issues_onSpam (hpre : ∀ c : Cmd, c.firewall = true → pre c) : (onSpam env).Issues pre :=
  Prog.issues_spawn (issues_record hpre .spam)

/-- `verifyRecaptcha` asks the service and reads its answer. -/
theorem verifyRecaptcha_eq (token : String) : verifyRecaptcha env token =
    (fetchJson (siteverify env token)).bind fun json =>
      (prop (some json) "success").bind fun _ => .ret (captchaSolved json) := by
  refine congrArg _ (funext fun json => ?_)
  cases json with
  | null => rfl
  | _ =>
      simp only [prop, Prog.bind_eq, Prog.ret_bind, captchaSolved]
      generalize Json.field "success" _ = success
      rcases success with _ | (_ | b | _ | _ | _ | _)
      case some.bool => cases b <;> rfl
      all_goals rfl

theorem issues_captchaMiddleware (hpre : ∀ c : Cmd, c.gate env r → pre c) :
    (captchaMiddleware env r).Issues pre := by
  refine Prog.issues_tryCatch ?_ fun _ => Prog.issues_bind
    (issues_onError fun c hc => hpre c (gate_firewall hc)) fun _ => .ret _
  refine Prog.issues_bind (issues_tryRedis (hpre _ rfl)) fun stored => ?_
  dsimp only
  split
  · exact .ret _
  · refine Prog.issues_bind (issues_await (hpre _ trivial) ?_) fun ok => ?_
    · rw [verifyRecaptcha_eq]
      refine Prog.issues_bind (issues_fetchJson (hpre _ rfl)) fun json => ?_
      exact Prog.issues_bind (issues_prop _ _) fun _ => .ret _
    · split
      · refine Prog.issues_bind (issues_tryRedis (hpre _ rfl)) fun _ => ?_
        exact Prog.issues_bind (issues_tryRedis (hpre _ ⟨rfl, rfl⟩)) fun _ => .ret _
      · exact Prog.issues_bind (issues_tryRedis (hpre _ rfl)) fun _ => .ret _

theorem issues_endpoint (hpre : ∀ c : Cmd, c.firewall = true → pre c) {p : Prog Answer}
    (hp : p.Issues pre) : (endpoint env p).Issues pre :=
  Prog.issues_tryCatch hp fun _ => Prog.issues_bind (issues_onError hpre) fun _ => .ret _

/-- A body that can be read is the body. -/
theorem issues_requestBody_bind {α : Type} {body : Option Json} {key : String} {f : Json → Prog α}
    (hf : ∀ v, body = some v → (f v).Issues pre) : ((requestBody body key).bind f).Issues pre := by
  rcases requestBody_cases body key with ⟨-, e, hthrow⟩ | ⟨-, v, hv, hret⟩
  · rw [hthrow]
    exact .throw e
  · rw [hret]
    exact hf v hv

theorem issues_requestBody (body : Option Json) (key : String) :
    (requestBody body key).Issues pre := by
  rw [← Prog.bind_ret (requestBody body key)]
  exact issues_requestBody_bind fun _ _ => .ret _

/-! ## Strings -/

/-- The key of the string a command may change. -/
def Cmd.stringKey : Cmd → Option String
  | .redis c | .tryRedis c => c.writesString
  | _ => none

/-- Only a string that is named changes. -/
theorem exec_string {p : Pid} {c : Cmd} {key : String} (hc : c.stringKey ≠ some key) (st : St)
    (a : c.Ans) : (exec p c st a).2.redis.strings key = st.redis.strings key := by
  cases c with
  | redis c => exact Redis.exec_strings _ c _ hc
  | tryRedis c =>
      cases a with
      | none => exact Redis.exec_strings _ c _ hc
      | some e => rfl
  | _ => rfl

theorem captchaKey_ne_apiKeyKey (ip u : String) : captchaKey ip ≠ apiKeyKey u := by
  intro h
  have := congrArg (fun s => s.toList.head?) h
  simp [captchaKey, apiKeyKey] at this

/-! ## What comes behind the gate -/

theorem unsigned_firewall {c : Cmd} (hc : c.firewall = true) : c.unsigned :=
  unsigned_asks (h := none) (asks_of_aside (aside_firewall hc))

/-- A command behind the gate that signs nothing. -/
def Cmd.idle (r : LauncherRequest) (c : Cmd) : Prop := c.later r ∧ c.unsigned

theorem idle_firewall (c : Cmd) (hc : c.firewall = true) : c.idle r :=
  ⟨later_firewall hc, unsigned_firewall hc⟩

theorem signsAs_of_idle {kp : Keypair} {c : Cmd} (hc : c.idle r) : c.signsAs r kp :=
  ⟨hc.1, fun kp' h => by rw [hc.2] at h; cases h⟩

theorem idle_getApiKey (r : LauncherRequest) : (getApiKey env r).Issues (Cmd.idle r) := by
  refine issues_endpoint idle_firewall (issues_requestBody_bind fun body hbody => ?_)
  have huser : body.field "userId" = r.userId := by rw [LauncherRequest.userId, hbody]; rfl
  rw [huser]
  dsimp only
  split
  · exact .ret _
  · refine Prog.issues_bind (issues_await ⟨trivial, rfl⟩ ?_) fun key => .ret _
    refine Prog.issues_bind (issues_ask ⟨trivial, rfl⟩) fun bytes => ?_
    exact Prog.issues_bind (issues_tryRedis ⟨⟨rfl, rfl⟩, rfl⟩) fun _ => .ret _

theorem idle_getToken (mint : String) : (getToken env mint).Issues (Cmd.idle r) := by
  refine issues_endpoint idle_firewall
    (Prog.issues_bind (issues_tryRedis ⟨trivial, rfl⟩) fun fields => ?_)
  split
  · exact .ret _
  · exact .ret _

theorem idle_validateApiKey (r : LauncherRequest) : (validateApiKey env r).Issues (Cmd.idle r) := by
  unfold validateApiKey
  dsimp only
  split
  · exact Prog.issues_bind (issues_onSpam idle_firewall) fun _ => .ret _
  · refine Prog.issues_bind (issues_tryRedis ⟨trivial, rfl⟩) fun stored => ?_
    split
    · exact Prog.issues_bind (issues_onSpam idle_firewall) fun _ => .ret _
    · exact .ret _

theorem idle_getUserKP (u : String) : (getUserKP env u).Issues (Cmd.idle r) := by
  refine Prog.issues_bind (issues_tryRedis ⟨trivial, rfl⟩) fun walletJson => ?_
  split
  · exact Prog.issues_bind (issues_onError idle_firewall) fun _ => .throw _
  · exact Prog.issues_ofExcept _

/-- The logo is asked for by a form. -/
theorem idle_generateImage (prompt : Option Json) :
    (await (generateImage env prompt)).Issues (Cmd.idle r) := by
  refine issues_await ⟨trivial, rfl⟩ ?_
  refine Prog.issues_bind (issues_attempt (issues_ask ⟨⟨_, rfl⟩, rfl⟩)) fun res => ?_
  refine Prog.issues_bind ?_ fun res => .ret _
  unfold expectOk
  split
  · exact .ret _
  · exact Prog.issues_bind (issues_onError idle_firewall) fun _ => .throw _

section

variable {kp : Keypair}

theorem signsAs_idle {p : Prog α} (hp : p.Issues (Cmd.idle r)) : p.Issues (Cmd.signsAs r kp) :=
  Prog.issues_mono (fun _ => signsAs_of_idle) hp

theorem signsAs_ask {c : Cmd} (hlater : c.later r) (hc : c.signer = some kp) :
    (ask c).Issues (Cmd.signsAs r kp) :=
  issues_ask ⟨hlater, fun _ h => Option.some.inj (h.symm.trans hc)⟩

/-- The token is minted, its logo drawn and its metadata stored. -/
theorem signsAs_minted {decimals tokenName : Option Json} {amount : Number} {prompt : String}
    {f : PublicKey → PublicKey → String → Prog Answer}
    (hf : ∀ mint account imageUrl, (f mint account imageUrl).Issues (Cmd.signsAs r kp)) :
    (do
      let mint ← attempt (ask (.createMint kp decimals))
      let account ← attempt (ask (.getOrCreateAssociatedTokenAccount kp mint kp.publicKey))
      attempt (ask (.mintTo kp mint account amount))
      let imageUrl ← await (generateImage env (some (.str prompt)))
      let website := env.metadataBaseUrl ++ "/token/" ++ mint.toBase58
      let name ← .ofExcept (hSetArg tokenName)
      tryRedis (.hset (tokenmetaKey mint.toBase58)
        [("name", name), ("image", imageUrl), ("website", website)])
      f mint account imageUrl : Prog Answer).Issues (Cmd.signsAs r kp) := by
  refine Prog.issues_bind (issues_attempt (signsAs_ask trivial rfl)) fun mint => ?_
  refine Prog.issues_bind (issues_attempt (signsAs_ask trivial rfl)) fun account => ?_
  refine Prog.issues_bind (issues_attempt (signsAs_ask trivial rfl)) fun _ => ?_
  refine Prog.issues_bind (signsAs_idle (idle_generateImage _)) fun imageUrl => ?_
  refine Prog.issues_bind (Prog.issues_ofExcept _) fun name => ?_
  exact Prog.issues_bind (signsAs_idle (issues_tryRedis ⟨trivial, rfl⟩)) fun _ => hf _ _ _

/-- A transaction is made, signed and confirmed. -/
theorem signsAs_confirmed {q : Prog (Except Err String)} {f : String → Answer}
    (hq : q.Issues (Cmd.signsAs r kp)) :
    (do
      let tx ← attempt q
      let sig ← attempt (ask (.sendAndConfirmTransaction tx kp))
      return f sig : Prog Answer).Issues (Cmd.signsAs r kp) :=
  Prog.issues_bind (issues_attempt hq) fun _ =>
    Prog.issues_bind (issues_attempt (signsAs_ask trivial rfl)) fun _ => .ret _

end

/-- An endpoint reads the request, loads the key pair of the user, and signs with that. -/
theorem Endpoint.body_eq (body : Option Json) (u : String) (e : Endpoint) :
    ∃ (key : String) (rest : Json → Keypair → Prog Answer),
      e.body env body u = endpoint env ((requestBody body key).bind fun body =>
        (await (getUserKP env u)).bind (rest body)) ∧
      ∀ body kp, (rest body kp).Issues (Cmd.signsAs r kp) := by
  cases e with
  | createToken =>
      refine ⟨"decimals", _, rfl, fun body kp => ?_⟩
      exact signsAs_minted fun _ _ _ => .ret _
  | createPool =>
      refine ⟨"tokenAMint", _, rfl, fun body kp => ?_⟩
      refine Prog.issues_bind (signsAs_idle (issues_ask ⟨trivial, rfl⟩)) fun now => ?_
      refine Prog.issues_bind (Prog.issues_ofExcept _) fun tokenA => ?_
      refine Prog.issues_bind (Prog.issues_ofExcept _) fun tokenB => ?_
      exact signsAs_confirmed (signsAs_ask trivial rfl)
  | buyToken | sellToken =>
      refine ⟨"poolId", _, rfl, fun body kp => ?_⟩
      refine Prog.issues_bind (Prog.issues_ofExcept _) fun pool => ?_
      refine Prog.issues_bind (issues_attempt (signsAs_ask trivial rfl)) fun account => ?_
      exact signsAs_confirmed (signsAs_ask trivial rfl)
  | launchToken =>
      refine ⟨"decimals", _, rfl, fun body kp => ?_⟩
      refine signsAs_minted fun mint account imageUrl => ?_
      refine Prog.issues_bind (signsAs_idle (issues_ask ⟨trivial, rfl⟩)) fun now => ?_
      refine Prog.issues_bind (Prog.issues_ofExcept _) fun tokenB => ?_
      exact signsAs_confirmed (signsAs_ask trivial rfl)

end

end Nexus
