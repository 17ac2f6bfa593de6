import NexusErebus.Async.InStep
import NexusErebus.Launches

/-!
# Two launchers for one launch

`launchTokenInternal` and `POST /launch-token` are two copies of one procedure.  They look up the
key, create the mint and the token account, issue the supply, store the metadata and create the
pool.  They ask for the logo in different ways, and each reads its own clock.

`launchers_in_step` says that nothing else is different.  While Redis, the chain and the SDK treat
both alike and both get a logo, the two make the same calls with the same arguments, up to the URL
of the logo and the time, get the same answers, stop at the same call with the same error, and
return the same mint, account, website and signature.
-/

namespace Nexus

open Async Text

/-! ## What is compared -/

/-- The calls a launch is made of. -/
def Cmd.launchCall : Cmd → Bool
  | .tryRedis (.get _) | .tryRedis (.hset _ _) | .createMint _ _
  | .getOrCreateAssociatedTokenAccount _ _ _ | .mintTo _ _ _ _ | .createLaunchpadPool _ _ _ _
  | .sendAndConfirmTransaction _ _ => true
  | _ => false

/-- A call and its answer. -/
abbrev Answered : Type := (c : Cmd) × c.Res

/-- Pick out the calls of a launch. -/
def launchView (e : Answered) : Option Answered := if e.1.launchCall then some e else none

/-- The calls of a launch in a log. -/
def launchCalls (log : List Answered) : List Answered := log.filterMap launchView

/-- The same call with the same answer, up to the URL of the logo and the time. -/
inductive SameCall (env : Env) : Answered → Answered → Prop
  | same (c : Cmd) (r : c.Res) : SameCall env ⟨c, r⟩ ⟨c, r⟩
  | store (key name website image image' : String) (r : Except Err Unit) :
      SameCall env
        ⟨.tryRedis (.hset key [("name", name), ("image", image), ("website", website)]), r⟩
        ⟨.tryRedis (.hset key [("name", name), ("image", image'), ("website", website)]), r⟩
  | pool (wallet : Keypair) (params : Json) (mint tokenB : PublicKey) (now now' : Nat)
      (config : List (String × Json)) (program : PublicKey) (r : Except Err String) :
      SameCall env
        ⟨.createLaunchpadPool wallet (poolParams env params mint tokenB now) config program, r⟩
        ⟨.createLaunchpadPool wallet (poolParams env params mint tokenB now') config program, r⟩

/-- Two launches that differ at most in the logo. -/
def SameLaunch (a b : Launched) : Prop :=
  a.mint = b.mint ∧ a.account = b.account ∧ a.website = b.website ∧
    a.poolSignature = b.poolSignature

/-- The server answers with what the program returned, or with the error it threw. -/
def SameReport : Except Err Launched → Except Err Answer → Prop
  | .ok a, .ok answer => ∃ b, answer = launchedAnswer b ∧ SameLaunch a b
  | .error e, .ok answer => answer = errorAnswer 500 e.message
  | _, .error _ => False

/-- Two handlers behave alike, in states that go together.  They answer the same calls alike, and
what either does beside the calls has no influence on that. -/
structure SameServices {σ τ : Type} (env : Env) (step : (c : Cmd) → σ → c.Res × σ)
    (step' : (c : Cmd) → τ → c.Res × τ) (I : σ → τ → Prop) : Prop where
  calls : ∀ c d s t, c.launchCall = true → (∃ r r', SameCall env ⟨c, r⟩ ⟨d, r'⟩) → I s t →
    SameCall env ⟨c, (step c s).1⟩ ⟨d, (step' d t).1⟩ ∧ I (step c s).2 (step' d t).2
  left : ∀ c s t, c.aside → I s t → I (step c s).2 t
  right : ∀ c s t, c.aside → I s t → I s (step' c t).2

/-- The logo of `launchTokenInternal`. -/
def internalLogo (env : Env) (params : Json) : Prog String :=
  (await (generateImageDescription env (params.field "tokenName"))).bind fun logoDesc =>
    await (generateImage env (some (.str logoDesc)))

/-- The logo of `POST /launch-token`. -/
def serverLogo (env : Env) (params : Json) : Prog String :=
  await (generateImage env (some (.str ("Logo for " ++ Json.text (params.field "tokenName")))))

/-! ## The calls in step -/

section

variable {σ τ : Type} {env : Env} {step : (c : Cmd) → σ → c.Res × σ}
  {step' : (c : Cmd) → τ → c.Res × τ} {I : σ → τ → Prop}

variable (env step step' I) in
/-- What two launches have to agree on. -/
def launchPairing : Pairing sig σ τ Answered where
  left := step
  right := step'
  view := launchView
  same := SameCall env
  inv := I

theorem launchView_aside (c : Cmd) (r : c.Res) (hc : c.aside) : launchView ⟨c, r⟩ = none := by
  cases c with
  | tryRedis | createMint | getOrCreateAssociatedTokenAccount | mintTo | createLaunchpadPool
  | sendAndConfirmTransaction => cases hc
  | _ => rfl

theorem SameCall.launchCall {c d : Cmd} {r : c.Res} {r' : d.Res}
    (h : SameCall env ⟨c, r⟩ ⟨d, r'⟩) (hc : c.launchCall = true) : d.launchCall = true := by
  cases h with
  | same => exact hc
  | store => rfl
  | pool => rfl

/-- The same call has the same answer. -/
theorem SameCall.answer {c d : Cmd} {r : c.Res} {r' : d.Res}
    (h : SameCall env ⟨c, r⟩ ⟨d, r'⟩) : HEq r r' := by
  cases h with
  | same => rfl
  | store => rfl
  | pool => rfl

variable (env step step' I) in
/-- Two programs that launch in step. -/
abbrev LaunchInStep {α β : Type} (q : Prog α) (q' : Prog β) (R : α → β → Prop) : Prop :=
  Prog.InStep (launchPairing env step step' I) q q' R

theorem inStep_attempt {α : Type} {q q' : Prog (Except Err α)}
    (h : LaunchInStep env step step' I q q' fun r r' => HEq r r') :
    LaunchInStep env step step' I (attempt q) (attempt q') Eq := by
  refine Prog.inStep_bind h fun r r' hr => ?_
  rw [eq_of_heq hr]
  exact Prog.inStep_ofExcept r'

section

variable (hI : SameServices env step step' I)

include hI

theorem asideLeft {c : Cmd} (hc : c.aside) : (launchPairing env step step' I).AsideLeft c :=
  ⟨fun r => launchView_aside c r hc, fun s t => hI.left c s t hc⟩

theorem asideRight {c : Cmd} (hc : c.aside) : (launchPairing env step step' I).AsideRight c :=
  ⟨fun r => launchView_aside c r hc, fun s t => hI.right c s t hc⟩

/-- A call of a launch is answered alike. -/
theorem inStep_launchCall {c d : Cmd} (hc : c.launchCall = true) {r : c.Res} {r' : d.Res}
    (h : SameCall env ⟨c, r⟩ ⟨d, r'⟩) :
    LaunchInStep env step step' I (ask c) (ask d) fun r r' => HEq r r' := by
  refine Prog.inStep_ask fun s t hi => ?_
  obtain ⟨hsame, hi'⟩ := hI.calls c d s t hc ⟨r, r', h⟩ hi
  refine ⟨⟨⟨c, (step c s).1⟩, ⟨d, (step' d t).1⟩, ?_, ?_, hsame⟩, hi', hsame.answer⟩
  · exact if_pos hc
  · exact if_pos (hsame.launchCall hc)

/-- The same command, if it is a call of a launch. -/
theorem inStep_sameCall {c : Cmd} (hc : c.launchCall = true) (r : c.Res) :
    LaunchInStep env step step' I (ask c) (ask c) fun r r' => HEq r r' :=
  inStep_launchCall hI hc (.same c r)

theorem inStep_onError :
    LaunchInStep env step step' I (onError env) (onError env) fun _ _ => True :=
  Prog.inStep_aside (issues_incident fun _ => asideLeft hI) (issues_incident fun _ => asideRight hI)
    fun _ _ _ => .ok trivial

theorem inStep_launchKeypair (userId : Str) :
    LaunchInStep env step step' I (launchKeypair env userId) (launchKeypair env userId) Eq := by
  refine Prog.inStep_bind (inStep_attempt (inStep_sameCall hI rfl (.error (.new ""))))
    fun walletJson _ h => ?_
  cases h
  split
  · exact Prog.inStep_bind (inStep_onError hI) fun _ _ _ => Prog.inStep_throw _
  · exact Prog.inStep_ofExcept _

/-- The clocks are read apart from each other. -/
theorem inStep_now : LaunchInStep env step step' I (ask .now) (ask .now) fun _ _ => True :=
  Prog.inStep_aside (issues_ask (asideLeft hI rfl)) (issues_ask (asideRight hI rfl))
    fun _ _ _ => .ok trivial

theorem inStep_launchWith (userKP : Keypair) (params : Json) {logo logo' : Prog String}
    (hlogo : LaunchInStep env step step' I logo logo' fun _ _ => True) :
    LaunchInStep env step step' I (launchWith env userKP params logo)
      (launchWith env userKP params logo') SameLaunch := by
  refine Prog.inStep_bind (inStep_attempt (inStep_sameCall hI rfl (.error (.new ""))))
    fun mint _ h => ?_
  cases h
  refine Prog.inStep_bind (inStep_attempt (inStep_sameCall hI rfl (.error (.new ""))))
    fun account _ h => ?_
  cases h
  refine Prog.inStep_bind (inStep_attempt (inStep_sameCall hI rfl (.error (.new ""))))
    fun _ _ _ => ?_
  refine Prog.inStep_bind hlogo fun imageUrl imageUrl' _ => ?_
  refine Prog.inStep_bind (Prog.inStep_ofExcept _) fun name _ h => ?_
  cases h
  refine Prog.inStep_bind (inStep_attempt (inStep_launchCall hI rfl
    (.store _ _ _ _ _ (.error (.new ""))))) fun _ _ _ => ?_
  refine Prog.inStep_bind (inStep_now hI) fun now now' _ => ?_
  refine Prog.inStep_bind (Prog.inStep_ofExcept _) fun tokenB _ h => ?_
  cases h
  refine Prog.inStep_bind (inStep_attempt (inStep_launchCall hI rfl
    (.pool _ _ _ _ _ _ _ _ (.error (.new ""))))) fun tx _ h => ?_
  cases h
  refine Prog.inStep_bind (inStep_attempt (inStep_sameCall hI rfl (.error (.new ""))))
    fun poolSignature _ h => ?_
  cases h
  exact Prog.inStep_ret ⟨rfl, rfl, rfl, rfl⟩

/-- Both get a logo. -/
theorem inStep_logo {params : Json}
    (hleft : ∀ s t, I s t → ∃ url, ((internalLogo env params).run step s).1 = .ok url)
    (hright : ∀ s t, I s t → ∃ url, ((serverLogo env params).run step' t).1 = .ok url) :
    LaunchInStep env step step' I (internalLogo env params) (serverLogo env params)
      fun _ _ => True := by
  refine Prog.inStep_aside ?_ ?_ fun s t hi => ?_
  · exact Prog.issues_bind (issues_await (asideLeft hI trivial)
      (issues_askOllama (fun _ => asideLeft hI) _)) fun _ =>
        issues_await (asideLeft hI trivial) (issues_generateImage (fun _ => asideLeft hI) _)
  · exact issues_await (asideRight hI trivial) (issues_generateImage (fun _ => asideRight hI) _)
  · obtain ⟨url, hurl⟩ := hleft s t hi
    obtain ⟨url', hurl'⟩ := hright s t hi
    change Alike _ ((internalLogo env params).run step s).1 ((serverLogo env params).run step' t).1
    rw [hurl, hurl']
    exact .ok trivial

theorem inStep_launchRequest {params : Json} (hparams : params ≠ .null) (userId : String)
    (hleft : ∀ s t, I s t → ∃ url, ((internalLogo env params).run step s).1 = .ok url)
    (hright : ∀ s t, I s t → ∃ url, ((serverLogo env params).run step' t).1 = .ok url) :
    LaunchInStep env step step' I (launchTokenInternal env params (some userId))
      (launchRequest env (some params) userId) SameLaunch := by
  have hbody : requestBody (some params) "decimals" = .ret params := by
    cases params with
    | null => exact absurd rfl hparams
    | _ => rfl
  have hprop : prop (some params) "decimals" = .ret (params.field "decimals") := by
    cases params with
    | null => exact absurd rfl hparams
    | _ => rfl
  have hkey : LaunchInStep env step step' I (launchKeypair env (some userId))
      (await (getUserKP env userId)) Eq :=
    Prog.inStep_bind_right (inStep_launchKeypair hI (some userId))
      (fun a => .call (asideRight hI trivial) fun _ => .ret a) fun a b t h => ⟨b, rfl, h⟩
  rw [launchRequest, hbody, Prog.ret_bind]
  refine Prog.inStep_bind hkey fun userKP _ h => ?_
  cases h
  simp only [hprop, Prog.bind_eq, Prog.ret_bind]
  exact inStep_launchWith hI userKP params (inStep_logo hI hleft hright)

end

/-! ## The report of the server -/

/-- The endpoint adds no call to the request. -/
theorem launchCalls_endpoint (q : Prog Launched) (t : τ) :
    launchCalls ((endpoint env (q.bind fun a => .ret (launchedAnswer a))).log step' t) =
      launchCalls (q.log step' t) := by
  have hcatch : ∀ e : Err, (do onError env; return errorAnswer 500 e.message : Prog Answer).Issues
      Cmd.aside := fun e => Prog.issues_bind (issues_incident fun _ => id) fun _ => .ret _
  refine (Prog.log_tryCatch _ t fun e t' => (hcatch e).log_eq_nil launchView_aside).trans ?_
  rw [Prog.log_bind, List.filterMap_append]
  refine (congrArg _ ?_).trans (List.append_nil _)
  split
  · rfl
  · rfl

/-- The endpoint reports how the request ended. -/
theorem report_endpoint {r : Except Err Launched} {q : Prog Launched} {t : τ}
    (h : Alike SameLaunch r (q.run step' t).1) :
    SameReport r
      ((endpoint env (q.bind fun a => .ret (launchedAnswer a))).run step' t).1 := by
  rw [endpoint, Prog.run_tryCatch, Prog.run_bind]
  cases hrun : q.run step' t with
  | mk r' t' =>
      rw [hrun] at h
      cases h with
      | ok hab => exact ⟨_, rfl, hab⟩
      | error e => exact rfl

end

/-- While Redis, the chain and the SDK treat both launchers alike, and both get a logo, they make
the same calls, get the same answers, and report the same. -/
theorem launchers_in_step (env : Env) {σ τ : Type} {step : (c : Cmd) → σ → c.Res × σ}
    {step' : (c : Cmd) → τ → c.Res × τ} {I : σ → τ → Prop} (hI : SameServices env step step' I)
    {params : Json} (hparams : params ≠ .null) (userId : String)
    (hleft : ∀ s t, I s t → ∃ url, ((internalLogo env params).run step s).1 = .ok url)
    (hright : ∀ s t, I s t → ∃ url, ((serverLogo env params).run step' t).1 = .ok url)
    {s : σ} {t : τ} (hi : I s t) :
    List.Forall₂ (SameCall env)
        (launchCalls ((launchTokenInternal env params (some userId)).log step s))
        (launchCalls ((launchToken env (some params) userId).log step' t)) ∧
      SameReport ((launchTokenInternal env params (some userId)).run step s).1
        ((launchToken env (some params) userId).run step' t).1 := by
  obtain ⟨hlog, -, hend⟩ := inStep_launchRequest hI hparams userId hleft hright s t hi
  rw [launchToken_eq, launchCalls_endpoint]
  exact ⟨hlog, report_endpoint hend⟩

namespace Sample

/-- A launch of a token. -/
def launchParams : Json :=
  .obj [("decimals", .num 6), ("supply", .num 1000000), ("tokenName", .str "Nexus"),
    ("tokenBMint", .str solMint), ("totalRaiseB", .num 500), ("cliffPeriod", .num 86400),
    ("unlockPeriod", .num 604800), ("startDelay", .num 3600)]

/-- Services that work.  The image service and the clock answer as they are told to. -/
def launching (image : String) (now : Nat) : (c : Cmd) → c.Ans
  | .now => now
  | .createMint _ _ => .ok bob.publicKey
  | .getOrCreateAssociatedTokenAccount _ _ _ => .ok mint.publicKey
  | .mintTo _ _ _ _ => .ok ()
  | .fetch ⟨_, _, .form _⟩ => .ok ⟨true, "OK", image⟩
  | .fetch _ => .ok ⟨true, "OK", Json.stringify (.obj [("response", .str "a cat")])⟩
  | .createLaunchpadPool _ _ _ _ => .ok "AQAB"
  | .sendAndConfirmTransaction _ _ => .ok "5VERv8NMvzbJMEkV8xnrLkEaWRtSz9CosKDYjCJjBRnb"
  | c => offline c

/-- A process that has the key of `alice` and these services. -/
def launchHandler (image : String) (now : Nat) (c : Cmd) (_ : Unit) : c.Res × Unit :=
  ((exec .agent c imported (launching image now c)).1, ())

theorem launchHandler_sameServices :
    SameServices env (launchHandler "out/cat.png" 1747396800000)
      (launchHandler "out/7.png" 1747396805000) fun _ _ => True where
  calls := by
    rintro c d s t hc ⟨r, r', h⟩ -
    refine ⟨?_, trivial⟩
    cases h with
    | same =>
        have hanswer : (launchHandler "out/7.png" 1747396805000 c t).1 =
            (launchHandler "out/cat.png" 1747396800000 c s).1 := by
          cases c with
          | tryRedis | createMint | getOrCreateAssociatedTokenAccount | mintTo
          | createLaunchpadPool | sendAndConfirmTransaction => rfl
          | _ => cases hc
        rw [hanswer]
        exact .same c _
    | store key name website image image' => exact .store key name website image image' (.ok ())
    | pool wallet params mint tokenB now now' config program =>
        exact .pool wallet params mint tokenB now now' config program (.ok "AQAB")
  left _ _ _ _ _ := trivial
  right _ _ _ _ _ := trivial

/-- `alice` launches a token in both ways. -/
theorem launchers_in_step_alice :
    List.Forall₂ (SameCall env)
        (launchCalls ((launchTokenInternal env launchParams (some "alice")).log
          (launchHandler "out/cat.png" 1747396800000) ()))
        (launchCalls ((launchToken env (some launchParams) "alice").log
          (launchHandler "out/7.png" 1747396805000) ())) ∧
      SameReport ((launchTokenInternal env launchParams (some "alice")).run
          (launchHandler "out/cat.png" 1747396800000) ()).1
        ((launchToken env (some launchParams) "alice").run
          (launchHandler "out/7.png" 1747396805000) ()).1 := by
  have hisOk : ∀ r : Except Err String, r.isOk = true → ∃ url, r = .ok url := by
    intro r hr
    cases r with
    | ok url => exact ⟨url, rfl⟩
    | error e => cases hr
  refine launchers_in_step env launchHandler_sameServices (by simp [launchParams]) "alice"
    (fun s _ _ => hisOk _ ?_) (fun _ t _ => hisOk _ ?_) trivial
  · cases s
    decide +kernel
  · cases t
    decide +kernel

end Sample

end Nexus
