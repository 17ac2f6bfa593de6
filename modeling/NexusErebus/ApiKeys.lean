import NexusErebus.LauncherRuns

/-!
# API keys of the launcher server

`POST /get-api-key` gives a user a new key, and everything behind `validateApiKey` asks for it.  A
key is a string in Redis under the name of the user, for two hours.  The next key takes its place.

An observer keeps the history: which keys were given out, which requests were let through by their
key, which key pairs a request has read from the record of its user, and what it has signed.
`keys_admit_current` says that the server admits exactly the requests with the current key of the
user they name, and that a request which was let through signs with the key pair of that user.
-/

namespace Nexus

open Async Text

/-! ## Histories -/

/-- A key that was given to a user. -/
structure Issue where
  /-- The string form of the `userId` it was asked for. -/
  user : String
  key : String
  time : Nat

/-- A request was let through by its key.  The keys given out by then are noted, newest first. -/
structure Admission where
  call : Nat
  user : String
  key : String
  time : Nat
  issued : List Issue

/-- What happened, newest first. -/
structure KeyLog where
  issued : List Issue
  admitted : List Admission
  /-- The key pairs a call has read from the record of a user. -/
  wallets : List (Nat × String × Keypair)
  signed : List (Nat × Keypair)

/-- Nothing has happened. -/
def KeyLog.empty : KeyLog := ⟨[], [], [], []⟩

/-- How long a key is good for, in milliseconds. -/
def keyLifetime : Nat := 1000 * 7200

/-- The key of a user is the last one given out, for 7200 seconds. -/
def currentKey (issued : List Issue) (u : String) (now : Nat) : Option String :=
  (issued.find? (·.user = u)).bind fun i =>
    if Redis.past now (some (i.time + keyLifetime)) then none else some i.key

/-- A key is given out, to the user in the body of the request. -/
def noteIssued (r : LauncherRequest) (now : Nat) : (c : Cmd) → c.Res → List Issue
  | .tryRedis (.setex _ _ value), .ok _ => [⟨Json.text r.userId, value, now⟩]
  | _, _ => []

/-- A request finds its key under the name of its user. -/
def noteAdmitted (n : Nat) (r : LauncherRequest) (now : Nat) (issued : List Issue) :
    (c : Cmd) → c.Res → List Admission
  | .tryRedis (.get key), .ok stored =>
      if key = apiKeyKey r.user ∧ r.user ≠ "" ∧ r.key ≠ "" ∧ stored = some r.key then
        [⟨n, r.user, r.key, now, issued⟩]
      else []
  | _, _ => []

/-- A request reads the key pair of its user. -/
def noteWallet (env : Env) (n : Nat) (r : LauncherRequest) :
    (c : Cmd) → c.Res → List (Nat × String × Keypair)
  | .tryRedis (.get key), .ok (some json) =>
      if key = launchWalletKey (some r.user) then
        (readKeypair env (some json)).toOption.toList.map (n, r.user, ·)
      else []
  | _, _ => []

/-- The history after a command of a request. -/
def KeyLog.noted (env : Env) (n : Nat) (r : LauncherRequest) (now : Nat) (c : Cmd) (res : c.Res)
    (m : KeyLog) : KeyLog where
  issued := noteIssued r now c res ++ m.issued
  admitted := noteAdmitted n r now m.issued c res ++ m.admitted
  wallets := noteWallet env n r c res ++ m.wallets
  signed := c.signer.toList.map (n, ·) ++ m.signed

/-- The observer of the keys. -/
def keyObserver (env : Env) : Observer (launcherServer env).calls where
  Memo := KeyLog
  note (n : Nat) c (s : St × List LauncherEv) res m :=
    match s.2[n]? with
    | some (.request r) => m.noted env n r s.1.clock c res
    | _ => m
  noteCrash _ _ m := m

/-- The server with the history of its keys. -/
def keyMachine (env : Env) : Machine sig Err :=
  (launcherServer env).calls.monitored (keyObserver env) (fun _ _ => true) fun _ _ _ => true

/-- The state of the server, its calls and its history. -/
abbrev KeySt := (St × List LauncherEv) × KeyLog

/-! ## The invariant -/

/-- The request of a call was let through by its key. -/
def KeyLog.LetIn (m : KeyLog) (n : Nat) (r : LauncherRequest) : Prop :=
  ∃ a ∈ m.admitted, a.call = n ∧ a.user = r.user ∧ a.key = r.key

/-- A call may sign with a key pair: it was let through for a user, and has read the key pair from
the record of that user. -/
def MaySign (calls : List LauncherEv) (m : KeyLog) (n : Nat) (kp : Keypair) : Prop :=
  ∃ r, calls[n]? = some (.request r) ∧ m.LetIn n r ∧ (n, r.user, kp) ∈ m.wallets

/-- The store has the current keys, every request that was let through had one, and signatures are
made with the key pairs of their users. -/
structure KeysKept (s : KeySt) : Prop where
  stored : ∀ u, s.1.1.redis.strings (apiKeyKey u) =
    (s.2.issued.find? (·.user = u)).map fun i => (i.key, some (i.time + keyLifetime))
  current : ∀ a ∈ s.2.admitted,
    a.issued <:+ s.2.issued ∧ currentKey a.issued a.user a.time = some a.key
  signed : ∀ x ∈ s.2.signed, MaySign s.1.2 s.2 x.1 x.2

/-- Histories only grow. -/
def keys (env : Env) : Rely (keyMachine env) where
  inv := KeysKept
  rel _ s s' := s.1.2 <+: s'.1.2 ∧ s.2.admitted ⊆ s'.2.admitted ∧ s.2.wallets ⊆ s'.2.wallets
  rel_refl _ _ := ⟨List.prefix_rfl, List.Subset.refl _, List.Subset.refl _⟩
  rel_trans h₁ h₂ := ⟨h₁.1.trans h₂.1, List.Subset.trans h₁.2.1 h₂.2.1,
    List.Subset.trans h₁.2.2 h₂.2.2⟩

section

variable {env : Env} {n : Nat} {r : LauncherRequest} {c : Cmd}
  {s s' : KeySt}

theorem MaySign.mono {kp : Keypair} (h : MaySign s.1.2 s.2 n kp) {p : Nat}
    (hrel : (keys env).rel p s s') : MaySign s'.1.2 s'.2 n kp := by
  obtain ⟨r, hr, ⟨a, ha, hcall⟩, hw⟩ := h
  exact ⟨r, getElem?_extends hrel.1 hr, ⟨a, hrel.2.1 ha, hcall⟩, hrel.2.2 hw⟩

/-- A string with a lifetime is there until it ends. -/
theorem string_of_stored {redis : Redis.Store} {key : String} {i : Option Issue} {lifetime : Nat}
    (h : redis.strings key = i.map fun i => (i.key, some (i.time + lifetime))) (now : Nat) :
    redis.string now key =
      i.bind fun i => if Redis.past now (some (i.time + lifetime)) then none else some i.key := by
  unfold Redis.Store.string
  rw [h]
  cases i with
  | none => rfl
  | some i => rfl

/-- What is stored under the name of a user is the current key. -/
theorem KeysKept.string (hi : KeysKept s) (u : String) :
    s.1.1.redis.string s.1.1.clock (apiKeyKey u) = currentKey s.2.issued u s.1.1.clock :=
  string_of_stored (hi.stored u) _

/-! ## Commands -/

/-- A request touches API keys in one way only: to set that of the user in its body for two
hours. -/
def Cmd.sparesKeys (r : LauncherRequest) (c : Cmd) : Prop :=
  (∃ v, c = .tryRedis (.setex (apiKeyKey (Json.text r.userId)) 7200 v)) ∨
    (∀ u, c.stringKey ≠ some (apiKeyKey u)) ∧ ∀ now res, noteIssued r now c res = []

theorem sparesKeys_gate (hc : c.gate env r) : c.sparesKeys r := by
  refine .inr ⟨fun u h => ?_, fun now res => ?_⟩
  · cases c with
    | redis c =>
        cases c with
        | publish => cases h
        | _ => cases hc
    | tryRedis c =>
        cases c with
        | incr key | del key =>
            cases hc
            exact captchaKey_ne_apiKeyKey _ _ (Option.some.inj h)
        | expire key seconds =>
            cases hc.1
            exact captchaKey_ne_apiKeyKey _ _ (Option.some.inj h)
        | get => cases h
        | _ => cases hc
    | _ => cases h
  · unfold noteIssued
    split
    · cases hc
    · rfl

theorem sparesKeys_later (hc : c.later r) : c.sparesKeys r := by
  cases c with
  | redis c =>
      obtain ⟨_, _, rfl⟩ := hc
      exact .inr ⟨fun _ h => (by cases h), fun _ _ => rfl⟩
  | tryRedis c =>
      cases c with
      | setex key seconds value =>
          obtain ⟨rfl, rfl⟩ := hc
          exact .inl ⟨value, rfl⟩
      | get | hgetall | hset => exact .inr ⟨fun _ h => (by cases h), fun _ _ => rfl⟩
      | _ => cases hc
  | _ => exact .inr ⟨fun _ h => (by cases h), fun _ _ => rfl⟩

theorem signer_gate (hc : c.gate env r) : c.signer = none := by
  cases c with
  | createMint | getOrCreateAssociatedTokenAccount | mintTo | createLaunchpadPool
  | buyLaunchpadToken | sellLaunchpadToken | sendAndConfirmTransaction
  | sendAndConfirmRawTransaction => cases hc
  | _ => rfl

/-- A command keeps the store in step with the history. -/
theorem stored_step {st : St} {issued : List Issue} {a : c.Ans} (hc : c.sparesKeys r)
    (hstored : ∀ u, st.redis.strings (apiKeyKey u) =
      (issued.find? (·.user = u)).map fun i => (i.key, some (i.time + keyLifetime))) (u : String) :
    (exec .launcher c st a).2.redis.strings (apiKeyKey u) =
      ((noteIssued r st.clock c (exec .launcher c st a).1 ++ issued).find? (·.user = u)).map
        fun i => (i.key, some (i.time + keyLifetime)) := by
  rcases hc with ⟨v, rfl⟩ | ⟨hkey, hnone⟩
  · cases a with
    | some e => exact hstored u
    | none =>
        change (Function.update st.redis.strings _ _) (apiKeyKey u) =
          ((⟨Json.text r.userId, v, st.clock⟩ :: issued).find? _).map _
        by_cases hu : Json.text r.userId = u
        · subst hu
          rw [Function.update_self, List.find?_cons_of_pos (by simp)]
          rfl
        · have hkey : apiKeyKey u ≠ apiKeyKey (Json.text r.userId) := fun h =>
            hu ((String.append_right_inj "apikey:").mp h).symm
          rw [Function.update_of_ne hkey, hstored u, List.find?_cons_of_neg (by simpa using hu)]
  · rw [exec_string (hkey u), hstored u, hnone, List.nil_append]

/-- A request is let through by the current key of its user. -/
theorem noteAdmitted_current (hi : KeysKept s) {a : c.Ans} {x : Admission}
    (hx : x ∈ noteAdmitted n r s.1.1.clock s.2.issued c (exec .launcher c s.1.1 a).1) :
    x.issued = s.2.issued ∧ currentKey x.issued x.user x.time = some x.key := by
  unfold noteAdmitted at hx
  split at hx
  next key stored hres =>
    obtain ⟨⟨rfl, -, -, rfl⟩, hmem⟩ := List.mem_ite_nil_right.mp hx
    cases List.mem_singleton.mp hmem
    refine ⟨rfl, ?_⟩
    rw [← hi.string]
    cases a with
    | none => exact Except.ok.inj hres
    | some e => cases hres
  next => cases hx

/-- The request of a call. -/
def IsCall (n : Nat) (r : LauncherRequest) (s : KeySt) : Prop :=
  s.1.2[n]? = some (.request r)

theorem IsCall.mono {p : Nat} (h : IsCall n r s) (hrel : (keys env).rel p s s') : IsCall n r s' :=
  getElem?_extends hrel.1 h

/-- What a command of a request does. -/
theorem step_request {a : c.Ans} {res : c.Res} (hr : IsCall n r s)
    (hs : (keyMachine env).step n c s a = some (res, s')) :
    exec .launcher c s.1.1 a = (res, s'.1.1) ∧ s'.1.2 = s.1.2 ∧
      s'.2 = s.2.noted env n r s.1.1.clock c res := by
  obtain ⟨-, ev, -, -, hex, hcalls, hnote⟩ := step_calls hs
  refine ⟨hex, hcalls, hnote.trans ?_⟩
  have hr' : s.1.2[n]? = some (.request r) := hr
  simp only [keyObserver, hr']

/-- A command of a request keeps the history right, if what it signs may be signed. -/
theorem moves_step {a : c.Ans} {res : c.Res} (hr : IsCall n r s)
    (hc : c.sparesKeys r) (hsign : ∀ kp, c.signer = some kp → MaySign s.1.2 s.2 n kp)
    (hi : KeysKept s) (hs : (keyMachine env).step n c s a = some (res, s')) :
    (keys env).Moves s s' := by
  obtain ⟨hex, hcalls, hnote⟩ := step_request hr hs
  obtain ⟨rfl, hst⟩ := Prod.mk.inj hex
  have hrel : ∀ p, (keys env).rel p s s' := fun _ => by
    refine ⟨hcalls ▸ List.prefix_rfl, ?_, ?_⟩
    · rw [hnote]; exact List.subset_append_right _ _
    · rw [hnote]; exact List.subset_append_right _ _
  refine ⟨⟨?_, ?_, ?_⟩, hrel⟩
  · rw [hnote, ← hst]
    exact stored_step hc hi.stored
  · have hissued : s.2.issued <:+ s'.2.issued := by rw [hnote]; exact List.suffix_append _ _
    intro x hx
    rw [hnote] at hx
    rcases List.mem_append.mp hx with hx | hx
    · obtain ⟨hsame, hcur⟩ := noteAdmitted_current hi hx
      exact ⟨hsame ▸ hissued, hcur⟩
    · exact ⟨(hi.current x hx).1.trans hissued, (hi.current x hx).2⟩
  · intro x hx
    rw [hnote] at hx
    rcases List.mem_append.mp hx with hx | hx
    · obtain ⟨kp, hkp, rfl⟩ := List.mem_map.mp hx
      exact (hsign kp (Option.mem_toList.mp hkp)).mono (hrel n)
    · exact (hi.signed x hx).mono (hrel n)

/-! ## Programs -/

theorem safe_gate {α : Type} {q : Prog α} (hq : q.Issues (Cmd.gate env r)) (hr : IsCall n r s)
    (hi : KeysKept s) : (keys env).Safe n q (fun _ _ => True) s :=
  Rely.safe_of_issues (F := IsCall n r) (fun _ _ hrel h => h.mono hrel)
    (fun _ _ _ _ _ hc hi hr hs => moves_step hr (sparesKeys_gate hc)
      (fun _ h => by rw [signer_gate hc] at h; cases h) hi hs) hq hi hr

theorem moves_idle {a : c.Ans} {res : c.Res} (hc : c.idle r) (hi : KeysKept s) (hr : IsCall n r s)
    (hs : (keyMachine env).step n c s a = some (res, s')) : (keys env).Moves s s' :=
  moves_step hr (sparesKeys_later hc.1) (fun _ h => by rw [hc.2] at h; cases h) hi hs

theorem safe_idle {α : Type} {q : Prog α} (hq : q.Issues (Cmd.idle r)) (hr : IsCall n r s)
    (hi : KeysKept s) : (keys env).Safe n q (fun _ _ => True) s :=
  Rely.safe_of_issues (F := IsCall n r) (fun _ _ hrel h => h.mono hrel)
    (fun _ _ _ _ _ hc hi hr hs => moves_idle hc hi hr hs) hq hi hr

/-- A request that may sign with a key pair does its part. -/
theorem safe_signsAs {α : Type} {q : Prog α} {kp : Keypair} (hq : q.Issues (Cmd.signsAs r kp))
    (hr : IsCall n r s) (hsign : MaySign s.1.2 s.2 n kp) (hi : KeysKept s) :
    (keys env).Safe n q (fun _ _ => True) s := by
  refine Rely.safe_of_issues (F := fun s : KeySt => IsCall n r s ∧ MaySign s.1.2 s.2 n kp)
    (fun _ _ hrel h => ⟨h.1.mono hrel, h.2.mono hrel⟩) ?_ hq hi ⟨hr, hsign⟩
  rintro c s a res s' hc hi ⟨hr, hsign⟩ hs
  exact moves_step hr (sparesKeys_later hc.1) (fun kp' h => hc.2 kp' h ▸ hsign) hi hs

/-- A string is read. -/
theorem safe_get {key : String} {Q : Option String → KeySt → Prop}
    (hr : IsCall n r s)
    (hQ : ∀ v s₁ s₂, (keys env).rel n s₁ s₂ → Q v s₁ → Q v s₂)
    (h : ∀ s₁ s₂ v, IsCall n r s₁ → KeysKept s₁ →
      s₂.2.admitted = noteAdmitted n r s₁.1.1.clock s₁.2.issued (.tryRedis (.get key)) (.ok v) ++
        s₁.2.admitted →
      s₂.2.wallets = noteWallet env n r (.tryRedis (.get key)) (.ok v) ++ s₁.2.wallets → Q v s₂)
    (hi : KeysKept s) : (keys env).Safe n (tryRedis (.get key)) Q s := by
  refine Rely.safe_bind (P := fun res s' => ∀ v, res = .ok v → Q v s') hi ?_ ?_
  · refine Rely.safe_wait rfl (fun res s₁ s₂ hrel hq v hv => hQ v _ _ hrel (hq v hv)) ?_
    intro s₁ h₁ hi₁ a res s₂ hs
    have hr₁ := hr.mono h₁
    have hidle : Cmd.idle r (.tryRedis (.get key)) := ⟨trivial, rfl⟩
    refine ⟨moves_idle hidle hi₁ hr₁ hs, ?_⟩
    rintro v rfl
    have hnote := (step_request hr₁ hs).2.2
    exact h s₁ s₂ v hr₁ hi₁ (by rw [hnote]; rfl) (by rw [hnote]; rfl)
  · intro res s₁ hi₁ hq
    cases res with
    | ok v => exact .ret (hq v rfl)
    | error e => exact .throw

/-- `validateApiKey` lets through only what is noted as such. -/
theorem safe_validateApiKey (hr : IsCall n r s) (hi : KeysKept s) :
    (keys env).Safe n (validateApiKey env r)
      (fun res s' => ∀ u, res = .ok u → u = r.user ∧ s'.2.LetIn n r) s := by
  have hspam : ∀ s, IsCall n r s → KeysKept s → (keys env).Safe n
      (do onSpam env; return .error forbidden : Prog (Except Answer String))
      (fun res s' => ∀ u, res = .ok u → u = r.user ∧ s'.2.LetIn n r) s := by
    intro s hr hi
    refine Rely.safe_bind hi (safe_idle (issues_onSpam idle_firewall) hr hi) fun _ _ _ _ => .ret ?_
    intro u hu
    cases hu
  unfold validateApiKey
  dsimp only
  split
  · exact hspam s hr hi
  next hgiven =>
    rw [not_or] at hgiven
    have hget : (keys env).Safe n (tryRedis (.get (apiKeyKey r.user)))
        (fun (v : Option String) (s' : KeySt) => v = some r.key → s'.2.LetIn n r) s := by
      refine safe_get hr ?_ ?_ hi
      · rintro v s₁ s₂ hrel h hv
        obtain ⟨a, ha, hcall⟩ := h hv
        exact ⟨a, hrel.2.1 ha, hcall⟩
      · rintro s₁ s₂ v hr₁ hi₁ hadmitted - rfl
        have hnote : noteAdmitted n r s₁.1.1.clock s₁.2.issued
            (.tryRedis (.get (apiKeyKey r.user))) (.ok (some r.key)) =
              [⟨n, r.user, r.key, s₁.1.1.clock, s₁.2.issued⟩] :=
          if_pos ⟨rfl, hgiven.1, hgiven.2, rfl⟩
        refine ⟨⟨n, r.user, r.key, s₁.1.1.clock, s₁.2.issued⟩, ?_, rfl, rfl, rfl⟩
        rw [hadmitted, hnote]
        exact List.mem_cons_self ..
    refine Rely.safe_bind hi (Rely.safe_rel hget) fun v s₁ hi₁ hv => ?_
    split
    · exact hspam s₁ (hr.mono hv.2) hi₁
    next hstored =>
      refine .ret fun u hu => ?_
      cases hu
      exact ⟨rfl, hv.1 (not_not.mp hstored)⟩

/-- A command that is noted nowhere and leaves Redis alone. -/
theorem moves_unlogged {a : c.Ans} {res : c.Res}
    (hnoted : ∀ r now res (m : KeyLog), m.noted env n r now c res = m)
    (hredis : ∀ st a, (exec .launcher c st a).2.redis = st.redis) (hi : KeysKept s)
    (hs : (keyMachine env).step n c s a = some (res, s')) : (keys env).Moves s s' := by
  obtain ⟨-, ev, hev, -, hex, hcalls, hnote⟩ := step_calls hs
  have hlog : s'.2 = s.2 := by
    refine hnote.trans ?_
    cases ev with
    | request r => simp only [keyObserver, hev, hnoted]
    | time => simp only [keyObserver, hev]
  have hst : s'.1.1.redis = s.1.1.redis := (Prod.mk.inj hex).2 ▸ hredis _ _
  refine ⟨⟨?_, ?_, ?_⟩, fun _ => ⟨hcalls ▸ List.prefix_rfl, ?_, ?_⟩⟩
  · rw [hst, hlog]
    exact hi.stored
  · rw [hlog]
    exact hi.current
  · rw [hlog, hcalls]
    exact hi.signed
  · rw [hlog]
    exact List.Subset.refl _
  · rw [hlog]
    exact List.Subset.refl _

/-- The key pair comes from the record of the user. -/
theorem safe_getUserKP (hr : IsCall n r s) (hi : KeysKept s) :
    (keys env).Safe n (await (getUserKP env r.user))
      (fun kp s' => (n, r.user, kp) ∈ s'.2.wallets) s := by
  have hget : (keys env).Safe n (tryRedis (.get (launchWalletKey (some r.user))))
      (fun (v : Option String) (s' : KeySt) => ∀ json kp, v = some json →
        readKeypair env (some json) = .ok kp → (n, r.user, kp) ∈ s'.2.wallets) s := by
    refine safe_get hr (fun v s₁ s₂ hrel h json kp hv hkp => hrel.2.2 (h json kp hv hkp)) ?_ hi
    rintro s₁ s₂ v hr₁ hi₁ - hwallets json kp rfl hkp
    have hnote : noteWallet env n r (.tryRedis (.get (launchWalletKey (some r.user))))
        (.ok (some json)) = [(n, r.user, kp)] := by
      simp only [noteWallet, if_true, hkp]
      rfl
    rw [hwallets, hnote]
    exact List.mem_cons_self ..
  refine safe_await_tick rfl (fun _ _ _ _ hi hs => moves_unlogged (fun _ _ _ _ => rfl) (fun _ _ => rfl) hi hs) hi
    (fun kp _ _ hrel h => hrel.2.2 h) ?_
  refine Rely.safe_bind hi (Rely.safe_rel hget) fun v s₁ hi₁ hv => ?_
  split
  · refine Rely.safe_bind hi₁ (safe_idle (issues_onError idle_firewall) (hr.mono hv.2) hi₁)
      fun _ _ _ _ => .throw
  next hjson =>
    cases v with
    | none => exact absurd rfl hjson
    | some json =>
        cases hkp : readKeypair env (some json) with
        | ok kp => exact .ret (hv.1 json kp rfl hkp)
        | error e => exact .throw

/-- A request that was let through signs with the key pair of its user. -/
theorem safe_endpoint (hr : IsCall n r s) (hlet : s.2.LetIn n r) (hi : KeysKept s)
    (body : Option Json) (e : Endpoint) :
    (keys env).Safe n (e.body env body r.user) (fun _ _ => True) s := by
  obtain ⟨key, rest, heq, hrest⟩ := @Endpoint.body_eq env r body r.user e
  rw [heq]
  refine Rely.safe_tryCatch_rel hi ?_ fun err s₁ h₁ hi₁ =>
    safe_idle (Prog.issues_bind (issues_onError idle_firewall) fun _ => .ret _) (hr.mono h₁) hi₁
  have hbody : (keys env).Safe n (requestBody body key) (fun _ _ => True) s :=
    safe_idle (issues_requestBody body key) hr hi
  refine Rely.safe_bind hi (Rely.safe_rel hbody) fun b s₁ hi₁ h₁ => ?_
  have hr₁ := hr.mono h₁.2
  refine Rely.safe_bind hi₁ (Rely.safe_rel (safe_getUserKP hr₁ hi₁)) fun kp s₂ hi₂ h₂ => ?_
  have hlet₂ : s₂.2.LetIn n r := by
    obtain ⟨a, ha, hcall⟩ := hlet
    exact ⟨a, h₂.2.2.1 (h₁.2.2.1 ha), hcall⟩
  exact safe_signsAs (hrest b kp) (hr₁.mono h₂.2) ⟨r, hr₁.mono h₂.2, hlet₂, h₂.1⟩ hi₂

/-- Everything behind the API key. -/
theorem safe_behindKey (hr : IsCall n r s) (hi : KeysKept s) (route : Option LauncherRoute) :
    (keys env).Safe n (behindKey env r route) (fun _ _ => True) s := by
  refine Rely.safe_bind hi (Rely.safe_rel (safe_validateApiKey hr hi)) fun res s₁ hi₁ h₁ => ?_
  cases res with
  | error answer => exact .ret trivial
  | ok u =>
      obtain ⟨rfl, hlet⟩ := h₁.1 u rfl
      dsimp only
      split
      · exact safe_endpoint (hr.mono h₁.2) hlet hi₁ _ _
      · exact .ret trivial

theorem safe_afterCaptcha (hr : IsCall n r s) (hi : KeysKept s) {rest : Prog Answer}
    (hrest : ∀ s, IsCall n r s → KeysKept s → (keys env).Safe n rest (fun _ _ => True) s) :
    (keys env).Safe n (afterCaptcha env r rest) (fun _ _ => True) s := by
  have hgate : (keys env).Safe n (captchaMiddleware env r) (fun _ _ => True) s :=
    safe_gate (issues_captchaMiddleware fun _ hc => hc) hr hi
  refine Rely.safe_bind hi (Rely.safe_rel hgate) fun answer s₁ hi₁ h₁ => ?_
  cases answer with
  | some answer => exact .ret trivial
  | none => exact hrest s₁ (hr.mono h₁.2) hi₁

theorem safe_request (hr : IsCall n r s) (hi : KeysKept s) :
    (keys env).Safe n (onLauncherRequest env r) (fun _ _ => True) s := by
  have hanswer : (keys env).Safe n (launcherAnswer env r) (fun _ _ => True) s := by
    refine Rely.safe_tryCatch_rel hi ?_ fun err s₁ h₁ hi₁ =>
      safe_idle (Prog.issues_bind (issues_onError idle_firewall) fun _ => .ret _) (hr.mono h₁) hi₁
    split
    · exact .ret trivial
    · split
      · exact .throw
      · split
        · exact safe_afterCaptcha hr hi fun _ hr hi => safe_idle (idle_getApiKey r) hr hi
        · exact safe_idle (idle_getToken _) hr hi
        · exact safe_afterCaptcha hr hi fun _ hr hi => safe_behindKey hr hi _
  refine Rely.safe_bind hi (Rely.safe_rel hanswer) fun answer s₁ hi₁ h₁ => ?_
  exact safe_idle (issues_ask ⟨trivial, rfl⟩) (hr.mono h₁.2) hi₁

end

/-! ## Runs -/

/-- No key has been given out, and nothing has happened. -/
def KeysStarted (s : KeySt) : Prop :=
  (∀ u, s.1.1.redis.strings (apiKeyKey u) = none) ∧ s.1.2 = [] ∧ s.2 = .empty

theorem keysKept {env : Env} {w : World (keyMachine env)}
    (hw : (keyMachine env).Reach KeysStarted w) : KeysKept w.st := by
  refine Rely.reach_inv (R := keys env) ?_ ?_ ?_ ?_ hw
  · rintro ⟨⟨st, calls⟩, log⟩ ⟨hstrings, -, hlog⟩
    cases hlog
    exact ⟨hstrings, by simp, by simp⟩
  · rintro ⟨n, ev⟩ s s' hi he
    obtain ⟨-, -, hst, hcalls, hlog⟩ := enter_calls he
    have hst : s.1.1 = s'.1.1 := Option.some.inj hst
    have hrel : ∀ p, (keys env).rel p s s' := fun _ => by
      refine ⟨hcalls ▸ List.prefix_append _ _, ?_, ?_⟩
      · rw [hlog]; exact List.Subset.refl _
      · rw [hlog]; exact List.Subset.refl _
    refine ⟨⟨?_, ?_, fun x hx => ?_⟩, hrel⟩
    · rw [← hst, hlog]
      exact hi.stored
    · rw [hlog]
      exact hi.current
    · exact (hi.signed x (hlog ▸ hx)).mono (hrel x.1)
  · rintro ⟨n, ev⟩ s s' he hi s'' hrel hi''
    obtain ⟨-, hn, -, hcalls, -⟩ := enter_calls he
    cases ev with
    | request r =>
        have hr : IsCall n r s' := by
          unfold IsCall
          rw [hcalls, show n = s.1.2.length from hn]
          exact List.getElem?_concat_length
        exact safe_request (hr.mono hrel) hi''
    | time =>
        refine Rely.safe_bind hi'' (Rely.safe_ask hi'' fun _ _ _ _ hi hs => ?_) fun _ _ _ _ =>
          .ret trivial
        exact moves_unlogged (fun _ _ _ _ => rfl) (fun _ _ => rfl) hi hs
  · exact fun p s hi => ⟨hi, fun q _ => (keys env).rel_refl q s⟩

/-! ## The check of a key -/

section

variable (env : Env) (r : LauncherRequest)

/-- A request that is past the captcha gate. -/
def keyCheck (e : Endpoint) : Prog Unit := responding env (behindKey env r (some (.endpoint e)))

/-- The handler runs, for the user of the request. -/
def handling (e : Endpoint) : Prog Unit := responding env (e.body env r.body r.user)

/-- The request is refused. -/
def refused : Prog Unit := responding env do
  onSpam env
  return forbidden

/-- The gate answers itself, or passes the request on. -/
def gated (rest : Prog Unit) : Option Answer → Prog Unit
  | some answer => ask (.respond answer.1 answer.2)
  | none => rest

/-- A request for an endpoint goes through the gate and then to the check of its key. -/
theorem onLauncherRequest_eq {e : Endpoint} (hmethod : r.method ≠ .options)
    (hbody : r.malformed = none) (hroute : launcherRoute r.method r.path = some (.endpoint e)) :
    onLauncherRequest env r = (captchaMiddleware env r).bind (gated (keyCheck env r e)) := by
  have hanswer : launcherAnswer env r =
      endpoint env (afterCaptcha env r (behindKey env r (some (.endpoint e)))) := by
    unfold launcherAnswer
    rw [if_neg hmethod, hbody, hroute]
  unfold onLauncherRequest
  rw [hanswer]
  refine (congrArg (Prog.bind · _) (Prog.tryCatch_bind_tryCatch (fun _ => rfl) _)).trans ?_
  refine (Prog.bind_assoc' _ _ _).trans (congrArg _ (funext fun answer => ?_))
  cases answer with
  | some answer => rfl
  | none => rfl

/-- The handler gets the user the key belongs to. -/
theorem behindKey_eq (e : Endpoint) : ∃ f : Except Answer String → Prog Answer,
    behindKey env r (some (.endpoint e)) = (validateApiKey env r).bind f ∧
    (∀ answer, f (.error answer) = .ret answer) ∧ ∀ u, f (.ok u) = e.body env r.body u :=
  ⟨_, rfl, fun _ => rfl, fun _ => rfl⟩

variable {env r}

/-- Without a user or a key there is nothing to check. -/
theorem keyCheck_missing (h : r.user = "" ∨ r.key = "") (e : Endpoint) :
    keyCheck env r e = refused env := by
  have hv : validateApiKey env r = do
      onSpam env
      return .error forbidden := if_pos h
  obtain ⟨f, hf, herror, -⟩ := behindKey_eq env r e
  unfold keyCheck
  rw [hf, hv]
  exact congrArg (fun answer => responding env ((onSpam env).bind fun _ => answer))
    (herror forbidden)

/-- Otherwise the request waits for what is stored under the name of its user. -/
theorem keyCheck_given (h : ¬(r.user = "" ∨ r.key = "")) (e : Endpoint) :
    ∃ k : Except Err (Option String) → Prog Unit,
      keyCheck env r e = .call (.tryRedis (.get (apiKeyKey r.user))) k ∧
      ∀ stored, k (.ok stored) = if stored = some r.key then handling env r e else refused env := by
  have hv : validateApiKey env r = (tryRedis (.get (apiKeyKey r.user))).bind fun stored =>
      if stored ≠ some r.key then do
        onSpam env
        return .error forbidden
      else
        return .ok r.user := if_neg h
  obtain ⟨f, hf, herror, hok⟩ := behindKey_eq env r e
  unfold keyCheck
  rw [hf, hv]
  refine ⟨_, rfl, fun stored => ?_⟩
  change responding env (Prog.bind (if stored ≠ some r.key then _ else _) f) = _
  split
  next hs =>
    exact congrArg (fun answer => responding env ((onSpam env).bind fun _ => answer))
      (herror forbidden)
  next hs =>
    rw [if_pos (not_not.mp hs)]
    exact congrArg (responding env) (hok r.user)

/-- What the check finds is the current key of the user. -/
theorem reply_keyCheck {w w' : World (keyMachine env)} (hi : KeysKept w.st) {i n : Nat}
    {e : Endpoint} {ans : (c : Cmd) → c.Ans} (hgiven : ¬(r.user = "" ∨ r.key = ""))
    (htask : w.pool[i]? = some ⟨(n, .request r), keyCheck env r e, false⟩)
    (hans : ans (.tryRedis (.get (apiKeyKey r.user))) = none)
    (hstep : Machine.next w (.reply i ans) = some w') :
    w'.pool[i]? = some ⟨(n, .request r),
      if currentKey w.st.2.issued r.user w.st.1.1.clock = some r.key then handling env r e
      else refused env, true⟩ := by
  obtain ⟨k, hk, hcont⟩ := @keyCheck_given env r hgiven e
  rw [hk] at htask
  obtain ⟨res, st, hs, htask'⟩ := Machine.next_reply htask hstep
  obtain ⟨-, ev, -, -, hex, -, -⟩ := step_calls hs
  have hres : res = .ok (currentKey w.st.2.issued r.user w.st.1.1.clock) := by
    rw [← hi.string, ← (Prod.mk.inj hex).1, hans]
    rfl
  rw [htask', hres, hcont]

theorem unsigned_refused : (refused env).Issues Cmd.unsigned :=
  Prog.issues_bind
    (issues_endpoint (fun _ => unsigned_firewall)
      (Prog.issues_bind (issues_onSpam fun _ => unsigned_firewall) fun _ => .ret _))
    fun _ => issues_ask rfl

end

/-- In every run of the server a request for an endpoint goes through the captcha gate and then to
the check of its key.  Without a user or a key it is refused.  If Redis answers, it is handled if
its key is the current one of the user it names, and refused otherwise.  A refused request signs
nothing.  Whoever was let in had the current key, and every signature is made for a call that was
let in, with the key pair from the record of the user the call names. -/
theorem keys_admit_current {env : Env} {w : World (keyMachine env)}
    (hw : (keyMachine env).Reach KeysStarted w) :
    (∀ r e, r.method ≠ .options → r.malformed = none →
      launcherRoute r.method r.path = some (.endpoint e) →
      onLauncherRequest env r = (captchaMiddleware env r).bind (gated (keyCheck env r e))) ∧
    (∀ r e, r.user = "" ∨ r.key = "" → keyCheck env r e = refused env) ∧
    (∀ i n r e ans w', r.user ≠ "" → r.key ≠ "" →
      w.pool[i]? = some ⟨(n, .request r), keyCheck env r e, false⟩ →
      ans (.tryRedis (.get (apiKeyKey r.user))) = none →
      Machine.next w (.reply i ans) = some w' →
      w'.pool[i]? = some ⟨(n, .request r),
        if currentKey w.st.2.issued r.user w.st.1.1.clock = some r.key then handling env r e
        else refused env, true⟩) ∧
    (refused env).Issues Cmd.unsigned ∧
    (∀ a ∈ w.st.2.admitted,
      a.issued <:+ w.st.2.issued ∧ currentKey a.issued a.user a.time = some a.key) ∧
    ∀ x ∈ w.st.2.signed, MaySign w.st.1.2 w.st.2 x.1 x.2 := by
  have hi := keysKept hw
  refine ⟨fun r e => onLauncherRequest_eq env r, fun r e h => keyCheck_missing h e, ?_,
    unsigned_refused, hi.current, hi.signed⟩
  intro i n r e ans w' huser hkey htask hans hstep
  exact reply_keyCheck hi (not_or.mpr ⟨huser, hkey⟩) htask hans hstep

namespace Sample

/-- A request of `alice`. -/
def aliceRequest (path : String) (body : Json) (key : Str) : LauncherRequest where
  method := .post
  path := path
  ip := "1.2.3.4"
  malformed := none
  xCaptchaToken := some "t"
  xUserId := some "alice"
  xApiKey := key
  body := some body

/-- Captchas are solved, and a mint can be created. -/
def admitting : (c : Cmd) → c.Ans
  | .fetch _ => .ok ⟨true, "OK", "\x7b\"success\":true,\"score\":1\x7d"⟩
  | .createMint _ _ => .ok bob.publicKey
  | c => offline c

/-- `alice` asks for a key and then for a token. -/
def keyRun : List (keyMachine env).Choice :=
  serve (keyMachine env) admitting
      (0, .request (aliceRequest "/get-api-key" (.obj [("userId", .str "alice")]) none)) 0 6 ++
    serve (keyMachine env) admitting
      (1, .request (aliceRequest "/create-token" (.obj [])
        (some (Hex.encode (List.replicate 32 0))))) 1 8

/-- `alice` is let in, and what is signed then is signed with their key pair. -/
theorem keys_admit_current_alice :
    ∃ w, (keyMachine env).Reach KeysStarted w ∧ w.st.2.admitted.map (·.user) = ["alice"] ∧
      w.st.2.signed ≠ [] ∧ ∀ x ∈ w.st.2.signed, MaySign w.st.1.2 w.st.2 x.1 x.2 := by
  have hstart : KeysStarted ((imported, []), .empty) := by
    refine ⟨fun u => ?_, rfl, rfl⟩
    have hkey : apiKeyKey u ≠ "wallet:alice" := fun h => by
      have := congrArg (fun s => s.toList.head?) h
      simp [apiKeyKey] at this
    simp [imported, hkey]
  have hrun : (Machine.nexts (M := keyMachine env) ⟨((imported, []), .empty), [], []⟩ keyRun).any
      (fun w => w.st.2.admitted.map (·.user) = ["alice"] ∧ w.st.2.signed.length = 1) = true := by
    decide +kernel
  obtain ⟨w, hreach, hw⟩ := Machine.Reach.of_run hstart hrun
  obtain ⟨hin, hsigned⟩ := of_decide_eq_true hw
  refine ⟨w, hreach, hin, ?_, (keys_admit_current hreach).2.2.2.2.2⟩
  intro h
  rw [h] at hsigned
  cases hsigned

end Sample

end Nexus
