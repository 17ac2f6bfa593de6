import NexusErebus.Buttons

/-!
# Accounts and records

A user of the agent is an account of a platform.  The agent knows records, one for each handle.
This module asks which record serves which account.

An account reaches the system in one of four ways (`Way`), and each way makes its own handle of
the username (`Visit.handle`).  Telegram keeps the username, and a quick trade drops it.  A
message from Twitter lowers its letters.  A session of the API lowers them too and puts an `@`
before them, and says nothing about the platform.  `reaches_record` says that the programs work
on that record and no other.  `record_eq_iff_account_eq` says for which pairs of visits records
and accounts agree.
-/

namespace Nexus

open Async Text

/-! ## Visits -/

/-- The platforms. -/
inductive Platform where
  | telegram | twitter
  deriving DecidableEq, Repr

/-- The `method` of a platform in a request for a token. -/
def Platform.method : Platform → String
  | .telegram => "telegram"
  | .twitter => "twitter"

/-- The ways into the system. -/
inductive Way where
  | text
  | button (a : Action)
  | tweet
  | session (p : Platform)

/-- An account that reaches the system on some way. -/
structure Visit where
  way : Way
  username : String
  ne_empty : username ≠ ""
  word : ∀ c ∈ username.toList, isWord c = true

namespace Visit

/-- The platform of the account. -/
def platform (v : Visit) : Platform :=
  match v.way with
  | .text | .button _ => .telegram
  | .tweet => .twitter
  | .session p => p

/-- The account.  The case of the letters does not matter. -/
def account (v : Visit) : Platform × String := (v.platform, toLowerCase v.username)

/-- What a way makes of the username. -/
def handle (v : Visit) : Str :=
  match v.way with
  | .text => some v.username
  | .button a => if a.quick then none else some v.username
  | .tweet => some (toLowerCase v.username)
  | .session _ => some ("@" ++ toLowerCase v.username)

/-- The record that serves a visit. -/
def record (v : Visit) : String := userKey v.handle

end Visit

/-- The events by which an account reaches the system.  The buttons it presses are its own, and
its session is one that `POST /auth` has given a token to. -/
inductive Reaches (env : Env) : Visit → Ev → Prop where
  | text {v : Visit} {sender : TgAccount} {chat : Chat} {said : String} {hasMention : Bool}
      (hway : v.way = .text) (hsender : sender.username = some v.username) :
      Reaches env v (.telegram (.text sender chat said hasMention))
  | button {v : Visit} {a : Action} {sender : TgAccount} {chat : Chat} {msgId : Nat}
      {actionId time : String} (hway : v.way = .button a)
      (hsender : sender.username = some v.username) (hid : Action.ofId actionId = some a) :
      Reaches env v (.telegram (.press sender chat msgId (cbData actionId (some v.username)) time))
  | tweet {v : Visit} {said : String} (hway : v.way = .tweet) :
      Reaches env v (.tweet v.username said)
  | session {v : Visit} {p : Platform} {body : Option Json} {handle : String} {t₁ t₂ t₃ : Nat}
      {r : ApiRequest} (hway : v.way = .session p) (hhandle : handle = "@" ++ v.username)
      (hbody : schemaAuth body = some (handle, p.method))
      (hr : r.authorization = some ("Bearer " ++ signToken env (toLowerCase handle) t₁ t₂ t₃)) :
      Reaches env v (.request r)

/-! ## Programs and records -/

/-- The command is about no record but one. -/
def OnRecord (key : String) (c : Cmd) : Prop := ∀ h, c.about = some h → userKey h = key

theorem onRecord_of_own {u : String} {c : Cmd} (hc : Own u c) : OnRecord (userKey (some u)) c :=
  fun h ha => by rw [hc h ha]

/-- What is closed under the rules and about one handle stays on its record. -/
theorem onRecord_issues {α : Type} {u : String} {q : Prog α} (hq : q.Issues (Own u)) :
    q.Issues (OnRecord (userKey (some u))) :=
  Prog.issues_mono (fun _ => onRecord_of_own) hq

theorem own_message (env : Env) {u : String} {m : Message} (hm : m.handle = some u) :
    (handleMessage env m).Issues (Own u) :=
  closed_handleMessage (Prog.closed_issues (Own u)) (fun _ hc => issues_ask (own_plain hc))
    (own_ensure env u) (own_walletOf env u) hm

/-- A quick trade makes a job without a handle. -/
theorem onRecord_quickTrade (env : Env) (side : Side) (handle : Str) {act : String}
    (hact : buttonAct (quickTrade act handle).button = some (.trade side (some solMint))) :
    (handleMessage env (quickTrade act handle)).Issues (OnRecord (userKey none)) := by
  unfold handleMessage
  rw [hact]
  have htick : OnRecord (userKey none) .tick := fun _ ha => by cases ha
  refine Prog.issues_bind (issues_await htick (issues_ask fun h ha => ?_)) fun _ => .ret ()
  rw [← Option.some.inj ha]
  rfl

theorem onRecord_act_quick (env : Env) (chat : Chat) (msgId : Nat) (name time : String)
    (handle : Str) {a : Action} (ha : a.quick = true) :
    (act env chat msgId name time handle a).Issues (OnRecord (userKey none)) := by
  -- edits of messages are about no record
  have hedit : ∀ text menu,
      (await (editOrReply chat msgId text menu)).Issues (OnRecord (userKey none)) := fun text menu =>
    onRecord_issues (u := "undefined") (Prog.issues_mono (fun _ hc => own_plain (plain_of_errand hc))
      (errand_await (errand_editOrReply chat msgId text menu)))
  cases a with
  | quickBuy =>
      exact Prog.issues_bind (hedit _ _) fun _ =>
        onRecord_quickTrade env .buy handle (buttonAct_quickTrade handle).1
  | quickSell =>
      exact Prog.issues_bind (hedit _ _) fun _ =>
        onRecord_quickTrade env .sell handle (buttonAct_quickTrade handle).2
  | _ => cases ha

theorem colon_notMem {u : String} (hu : ∀ c ∈ u.toList, isWord c = true) : ':' ∉ u.toList :=
  fun hc => absurd (hu _ hc) (by decide)

/-- A button is read back. -/
theorem readData_cbData {actionId u : String} {a : Action} (hid : Action.ofId actionId = some a)
    (hu : ∀ c ∈ u.toList, isWord c = true) :
    readData (cbData actionId (some u)) = (some a, some u) := by
  have hsep : ":".toList = ':' :: [] := rfl
  have hcolon : ':' ∉ actionId.toList := by
    obtain ⟨l₁, l₂, hl, -⟩ := List.lookup_eq_some_iff.mp hid
    have hall : ∀ kv ∈ l₁ ++ (actionId, a) :: l₂, ':' ∉ kv.1.toList := by
      rw [← hl]
      decide
    exact hall (actionId, a) (List.mem_append_right _ (List.mem_cons_self ..))
  have hparts : split ":" (cbData actionId (some u)) = [actionId, u] := by
    have h := split_append hsep actionId u hcolon
    rw [split_of_notMem hsep u (colon_notMem hu)] at h
    rw [← h, cbData, Str.text_some, String.append_assoc]
  simp only [readData, hparts, List.getElem?_cons_zero, List.getElem?_cons_succ,
    Option.bind_some, hid]

/-- A request with a token is about the record of the handle in the token. -/
theorem onRecord_request (env : Env) {r : ApiRequest} {handle : String} {t₁ t₂ t₃ : Nat}
    (hr : r.authorization = some ("Bearer " ++ signToken env handle t₁ t₂ t₃)) :
    (onRequest env r).Issues (OnRecord (userKey (some handle))) := by
  have hplain : ∀ {α : Type} {q : Prog α}, q.Issues (Cmd.plain (some handle)) →
      q.Issues (OnRecord (userKey (some handle))) :=
    fun hq => onRecord_issues (Prog.issues_mono (fun _ => own_plain) hq)
  have hnone : ∀ {c : Cmd}, c.about = none → OnRecord (userKey (some handle)) c :=
    fun hc _ ha => by rw [hc] at ha; cases ha
  have hT := Prog.closed_issues (S := sig) (ε := Err) (OnRecord (userKey (some handle)))
  have hpayload : tokenPayload (signToken env handle t₁ t₂ t₃) = payload handle t₁ t₂ := by
    rw [tokenPayload, split_signToken]
    rfl
  have hissue : ∀ h, (issueToken env h).Issues (OnRecord (userKey (some handle))) := fun h =>
    Prog.issues_bind (issues_ask (hnone rfl)) fun _ => Prog.issues_bind (issues_ask (hnone rfl))
      fun _ => Prog.issues_bind (issues_ask (hnone rfl)) fun _ =>
        Prog.issues_bind (issues_ask (hnone rfl)) fun _ => .ret _
  have hask : ∀ c : Cmd, c.plain (some handle) →
      (ask c).Issues (OnRecord (userKey (some handle))) := fun _ hc => hplain (issues_ask hc)
  refine closed_onRequest hT hask r hissue ?_
  unfold protectedRoute auth
  rw [hr, bearer_token]
  dsimp only
  split
  next => exact .ret _
  next =>
    refine .call (hnone rfl) fun now => ?_
    simp only [Prog.ret_bind]
    cases hv : verifyToken env (signToken env handle t₁ t₂ t₃) now with
    | error e => exact .ret _
    | ok user =>
        obtain ⟨rfl, -⟩ := of_verifyToken hv hpayload
        refine .call (hnone rfl) fun _ => ?_
        simp only [Prog.ret_bind, Prog.pure_eq]
        refine Prog.issues_bind (closed_csrfProtection hT hask r) fun passed => ?_
        split
        · exact .ret _
        · split
          · exact .ret _
          · split
            · exact .ret _
            · refine Prog.issues_bind (issues_ask (hnone rfl)) fun _ =>
                Prog.issues_tryCatch ?_ fun _ => .ret _
              exact closed_handler hT hask (onRecord_issues (own_ensure env handle))
                (onRecord_issues (own_walletOf env handle)) r _

/-- The program of an event by which an account reaches the system works on the record of the
visit. -/
theorem reaches_record {env : Env} {v : Visit} {ev : Ev} (h : Reaches env v ev) :
    (ev.body env).Issues (OnRecord v.record) := by
  cases h with
  | @text sender chat said hasMention hway hsender =>
      have hhandle : sender.handle = v.username := by simp [TgAccount.handle, hsender]
      have hrecord : v.record = userKey (some sender.handle) := by
        simp [Visit.record, Visit.handle, hway, hhandle]
      rw [hrecord]
      exact onRecord_issues (closed_onText (Prog.closed_issues (Own sender.handle))
        (fun _ hc => issues_ask (own_plain hc)) (own_ensure env _) (own_walletOf env _) rfl chat
        said hasMention)
  | @button a sender chat msgId actionId time hway hsender hid =>
      have hhandle : sender.handle = v.username := by simp [TgAccount.handle, hsender]
      change (onCallback env sender chat msgId (cbData actionId (some v.username)) time).Issues _
      rw [onCallback, readData_cbData hid v.word]
      cases hquick : a.quick with
      | false =>
          have hrecord : v.record = userKey (some sender.handle) := by
            simp [Visit.record, Visit.handle, hway, hquick, hhandle]
          rw [hrecord]
          refine onRecord_issues (own_onAction env sender chat msgId time ?_)
          simp [ownAction, hquick, hhandle]
      | true =>
          have hrecord : v.record = userKey none := by
            simp [Visit.record, Visit.handle, hway, hquick]
          rw [hrecord]
          refine Prog.issues_bind (issues_ask fun _ ha => by cases ha) fun _ => ?_
          refine Prog.issues_bind (Prog.issues_outcome
            (issues_attempt (issues_ask fun _ ha => by cases ha))) fun _ => ?_
          exact onRecord_act_quick env chat msgId _ time _ hquick
  | @tweet said hway =>
      have hrecord : v.record = userKey (some (toLowerCase v.username)) := by
        simp [Visit.record, Visit.handle, hway]
      rw [hrecord]
      exact onRecord_issues (own_message env (m := tweetMessage v.username said) rfl)
  | @session p body handle t₁ t₂ t₃ r hway hhandle hbody hr =>
      have hlower : toLowerCase handle = "@" ++ toLowerCase v.username := by
        simp [hhandle, toLowerCase]
      have hrecord : v.record = userKey (some (toLowerCase handle)) := by
        simp [Visit.record, Visit.handle, hway, hlower]
      rw [hrecord]
      exact onRecord_request env hr

/-! ## Records and accounts -/

/-- What becomes of the username. -/
inductive Form where
  | kept | dropped | lowered | marked
  deriving DecidableEq, Repr

def Way.form : Way → Form
  | .text => .kept
  | .button a => if a.quick then .dropped else .kept
  | .tweet => .lowered
  | .session _ => .marked

namespace Visit

/-- The pairs of visits for which records and accounts agree.  A session has the record of no
other way, and does not tell the platforms apart.  Telegram tells cases apart, and its usernames
may be those of Twitter.  All quick trades have one record. -/
def Agree (v w : Visit) : Prop :=
  match v.way.form, w.way.form with
  | .marked, .marked => v.platform = w.platform ∨ toLowerCase v.username ≠ toLowerCase w.username
  | .marked, _ | _, .marked => v.account ≠ w.account
  | .lowered, .lowered => True
  | .kept, .kept => v.username = w.username ∨ toLowerCase v.username ≠ toLowerCase w.username
  | .kept, .lowered => v.username ≠ toLowerCase w.username
  | .lowered, .kept => w.username ≠ toLowerCase v.username
  | .dropped, .dropped => v.account = w.account
  | .dropped, .kept => w.username = "undefined" ↔ v.account = w.account
  | .kept, .dropped => v.username = "undefined" ↔ v.account = w.account
  | .dropped, .lowered => toLowerCase w.username ≠ "undefined"
  | .lowered, .dropped => toLowerCase v.username ≠ "undefined"

theorem record_eq_iff (v w : Visit) : v.record = w.record ↔ v.handle.text = w.handle.text := by
  simp [record, userKey]

theorem text_handle (v : Visit) : v.handle.text =
    match v.way.form with
    | .kept => v.username
    | .dropped => "undefined"
    | .lowered => toLowerCase v.username
    | .marked => "@" ++ toLowerCase v.username := by
  cases hw : v.way with
  | button a =>
      cases hq : a.quick with
      | true => simp [handle, Way.form, hw, hq, Str.text]
      | false => simp [handle, Way.form, hw, hq]
  | _ => simp [handle, Way.form, hw]

/-- The platform is known, but for a session. -/
theorem platform_eq (v : Visit) :
    match v.way.form with
    | .kept | .dropped => v.platform = .telegram
    | .lowered => v.platform = .twitter
    | .marked => True := by
  cases hw : v.way with
  | button a =>
      cases hq : a.quick with
      | true => simp [platform, Way.form, hw, hq]
      | false => simp [platform, Way.form, hw, hq]
  | _ => simp [platform, Way.form, hw]

theorem ne_marked {u : String} (hu : ∀ c ∈ u.toList, isWord c = true) (x : String) :
    u ≠ "@" ++ x := by
  rintro rfl
  exact absurd (hu '@' (by simp)) (by decide)

theorem word_toLowerCase {u : String} (hu : ∀ c ∈ u.toList, isWord c = true) :
    ∀ c ∈ (toLowerCase u).toList, isWord c = true := by
  intro c hc
  simp only [toLowerCase, String.toList_ofList, List.mem_map] at hc
  obtain ⟨c', hc', rfl⟩ := hc
  have hw := hu c' hc'
  unfold Char.toLower
  split
  next hupper =>
    have hA : 65 ≤ c'.val.toNat := UInt32.le_iff_toNat_le.mp hupper.1
    have hZ : c'.val.toNat ≤ 90 := UInt32.le_iff_toNat_le.mp hupper.2
    have hval : (c'.val + ('a'.val - 'A'.val)).toNat = c'.val.toNat + 32 :=
      (UInt32.toNat_add _ _).trans (Nat.mod_eq_of_lt (show c'.val.toNat + 32 < 2 ^ 32 by omega))
    have ha : 'a'.val ≤ c'.val + ('a'.val - 'A'.val) :=
      UInt32.le_iff_toNat_le.mpr (show 97 ≤ _ by omega)
    have hz : c'.val + ('a'.val - 'A'.val) ≤ 'z'.val :=
      UInt32.le_iff_toNat_le.mpr (show _ ≤ 122 by omega)
    have hlower : ∀ hvalid, Char.isLower ⟨c'.val + ('a'.val - 'A'.val), hvalid⟩ = true := fun _ =>
      Bool.and_eq_true_iff.mpr ⟨decide_eq_true ha, decide_eq_true hz⟩
    -- a lower-case letter is a letter, and so a word character
    refine Bool.or_eq_true_iff.mpr (.inl (Bool.or_eq_true_iff.mpr (.inl ?_)))
    exact Bool.or_eq_true_iff.mpr (.inr (hlower _))
  next => exact hw

end Visit

/-- The programs stay on the record of the visit.  The records of two visits are equal exactly if
the accounts are, for the pairs that agree and no others. -/
theorem record_eq_iff_account_eq (env : Env) :
    (∀ v ev, Reaches env v ev → (ev.body env).Issues (OnRecord v.record)) ∧
      ∀ v w : Visit, (v.record = w.record ↔ v.account = w.account) ↔ v.Agree w := by
  refine ⟨fun v ev => reaches_record, fun v w => ?_⟩
  have hv := v.platform_eq
  have hw := w.platform_eq
  have hmark := fun x => Visit.ne_marked v.word x
  have hmark' := fun x => Visit.ne_marked w.word x
  have hlow := fun x => Visit.ne_marked (Visit.word_toLowerCase v.word) x
  have hlow' := fun x => Visit.ne_marked (Visit.word_toLowerCase w.word) x
  have hundef := fun x => Visit.ne_marked (u := "undefined") (List.all_eq_true.mp (by decide)) x
  rw [Visit.record_eq_iff, Visit.text_handle, Visit.text_handle, Visit.Agree]
  have hat : ∀ x y : String, "@" ++ x = "@" ++ y ↔ x = y := fun x y => by simp
  simp only [Visit.account, Prod.mk.injEq]
  -- for each pair of forms the facts above decide both sides
  cases hf : v.way.form <;> cases hg : w.way.form <;> simp only [hf, hg, hat] at hv hw ⊢ <;> grind

/-- `alice` on some way. -/
def Sample.aliceVisit (way : Way) : Visit :=
  ⟨way, "alice", by decide, List.all_eq_true.mp (by decide)⟩

/-- One account has two records, by Telegram and by its session.  And two accounts have one, by
their sessions. -/
theorem record_split_and_shared :
    ((Sample.aliceVisit .text).account = (Sample.aliceVisit (.session .telegram)).account ∧
        (Sample.aliceVisit .text).record ≠ (Sample.aliceVisit (.session .telegram)).record) ∧
      (Sample.aliceVisit (.session .twitter)).account ≠
          (Sample.aliceVisit (.session .telegram)).account ∧
        (Sample.aliceVisit (.session .twitter)).record =
          (Sample.aliceVisit (.session .telegram)).record := by
  refine ⟨⟨rfl, ?_⟩, ?_, rfl⟩
  · decide
  · decide

end Nexus
