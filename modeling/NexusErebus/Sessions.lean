import NexusErebus.Footprint

/-!
# Sessions of the API

A handler behind `auth` runs for the user of a token.  This module asks whether that user
always has a token that was signed for them within the last two hours.

The requests are arbitrary, and so are the headers.  The one assumption is on the run: a tag is
found right for a payload and a day only if `signToken` made it for that payload and day
(`idealMac`).  Then every handler runs for a user with a live token (`handler_live`).  The key
is chosen by the payload before the tag is checked, and nothing but the payload is signed, so
the argument is about payloads: one that was signed says whose it is and when it ends.
-/

namespace Nexus

open Async Text

section

variable (env : Env)

/-- Some call of `signToken` made the tag of a payload under the key of a day. -/
def tagMade (log : List ApiNote) (day : Number) (pl : String) : Bool :=
  log.any fun
    | .signed handle expTime iatTime dayTime =>
        payload handle expTime iatTime = pl &&
          dayText (some (dayTime / 86400000 : Nat)) = dayText day
    | _ => false

/-- A tag is right only if it was made. -/
def idealMac (_ : Pid) (c : Cmd) (st : St) : Bool :=
  match c with
  | .apiNote (.verified day pl) => tagMade st.apiLog day pl
  | _ => true

/-- The runs in which no tag is forged. -/
def idealMachine : Machine sig Err := (machine env).guarded (fun _ _ => true) idealMac

/-- A token was signed for the user, not later than the time and at most two hours before. -/
def Live (log : List ApiNote) (user : Json) (t : Nat) : Prop :=
  ∃ handle t₀ t₁ t₂, .signed handle t₀ t₁ t₂ ∈ log ∧ user = .str handle ∧ t₀ ≤ t ∧
    t ≤ t₀ + 7200 * 1000

/-- Every handler had a live token when it was noted, and no token was signed in the future.
A process relies on the log and the clock, which only grow. -/
def sessions : Rely (idealMachine env) where
  inv st :=
    (∀ log user t, log ++ [.handled user t] <+: st.apiLog → Live log user t) ∧
      ∀ handle t₀ t₁ t₂, .signed handle t₀ t₁ t₂ ∈ st.apiLog → t₀ ≤ st.clock
  rel _ st st' := st.apiLog <+: st'.apiLog ∧ st.clock ≤ st'.clock
  rel_refl _ _ := ⟨List.prefix_rfl, le_rfl⟩
  rel_trans h₁ h₂ := ⟨h₁.1.trans h₂.1, h₁.2.trans h₂.2⟩

end

section

variable {env : Env} {st st' : St} {p : Pid}

theorem Live.mono {log log' : List ApiNote} {user : Json} {t : Nat} (h : Live log user t)
    (hl : log <+: log') : Live log' user t := by
  obtain ⟨handle, t₀, t₁, t₂, hmem, hrest⟩ := h
  exact ⟨handle, t₀, t₁, t₂, hl.subset hmem, hrest⟩

/-! ## Commands -/

/-- The commands that note nothing about the server. -/
def Cmd.quiet : Cmd → Prop
  | .apiNote _ => False
  | _ => True

theorem exec_quiet {c : Cmd} (hc : c.quiet) (st : St) (a : c.Ans) :
    (exec p c st a).2.apiLog = st.apiLog ∧ st.clock ≤ (exec p c st a).2.clock := by
  cases c with
  | apiNote n => exact hc.elim
  | sleep ms => exact ⟨rfl, Nat.le_add_right _ _⟩
  | now => exact ⟨rfl, Nat.le_max_left _ _⟩
  | _ => exact ⟨rfl, le_rfl⟩

theorem moves_quiet {c : Cmd} (hc : c.quiet) {a : c.Ans} {r : c.Res} (hi : (sessions env).inv st)
    (hs : (idealMachine env).step p c st a = some (r, st')) : (sessions env).Moves st st' := by
  have hst : (exec p c st a).2 = st' := by rw [(step_guarded hs).2.2]
  obtain ⟨hlog, hclock⟩ := hst ▸ exec_quiet hc st a
  refine ⟨⟨fun log user t h => hi.1 log user t (hlog ▸ h), ?_⟩,
    fun _ => ⟨hlog ▸ List.prefix_rfl, hclock⟩⟩
  intro handle t₀ t₁ t₂ h
  exact (hi.2 handle t₀ t₁ t₂ (hlog ▸ h)).trans hclock

/-- A note may be added if a handler it notes has a live token, and a token it notes was signed
by now. -/
theorem moves_apiNote {n : ApiNote} (hi : (sessions env).inv st)
    (hhandled : ∀ user t, n = .handled user t → Live st.apiLog user t)
    (hsigned : ∀ handle t₀ t₁ t₂, n = .signed handle t₀ t₁ t₂ → t₀ ≤ st.clock) :
    (sessions env).Moves st { st with apiLog := st.apiLog ++ [n] } := by
  refine ⟨⟨?_, ?_⟩, fun _ => ⟨List.prefix_append _ _, le_rfl⟩⟩
  · intro log user t h
    rcases List.prefix_concat_iff.mp h with he | h'
    · obtain ⟨rfl, hn⟩ := List.append_inj' he rfl
      exact hhandled user t (List.singleton_inj.mp hn).symm
    · exact hi.1 log user t h'
  · intro handle t₀ t₁ t₂ h
    rcases List.mem_append.mp h with h' | h'
    · exact hi.2 handle t₀ t₁ t₂ h'
    · exact hsigned handle t₀ t₁ t₂ (List.mem_singleton.mp h').symm

theorem tame_quiet {c : Cmd} (hc : c.quiet) : (sessions env).Tame p (ask c) :=
  Rely.tame_ask fun _ _ _ _ hi hs => moves_quiet hc hi hs

theorem tame_of_quiet {α : Type} {q : Prog α} (hq : q.Issues Cmd.quiet) : (sessions env).Tame p q :=
  Rely.closed_tame.of_issues (fun _ => tame_quiet) hq

theorem quiet_of_plain {h : Str} {c : Cmd} (hc : c.plain h) : c.quiet := by
  cases c with
  | apiNote => exact hc.elim
  | _ => trivial

/-! ## Programs that note nothing -/

theorem quiet_plain {α : Type} {h : Str} {q : Prog α} (hq : q.Issues (Cmd.plain h)) :
    q.Issues Cmd.quiet :=
  Prog.issues_mono (fun _ => quiet_of_plain) hq

theorem quiet_ensure (h : Str) : (ensure env h).Issues Cmd.quiet :=
  issues_ensure (fun _ hc => quiet_of_plain (plain_of_errand hc)) trivial fun _ => trivial

theorem quiet_walletOf (h : Str) : (walletOf env h).Issues Cmd.quiet :=
  issues_walletOf (fun _ hc => quiet_of_plain (plain_of_errand hc)) trivial (fun _ => trivial)
    fun _ => trivial

theorem quiet_hydrate (handle : String) : (hydrate env handle).Issues Cmd.quiet :=
  issues_hydrate trivial trivial trivial
    (fun _ => issues_storeSecret trivial trivial (fun _ => trivial) _) fun _ => trivial

theorem quiet_initializeUsers : (initializeUsers env).Issues Cmd.quiet := by
  refine Prog.issues_bind (issues_await trivial (issues_redis trivial)) fun handles => ?_
  refine Prog.issues_bind (Prog.issues_forEach fun h _ => quiet_hydrate h) fun _ => ?_
  exact issues_watchDeposits trivial (fun _ => trivial) fun _ => trivial

theorem quiet_onUpdate (h : Str) : (onUpdate env h).Issues Cmd.quiet := by
  refine Prog.issues_bind (quiet_plain (plain_errand errand_userObject)) fun u => ?_
  refine Prog.issues_bind (issues_ask trivial) fun _ => ?_
  refine quiet_plain (h := h)
    (Prog.issues_bind (plain_errand (errand_await errand_persist)) fun _ => ?_)
  refine Prog.issues_bind (plain_errand errand_userObject) fun u => ?_
  split
  · exact issues_await trivial (issues_ask rfl)
  · exact .ret _

/-! ## Requests -/

theorem safe_now (hi : (sessions env).inv st) :
    (sessions env).Safe p (ask .now) (fun (t : Nat) st' => t = st'.clock) st := by
  refine Rely.safe_sync rfl fun a r st' hs => ?_
  have hm := moves_quiet (c := .now) trivial hi hs
  cases (step_guarded hs).2.2
  exact ⟨hm, rfl⟩

/-- `auth` lets a request through only for a user with a live token. -/
theorem safe_auth (r : ApiRequest) (hi : (sessions env).inv st) :
    (sessions env).Safe p (auth env r)
      (fun res st' => ∀ user t, res = .ok (user, t) → Live st'.apiLog user t) st := by
  unfold auth
  dsimp only
  split
  next => exact .ret fun _ _ h => by cases h
  next =>
    refine Rely.safe_bind hi (safe_now hi) fun now st₁ hi₁ hnow => ?_
    split
    next => exact .ret fun _ _ h => by cases h
    next user hv =>
      refine Rely.safe_bind (P := fun _ (st₂ : St) => Live st₂.apiLog user now) hi₁ ?_ ?_
      · refine Rely.safe_sync rfl fun a r st₂ hs => ?_
        obtain ⟨hmade, -, hex⟩ := step_guarded hs
        cases hex
        refine ⟨moves_apiNote hi₁ (fun _ _ h => by cases h) (fun _ _ _ _ h => by cases h), ?_⟩
        -- the payload was signed, and says whose token it is
        obtain ⟨n, hn, hpl⟩ := List.any_eq_true.mp hmade
        cases n with
        | signed handle t₀ t₁ t₂ =>
            simp only [Bool.and_eq_true, decide_eq_true_eq] at hpl
            obtain ⟨huser, hend⟩ := of_verifyToken hv hpl.1.symm
            refine ⟨handle, t₀, t₁, t₂, List.mem_append_left _ hn, huser, ?_, ?_⟩
            · exact hnow ▸ hi₁.2 handle t₀ t₁ t₂ hn
            · unfold tokenTtl at hend
              omega
        | _ => cases hpl
      · intro _ st₂ _ hlive
        refine .ret fun user' t h => ?_
        cases h
        exact hlive

theorem tame_issueToken (handle : String) : (sessions env).Tame p (issueToken env handle) := by
  intro st hi
  refine Rely.safe_bind hi (safe_now hi) fun expTime st₁ hi₁ hexp => ?_
  have hnow : (sessions env).Tame p (ask .now) := tame_quiet trivial
  refine Rely.safe_bind hi₁ (Rely.safe_rel (hnow st₁ hi₁)) fun iatTime st₂ hi₂ h₂ => ?_
  refine Rely.safe_bind hi₂ (Rely.safe_rel (hnow st₂ hi₂)) fun dayTime st₃ hi₃ h₃ => ?_
  refine Rely.safe_bind (P := fun _ _ => True) hi₃ ?_ fun _ _ _ _ => .ret trivial
  refine Rely.safe_sync rfl fun a r st₄ hs => ?_
  cases (step_guarded hs).2.2
  refine ⟨moves_apiNote hi₃ (fun _ _ h => by cases h) ?_, trivial⟩
  intro _ _ _ _ h
  cases h
  exact hexp ▸ h₂.2.2.trans h₃.2.2

theorem tame_protectedRoute (r : ApiRequest) : (sessions env).Tame p (protectedRoute env r) := by
  have hT := Rely.closed_tame (R := sessions env) (p := p)
  have hplain : ∀ (h : Str) (c : Cmd), c.plain h → (sessions env).Tame p (ask c) :=
    fun _ _ hc => tame_quiet (quiet_of_plain hc)
  intro st hi
  refine Rely.safe_bind hi (safe_auth r hi) fun res st₁ hi₁ hlive => ?_
  cases res with
  | error answer => exact .ret trivial
  | ok res =>
      obtain ⟨user, t⟩ := res
      have hcsrf : (sessions env).Tame p (csrfProtection env r) :=
        closed_csrfProtection hT (hplain none) r
      refine Rely.safe_bind hi₁ (Rely.safe_rel (hcsrf st₁ hi₁)) fun passed st₂ hi₂ h₂ => ?_
      split
      · exact .ret trivial
      · split
        · exact .ret trivial
        · split
          · exact .ret trivial
          next route _ =>
            refine Rely.safe_bind (P := fun _ _ => True) hi₂ ?_ fun _ st₃ hi₃ _ => ?_
            · refine Rely.safe_sync rfl fun a r st₃ hs => ?_
              cases (step_guarded hs).2.2
              refine ⟨moves_apiNote hi₂ ?_ (fun _ _ _ _ h => by cases h), trivial⟩
              intro user' t' h
              cases h
              exact (hlive user t rfl).mono h₂.2.1
            · have hensure : (sessions env).Tame p (ensure env (some (Json.textOf user))) :=
                tame_of_quiet (quiet_ensure _)
              have hhandler := closed_handler hT (hplain (some (Json.textOf user))) hensure
                (tame_of_quiet (quiet_walletOf _)) r route
              exact hT.tryCatch hhandler (fun _ => hT.ret _) st₃ hi₃

theorem session_event (ev : Ev) : (sessions env).Tame p (ev.body env) := by
  have hT := Rely.closed_tame (R := sessions env) (p := p)
  have hplain : ∀ (h : Str) (c : Cmd), c.plain h → (sessions env).Tame p (ask c) :=
    fun _ _ hc => tame_quiet (quiet_of_plain hc)
  have hensure : ∀ h, (sessions env).Tame p (ensure env h) := fun h => tame_of_quiet (quiet_ensure h)
  have hwallet : ∀ h, (sessions env).Tame p (walletOf env h) :=
    fun h => tame_of_quiet (quiet_walletOf h)
  have hrefresh : ∀ (h : Str) (pk : PublicKey),
      (await (refreshBalances env pk)).Issues Cmd.quiet := fun h pk =>
    quiet_plain (h := h) (plain_errand (errand_await (errand_refreshBalances pk)))
  cases ev with
  | boot =>
      exact tame_of_quiet (Prog.issues_bind (issues_await trivial quiet_initializeUsers) fun _ =>
        issues_ask trivial)
  | call _ c => exact closed_call hT hplain hensure hwallet c
  | solChanged h | tokenChanged h =>
      exact tame_of_quiet (Prog.issues_bind (quiet_plain (plain_errand errand_userObject)) fun u =>
        Prog.issues_bind (hrefresh h _) fun _ => Prog.issues_bind (issues_ask trivial) fun _ =>
          Prog.issues_spawn (quiet_onUpdate h))
  | telegram u => exact closed_update hT hplain hensure hwallet u
  | tweet handle text => exact closed_message hT hplain hensure hwallet (tweetMessage handle text)
  | request r => exact closed_onRequest hT (hplain none) r tame_issueToken (tame_protectedRoute r)

end

/-- In every run in which no tag is forged, a handler runs only for a user with a live token: one
that was signed for that user before, at most two hours ago. -/
theorem handler_live (env : Env) {w : World (idealMachine env)}
    (hw : (idealMachine env).Reach (fun st => st.apiLog = []) w) {log : List ApiNote} {user : Json}
    {t : Nat} (h : log ++ [.handled user t] <+: w.st.apiLog) : Live log user t := by
  refine (Rely.reach_inv (R := sessions env) ?_ ?_ ?_ ?_ hw).1 log user t h
  · intro (st : St) hst
    refine ⟨fun log user t h => ?_, fun handle t₀ t₁ t₂ h => ?_⟩
    · simp [hst] at h
    · simp [hst] at h
  · intro ev (st : St) (st' : St) hi he
    -- an event moves neither the log nor the clock
    rcases enter_cases he with rfl | rfl
    · exact ⟨hi, fun _ => ⟨List.prefix_rfl, le_rfl⟩⟩
    · exact ⟨hi, fun _ => ⟨List.prefix_rfl, le_rfl⟩⟩
  · exact fun ev _ _ _ _ st' _ hi => session_event ev st' hi
  · exact fun p st hi => ⟨hi, fun _ _ => ⟨List.prefix_rfl, le_rfl⟩⟩

namespace Sample

/-- The user asks for a token. -/
def authRequest : ApiRequest where
  method := .post
  path := "/auth"
  malformed := false
  admitted := true
  authorization := none
  csrfCookie := some "VJ1mqV0Jb2y0fmZT8kZ9hYwX"
  csrfField := none
  xCsrfToken := some "Ab3dE6gH-xJAYKgfQIwb4Iyuc225SAtR42kA"
  xXsrfToken := none
  body := some (.obj [("handle", .str "@Alice"), ("method", .str "telegram")])

/-- And presents it. -/
def healthRequest : ApiRequest :=
  { authRequest with
    method := .get
    path := "/health"
    authorization := some ("Bearer eyJhbGciOiJIUzI1NiIsInR5cCI6IkpXVCJ9." ++
      "eyJzdWIiOiJAYWxpY2UiLCJleHAiOjE3NDc0MDQwMDAsImlhdCI6MTc0NzM5NjgwMH0." ++
      "rYAhZMkUiotW8PLD2p6JGoJBtyk0gCC_5hCEqCJj-Zc")
    xCsrfToken := authRequest.csrfCookie
    body := none }

/-- The clock shows the time the token was signed at. -/
def noon : (c : Cmd) → c.Ans
  | .now => (1747396800000 : Nat)
  | c => offline c

/-- Both requests, one after the other. -/
def login : List (idealMachine env).Choice :=
  serve _ noon (Ev.request authRequest) 0 0 ++ serve _ noon (Ev.request healthRequest) 1 0

/-- The last thing noted is that a request of `@alice` was handled at noon. -/
def endsHandled (w : World (idealMachine env)) : Bool :=
  match w.st.apiLog.getLast? with
  | some (.handled (.str "@alice") 1747396800000) => true
  | _ => false

theorem getLast?_of_endsHandled {w : World (idealMachine env)} (hw : endsHandled w = true) :
    w.st.apiLog.getLast? = some (.handled (.str "@alice") 1747396800000) := by
  unfold endsHandled at hw
  split at hw
  next hlog => exact hlog
  next => cases hw

end Sample

section

open Sample

theorem handler_live_sample :
    ∃ w log, (idealMachine env).Reach (fun st => st.apiLog = []) w ∧
      log ++ [.handled (.str "@alice") 1747396800000] <+: w.st.apiLog ∧
        Live log (.str "@alice") 1747396800000 := by
  have hrun : (Machine.nexts (M := idealMachine env) ⟨St.fresh env 0, [], []⟩ login).any
      endsHandled = true := by
    decide +kernel
  obtain ⟨w, hreach, hlast⟩ :=
    Machine.Reach.of_run (I := fun st : St => st.apiLog = []) rfl hrun
  have hlog := getLast?_of_endsHandled hlast
  have hhandled : w.st.apiLog.dropLast ++ [.handled (.str "@alice") 1747396800000] <+:
      w.st.apiLog :=
    ⟨[], (List.append_nil _).trans (List.dropLast_append_getLast? _ (Option.mem_def.mpr hlog))⟩
  exact ⟨w, w.st.apiLog.dropLast, hreach, hhandled, handler_live env hreach hhandled⟩

end

end Nexus
