import NexusErebus.Api
import NexusErebus.Sample

/-!
# The two gates against forged requests

A request to a protected route passes two checks of its CSRF header.  `csurf` wants a salted hash
of the cookie, the double-submit check wants the cookie itself.  This module asks whether one
header can satisfy both.

The server issues cookies in two ways (`Issued`), and a client that follows the protocol repeats
the cookie in the header (`Echoes`).  No cookie of either kind is a salted hash of itself: the
first has no dash, the second is too short to hold a hash (`csrfVerify_issued`).  So of the
requests that are not `GET` only those reach a handler that `csurf` does not look at, and these
are the `HEAD` requests (`handled_iff_head`).
-/

namespace Nexus

open Async Text

/-! ## The protocol -/

/-- The cookies the server sets: that of the middleware, and that of `csurf`. -/
inductive Issued : String → Prop
  | middleware (bs : Bytes) (h : bs.length = 32) : Issued (Hex.encode bs)
  | csurf (bs : Bytes) (h : bs.length = 18) : Issued (Base64.encodeUrl bs)

/-- The cookie comes back in the header `x-csrf-token`, and in no other field. -/
structure Echoes (r : ApiRequest) (cookie : String) : Prop where
  csrfCookie : r.csrfCookie = some cookie
  xCsrfToken : r.xCsrfToken = some cookie
  csrfField : r.csrfField = none
  xXsrfToken : r.xXsrfToken = none

section

variable {env : Env} {r : ApiRequest} {cookie : String}

theorem Issued.ne_empty (h : Issued cookie) : cookie ≠ "" := by
  rintro rfl
  generalize hs : "" = s at h
  cases h with
  | middleware bs hlen =>
      have := hs ▸ Hex.length_encode bs
      simp [hlen] at this
  | csurf bs hlen =>
      rw [Base64.encodeUrl_eq_empty hs.symm] at hlen
      cases hlen

/-- A token `csurf` accepts has a dash, and is longer than a hash. -/
theorem of_csrfVerify (hhash : ∀ s, (env.csrfHash s).toList.length = 27) {secret token : String}
    (h : csrfVerify env secret token = true) :
    '-' ∈ token.toList ∧ 27 < token.toList.length := by
  unfold csrfVerify at h
  split at h
  next => cases h
  next i hi =>
    have hdash : '-' ∈ token.toList := by
      by_contra hno
      rw [List.idxOf?_eq_none_iff.mpr hno] at hi
      cases hi
    simp only [Bool.and_eq_true, decide_eq_true_eq] at h
    have hlen := congrArg (fun s => s.toList.length) h.2
    simp only [String.toList_append, List.length_append, hhash,
      show "-".toList.length = 1 from rfl] at hlen
    exact ⟨hdash, by omega⟩

/-- No cookie is a token for itself. -/
theorem csrfVerify_issued (hhash : ∀ s, (env.csrfHash s).toList.length = 27)
    (h : Issued cookie) : csrfVerify env cookie cookie = false := by
  refine Bool.eq_false_iff.mpr fun hv => ?_
  obtain ⟨hdash, hlen⟩ := of_csrfVerify hhash hv
  cases h with
  | middleware bs _ => exact Hex.dash_notMem_encode bs hdash
  | csurf bs h18 =>
      rw [Base64.encodeUrl, String.toList_ofList, List.length_map,
        Base64.length_sextets 6 bs h18] at hlen
      omega

/-! ## The gates -/

theorem Echoes.csrfValue (h : Echoes r cookie) (hne : cookie ≠ "") : csrfValue r = cookie := by
  simp [Nexus.csrfValue, h.csrfField, h.xCsrfToken, hne]

theorem Echoes.doubleSubmit (h : Echoes r cookie) (hne : cookie ≠ "") :
    doubleSubmit r = true := by
  simp [Nexus.doubleSubmit, h.csrfCookie, h.xCsrfToken, hne]

/-- What `csurf` says to a request that follows the protocol. -/
theorem csrfProtection_echoes (hhash : ∀ s, (env.csrfHash s).toList.length = 27)
    (hissued : Issued cookie) (h : Echoes r cookie) :
    csrfProtection env r = (ask (.randomBytes 18)).bind fun _ =>
      .ret (decide (r.method = .get) || decide (r.method = .head) ||
        decide (r.method = .options)) := by
  have hne := hissued.ne_empty
  simp only [csrfProtection, h.csrfValue hne, h.csrfCookie, Option.getD_some, hne, if_false,
    csrfVerify_issued hhash hissued, Bool.or_false]
  rfl

/-- No handler is reached. -/
def Cmd.unhandled : Cmd → Prop
  | .apiNote (.handled _ _) => False
  | _ => True

theorem unhandled_csrfProtection (r : ApiRequest) :
    (csrfProtection env r).Issues Cmd.unhandled :=
  Prog.issues_bind (issues_ask trivial) fun _ => .ret _

theorem unhandled_auth (r : ApiRequest) : (auth env r).Issues Cmd.unhandled := by
  unfold auth
  dsimp only
  split
  · exact .ret _
  · refine Prog.issues_bind (issues_ask trivial) fun now => ?_
    split
    · exact .ret _
    · exact Prog.issues_bind (issues_ask trivial) fun _ => .ret _

theorem unhandled_postAuth (r : ApiRequest) : (postAuth env r).Issues Cmd.unhandled := by
  unfold postAuth
  split
  · exact .ret _
  · refine Prog.issues_bind ?_ fun _ => .ret _
    exact Prog.issues_bind (issues_ask trivial) fun _ => Prog.issues_bind (issues_ask trivial)
      fun _ => Prog.issues_bind (issues_ask trivial) fun _ => Prog.issues_bind (issues_ask trivial)
        fun _ => .ret _

/-- A request that is turned away before the gates, or that `csurf` turns away, reaches no
handler. -/
theorem unhandled_onRequest (hstop : r.malformed = true ∨ r.method = .options ∨
      r.admitted = false ∨ csrfProtection env r = (ask (.randomBytes 18)).bind fun _ => .ret false) :
    (onRequest env r).Issues Cmd.unhandled := by
  refine Prog.issues_bind ?_ fun _ => issues_ask trivial
  unfold answerRequest
  split
  next => exact .ret _
  next hmal =>
    split
    next => exact .ret _
    next hopt =>
      split
      next => exact .ret _
      next hadm =>
        have hcsrf := ((hstop.resolve_left hmal).resolve_left hopt).resolve_left
          (by simpa using hadm)
        split
        next =>
          refine Prog.issues_bind (unhandled_csrfProtection r) fun passed => ?_
          split
          · exact unhandled_postAuth r
          · exact .ret _
        next =>
          refine Prog.issues_bind (unhandled_auth r) fun res => ?_
          cases res with
          | error answer => exact .ret _
          | ok user =>
              simp only [hcsrf]
              exact .call trivial fun _ => .ret _

end

section

variable {env : Env} {τ : Type} {p : Pid} {strat : (c : Cmd) → τ → c.Ans × τ}

theorem auth_run {r : ApiRequest} {s : St × τ} {user : Json}
    (h : verifyToken env (bearer r.authorization) (timeOf strat s) = .ok user) :
    ∃ s', (auth env r).run (alone p strat) s = (.ok (.ok (user, timeOf strat s)), s') := by
  have hne : bearer r.authorization ≠ "" := by
    intro hempty
    rw [hempty] at h
    cases h
  obtain ⟨st, t⟩ := s
  rw [auth, if_neg hne, Prog.bind_eq, Prog.run_bind_ok (run_ask _ _ _)]
  simp only [timeOf] at h
  simp only [exec, h]
  exact ⟨_, rfl⟩

/-- A request that passes both gates reaches its handler. -/
theorem mem_trace_onRequest {r : ApiRequest} {s : St × τ} {user : Json} {route : Route}
    (hmal : r.malformed = false) (hopt : r.method ≠ .options) (hadm : r.admitted = true)
    (hauth : verifyToken env (bearer r.authorization) (timeOf strat s) = .ok user)
    (hroute : routeOf r.method r.path = some route) (hne : route ≠ .auth)
    (hcsrf : csrfProtection env r = (ask (.randomBytes 18)).bind fun _ => .ret true)
    (hdouble : doubleSubmit r = true) :
    .apiNote (.handled user (timeOf strat s)) ∈ (onRequest env r).trace (alone p strat) s := by
  obtain ⟨s₁, hrun⟩ := auth_run (p := p) hauth
  have hanswer : answerRequest env r = protectedRoute env r := by
    simp [answerRequest, hmal, hopt, hadm, hroute, hne]
  rw [onRequest, Prog.bind_eq, hanswer]
  refine Prog.mem_trace_bind ?_
  rw [protectedRoute, Prog.bind_eq]
  refine Prog.mem_trace_bind_ok hrun ?_
  simp only [hcsrf, hdouble, hroute]
  exact List.mem_cons_of_mem _ (List.mem_cons_self ..)

end

/-- A protected request with a valid token, which is not a `GET` and follows the protocol, reaches
its handler if and only if it is a `HEAD` request that is let through to the gates. -/
theorem handled_iff_head (env : Env) (hhash : ∀ s, (env.csrfHash s).toList.length = 27) {τ : Type}
    (p : Pid) (strat : (c : Cmd) → τ → c.Ans × τ) (s : St × τ) (r : ApiRequest) (cookie : String)
    (user : Json) (route : Route) (hissued : Issued cookie) (hecho : Echoes r cookie)
    (hauth : verifyToken env (bearer r.authorization) (timeOf strat s) = .ok user)
    (hroute : routeOf r.method r.path = some route) (hprotected : route ≠ .auth)
    (hget : r.method ≠ .get) :
    .apiNote (.handled user (timeOf strat s)) ∈ (onRequest env r).trace (alone p strat) s ↔
      r.method = .head ∧ r.malformed = false ∧ r.admitted = true := by
  have hcsrf := csrfProtection_echoes hhash hissued hecho
  have hopt : r.method ≠ .options := by
    intro h
    rw [h] at hroute
    cases hroute
  simp only [hget, hopt, decide_false, Bool.false_or, Bool.or_false] at hcsrf
  constructor
  · intro hmem
    by_contra hno
    have hstop : r.malformed = true ∨ r.method = .options ∨ r.admitted = false ∨
        csrfProtection env r = (ask (.randomBytes 18)).bind fun _ => .ret false := by
      by_cases hhead : r.method = .head
      · cases hmal : r.malformed with
        | true => exact .inl rfl
        | false =>
            cases hadm : r.admitted with
            | false => exact .inr (.inr (.inl rfl))
            | true => exact absurd ⟨hhead, hmal, hadm⟩ hno
      · exact .inr (.inr (.inr (by simpa only [hhead, decide_false] using hcsrf)))
    exact (unhandled_onRequest hstop).trace _ hmem
  · rintro ⟨hhead, hmal, hadm⟩
    simp only [hhead, decide_true] at hcsrf
    exact mem_trace_onRequest hmal hopt hadm hauth hroute hprotected hcsrf
      (hecho.doubleSubmit hissued.ne_empty)

namespace Sample

/-- A cookie of the middleware. -/
def cookie : String := Hex.encode (List.replicate 32 171)

/-- A request with a token of noon, which sends the cookie back. -/
def echo (method : HttpMethod) (path : String) (body : Option Json) : ApiRequest where
  method := method
  path := path
  malformed := false
  admitted := true
  authorization := some ("Bearer " ++
    signToken env "@alice" 1747396800000 1747396800000 1747396800000)
  csrfCookie := some cookie
  csrfField := none
  xCsrfToken := some cookie
  xXsrfToken := none
  body := body

/-- The clock stands at noon. -/
def atNoon : St := St.fresh env 1747396800000

theorem csrfHash_length (s : String) : (env.csrfHash s).toList.length = 27 := by
  simp only [env, csrfHash]
  split
  · decide
  · decide

/-- The token is valid at noon. -/
theorem verifyToken_echo (method : HttpMethod) (path : String) (body : Option Json) :
    verifyToken env (bearer (echo method path body).authorization)
      (timeOf unplugged (atNoon, ())) = .ok (.str "@alice") := by
  have htime : timeOf unplugged (atNoon, ()) = 1747396800000 := by decide
  have hbearer : bearer (echo method path body).authorization =
      signToken env "@alice" 1747396800000 1747396800000 1747396800000 := by
    simp only [bearer, echo, Option.getD_some, startsWith_append, if_true, slice,
      String.toList_append]
    exact String.ofList_toList
  -- the token ends on the day it was signed on
  have hday : (1747396800000 / 1000 + tokenTtl) / 86400 = 1747396800000 / 86400000 := by decide
  rw [verifyToken, hbearer, htime, checkToken_signToken, if_neg (by decide), if_neg, hday,
    if_pos rfl]
  norm_num [tokenTtl]

theorem issued_cookie : Issued cookie := .middleware _ rfl

theorem echoes_cookie (method : HttpMethod) (path : String) (body : Option Json) :
    Echoes (echo method path body) cookie := ⟨rfl, rfl, rfl, rfl⟩

end Sample

section

open Sample

theorem head_handled :
    (∀ s, (env.csrfHash s).toList.length = 27) ∧ Issued cookie ∧
      Echoes (echo .head "/health" none) cookie ∧
      .apiNote (.handled (.str "@alice") (timeOf unplugged (atNoon, ()))) ∈
        (onRequest env (echo .head "/health" none)).trace (alone .api unplugged) (atNoon, ()) :=
  ⟨csrfHash_length, issued_cookie, echoes_cookie .., (handled_iff_head env csrfHash_length .api
    unplugged (atNoon, ()) (echo .head "/health" none) cookie (.str "@alice") .health issued_cookie
    (echoes_cookie ..) (verifyToken_echo ..) (by decide) (by decide) (by decide)).mpr
    ⟨rfl, rfl, rfl⟩⟩

/-- The user follows the protocol to set the level of risk, and is turned away by `csurf`. -/
theorem post_refused :
    let r := echo .post "/risk" (some (.obj [("level", .str "high")]))
    Issued cookie ∧ Echoes r cookie ∧ routeOf r.method r.path = some .risk ∧
      verifyToken env (bearer r.authorization) (timeOf unplugged (atNoon, ())) =
        .ok (.str "@alice") ∧
      ∀ user time, .apiNote (.handled user time) ∉
        (onRequest env r).trace (alone .api unplugged) (atNoon, ()) := by
  refine ⟨issued_cookie, echoes_cookie .., by decide, verifyToken_echo .., ?_⟩
  intro user time hmem
  have hcsrf := csrfProtection_echoes csrfHash_length issued_cookie
    (echoes_cookie .post "/risk" (some (.obj [("level", .str "high")])))
  exact (unhandled_onRequest (.inr (.inr (.inr hcsrf)))).trace _ hmem

end

end Nexus
