import NexusErebus.Csrf

/-!
# Why a token is refused

`verifyToken` can fail at several points, and throws an error of its own for each.  It also
catches every one of them and throws `token_error` in its place.  So `auth`, which looks for the
message `token_expired`, never finds it: every token it refuses is called invalid
(`auth_refuses`), and an expired token cannot be told from a forged one.

`expiry_told_iff` says that a refusal gives the right reason just when the token is not one that
was issued here and has expired.
-/

namespace Nexus

open Async Text

section

variable (env : Env)

/-- The token was issued here, and its end of validity lies in the past. -/
def IssuedExpired (tok : String) (now : Nat) : Prop :=
  ∃ handle expTime iatTime dayTime, expTime ≤ iatTime ∧ iatTime ≤ dayTime ∧ dayTime ≤ now ∧
    tok = signToken env handle expTime iatTime dayTime ∧ (expTime / 1000 + tokenTtl) * 1000 < now

/-- The reason a refusal gives. -/
def Answer.details (a : Answer) : Option Json := a.2.field "details"

/-- The refusal of a token tells expiry apart from everything else. -/
structure ToldApart (tok : String) (now : Nat) (a : Answer) : Prop where
  expired : a.details = some (.str "Token expired") ↔ IssuedExpired env tok now
  other : tok ≠ "" → ¬ IssuedExpired env tok now → a.details = some (.str "Invalid token")

end

section

variable {env : Env} {τ : Type} {p : Pid} {strat : (c : Cmd) → τ → c.Ans × τ}

/-- What is not made of three parts was not issued. -/
theorem not_issuedExpired {tok : String} (h : (split "." tok).length ≠ 3) (now : Nat) :
    ¬ IssuedExpired env tok now := by
  rintro ⟨handle, expTime, iatTime, dayTime, -, -, -, rfl, -⟩
  exact h (congrArg List.length (split_signToken handle expTime iatTime dayTime))

/-- Whatever is wrong with a token, `verifyToken` throws the same error. -/
theorem verifyToken_error {tok : String} {now : Nat} {e : Err}
    (h : verifyToken env tok now = .error e) : e = .new "token_error" := by
  unfold verifyToken at h
  split at h
  · cases h
  · cases h
    rfl

/-- A refusal says that there is no token, or that it is invalid. -/
theorem auth_refuses {r : ApiRequest} {s s' : St × τ} {a : Answer}
    (h : (auth env r).run (alone p strat) s = (.ok (.error a), s')) :
    if bearer r.authorization = "" then a.details = some (.str "No token provided")
    else a.details = some (.str "Invalid token") := by
  obtain ⟨st, t⟩ := s
  rw [auth] at h
  dsimp only at h
  split at h
  next hempty =>
    cases h
    rw [if_pos hempty]
    rfl
  next hne =>
    rw [if_neg hne]
    rw [Prog.bind_eq, Prog.run_bind_ok (run_ask _ _ _)] at h
    split at h
    next e herr =>
      rw [verifyToken_error herr] at h
      cases h
      rfl
    next => cases h

/-- A token that does not pass is refused as invalid. -/
theorem auth_rejects {r : ApiRequest} {s : St × τ} {e : Err} (hne : bearer r.authorization ≠ "")
    (h : verifyToken env (bearer r.authorization) (timeOf strat s) = .error e) :
    ∃ a t, (auth env r).run (alone p strat) s =
      (.ok (.error a), ({ s.1 with clock := timeOf strat s }, t)) ∧
      a.details = some (.str "Invalid token") := by
  obtain ⟨a, t, hrun⟩ : ∃ a t, (auth env r).run (alone p strat) s =
      (.ok (.error a), ({ s.1 with clock := timeOf strat s }, t)) := by
    obtain ⟨st, t⟩ := s
    rw [auth, if_neg hne, Prog.bind_eq, Prog.run_bind_ok (run_ask _ _ _)]
    simp only [timeOf] at h
    simp only [exec, h]
    exact ⟨_, _, rfl⟩
  have htells := auth_refuses hrun
  rw [if_neg hne] at htells
  exact ⟨a, t, hrun, htells⟩

end

/-- A refusal gives the right reason just when the token did not expire here. -/
theorem expiry_told_iff (env : Env) {τ : Type} (p : Pid) (strat : (c : Cmd) → τ → c.Ans × τ)
    (r : ApiRequest) {s s' : St × τ} {a : Answer}
    (h : (auth env r).run (alone p strat) s = (.ok (.error a), s')) :
    ToldApart env (bearer r.authorization) s'.1.clock a ↔
      ¬ IssuedExpired env (bearer r.authorization) s'.1.clock := by
  have htells := auth_refuses h
  have hnever : a.details ≠ some (.str "Token expired") := by
    intro hexpired
    rw [hexpired] at htells
    split at htells
    · simp at htells
    · simp at htells
  constructor
  · intro htold hissued
    exact hnever (htold.expired.mpr hissued)
  · intro hnot
    refine ⟨iff_of_false hnever hnot, fun hne _ => ?_⟩
    rwa [if_neg hne] at htells

namespace Sample

/-- A request with a token. -/
def tokenRequest (tok : String) : ApiRequest where
  method := .get
  path := "/portfolio"
  malformed := false
  admitted := true
  authorization := some ("Bearer " ++ tok)
  csrfCookie := none
  csrfField := none
  xCsrfToken := none
  xXsrfToken := none
  body := none

/-- A token that was issued at noon. -/
def noonToken : String := signToken env "@alice" 1747396800000 1747396800000 1747396800000

/-- Two hours and a second later it has expired, and is called invalid. -/
theorem expired_called_invalid : ∃ a s',
    (auth env (tokenRequest noonToken)).run (alone .api unplugged)
      (St.fresh env 1747404001000, ()) = (.ok (.error a), s') ∧
    IssuedExpired env (bearer (tokenRequest noonToken).authorization) s'.1.clock ∧
    ¬ ToldApart env (bearer (tokenRequest noonToken).authorization) s'.1.clock a := by
  have hbearer : bearer (tokenRequest noonToken).authorization = noonToken := bearer_token noonToken
  have hverify : verifyToken env noonToken 1747404001000 = .error (.new "token_error") := by
    rw [verifyToken, noonToken, checkToken_signToken, if_neg (by decide),
      if_pos (by norm_num [tokenTtl])]
  have hne : noonToken ≠ "" := by
    intro hempty
    have hlen := congrArg List.length (@split_signToken env "@alice" 1747396800000
      1747396800000 1747396800000)
    rw [show signToken env "@alice" _ _ _ = "" from hempty] at hlen
    exact absurd hlen (by decide)
  have hexpired : IssuedExpired env noonToken 1747404001000 :=
    ⟨"@alice", 1747396800000, 1747396800000, 1747396800000, le_rfl, le_rfl, by norm_num, rfl,
      by norm_num [tokenTtl]⟩
  obtain ⟨a, t, hrun, htells⟩ := @auth_rejects env Unit .api unplugged (tokenRequest noonToken)
    (St.fresh env 1747404001000, ()) _ (by rwa [hbearer]) (by rw [hbearer]; exact hverify)
  rw [hbearer]
  refine ⟨a, _, hrun, hexpired, fun htold => ?_⟩
  rw [htold.expired.mpr hexpired] at htells
  simp at htells

/-- A token that was not issued here is called invalid, as it should be. -/
theorem forged_called_invalid : ∃ a s',
    (auth env (tokenRequest "forged")).run (alone .api unplugged) (St.fresh env 0, ()) =
      (.ok (.error a), s') ∧ ToldApart env (bearer (tokenRequest "forged").authorization)
        s'.1.clock a := by
  have hbearer : bearer (tokenRequest "forged").authorization = "forged" := bearer_token "forged"
  obtain ⟨a, t, hrun, -⟩ := @auth_rejects env Unit .api unplugged (tokenRequest "forged")
    (St.fresh env 0, ()) (.new "token_error") (by rw [hbearer]; decide) (by rw [hbearer]; rfl)
  refine ⟨a, _, hrun, (expiry_told_iff env .api unplugged _ hrun).mpr ?_⟩
  rw [hbearer]
  exact not_issuedExpired (by decide) _

end Sample

end Nexus
