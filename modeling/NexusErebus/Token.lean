import Mathlib.Data.Rat.Floor
import NexusErebus.Sample
import NexusErebus.Text.Json

/-!
# API tokens (api-server.js)

A token is a header, a payload and a signature, in base 64 and with dots between.  The
payload says whose token it is and until when it is valid.  The signature is a tag under the
key of a day.  `signToken` takes the day of the time it runs at, `verifyToken` the day of the
end of validity.

`verifyToken_signToken` is what becomes of a token that is presented while it is valid.  The
two days differ for a token issued in the last two hours of a day, and then it is refused.
-/

namespace Nexus

open Text (split)

/-- The first part of every token. -/
def jwtHeader : String :=
  Base64.encodeUrl (Utf8.encode (Json.stringify (.obj [("alg", .str "HS256"), ("typ", .str "JWT")])))

/-- The text `dayKey` derives the key of a day from. -/
def dayText (day : Number) : String := day.text

/-- The validity of a token in seconds. -/
def tokenTtl : Nat := 7200

/-- The payload of a token, given the times `Date.now()` gives for its two fields. -/
def payloadJson (handle : String) (expTime iatTime : Nat) : Json :=
  .obj [("sub", .str handle), ("exp", .num (expTime / 1000 + tokenTtl : Nat)),
    ("iat", .num (iatTime / 1000 : Nat))]

/-- The payload as a part of a token. -/
def payload (handle : String) (expTime iatTime : Nat) : String :=
  Base64.encodeUrl (Utf8.encode (Json.stringify (payloadJson handle expTime iatTime)))

section

variable (env : Env)

/-- The signature of a payload under the key of a day. -/
def signature (day : Number) (pl : String) : String :=
  Base64.encodeUrl (env.mac.digest (dayText day) (jwtHeader ++ "." ++ pl))

/-- The token of a handle.  `Date.now()` is read three times: for the end of validity, for the
time of issue and for the day of the key. -/
def signToken (handle : String) (expTime iatTime dayTime : Nat) : String :=
  let pl := payload handle expTime iatTime
  jwtHeader ++ "." ++ pl ++ "." ++ signature env (some (dayTime / 86400000 : Nat)) pl

/-- Why a token is refused. -/
inductive TokenError where
  | format | decode | payload | expired | signature
  deriving DecidableEq, Repr

/-- The checks of the fields of a payload, at a time in milliseconds. -/
def checkFields (pl sig : String) (now : Nat) (exp sub : Option Json) : Except TokenError Json :=
  if Json.truthy exp && Json.truthy sub then
    if Number.gt (some ((now : ℚ) / 1000)) (Json.toNumber exp) then .error .expired
    else if Utf8.encode sig =
        Utf8.encode (signature env ((Json.toNumber exp).div 86400).floor pl) then
      .ok (sub.getD .null)
    else .error .signature
  else .error .payload

/-- The checks of `verifyToken`, at a time in milliseconds. -/
def checkToken (tok : String) (now : Nat) : Except TokenError Json :=
  let parts := split "." tok
  let pl := (parts[1]?).getD ""
  let sig := (parts[2]?).getD ""
  if pl = "" ∨ sig = "" then .error .format
  else
    match Json.parse (Utf8.decode (Base64.decode pl)) with
    | none => .error .decode
    | some v =>
        if Json.nullish (some v) then .error .decode
        else checkFields env pl sig now (v.field "exp") (v.field "sub")

/-- The payload of a token. -/
def tokenPayload (tok : String) : String := ((split "." tok)[1]?).getD ""

/-- The day of the end of validity of a payload. -/
def payloadDay (pl : String) : Number :=
  ((Json.toNumber ((Json.parse (Utf8.decode (Base64.decode pl))).bind (Json.field "exp"))).div
    86400).floor

/-- `verifyToken`.  Whatever goes wrong, the caller sees one error. -/
def verifyToken (tok : String) (now : Nat) : Except Err Json :=
  match checkToken env tok now with
  | .ok sub => .ok sub
  | .error _ => .error (.new "token_error")

end

/-! ## Tokens that were signed -/

section

variable {env : Env}

theorem parse_payload (handle : String) (t₁ t₂ : Nat) :
    Json.parse (Utf8.decode (Base64.decode (payload handle t₁ t₂))) =
      some (payloadJson handle t₁ t₂) := by
  rw [payload, Base64.decode_encodeUrl, Utf8.decode_encode]
  refine Json.parse_stringify ?_
  exact ⟨trivial, ⟨_, rfl⟩, ⟨_, rfl⟩, trivial⟩

theorem payload_ne_empty (handle : String) (t₁ t₂ : Nat) : payload handle t₁ t₂ ≠ "" := by
  intro h
  have hparse := parse_payload handle t₁ t₂
  rw [h] at hparse
  cases hparse

variable (env) in
theorem signature_ne_empty (day : Number) (pl : String) : signature env day pl ≠ "" :=
  fun h => env.mac.digest_ne_nil _ _ (Base64.encodeUrl_eq_empty h)

theorem split_signToken (handle : String) (t₁ t₂ t₃ : Nat) :
    split "." (signToken env handle t₁ t₂ t₃) =
      [jwtHeader, payload handle t₁ t₂,
        signature env (some (t₃ / 86400000 : Nat)) (payload handle t₁ t₂)] := by
  have hsep : ".".toList = '.' :: [] := rfl
  have hdot : ∀ bs, '.' ∉ (Base64.encodeUrl bs).toList := Base64.dot_notMem_encodeUrl
  have hsig := Text.split_of_notMem hsep
    (signature env (some (t₃ / 86400000 : Nat)) (payload handle t₁ t₂)) (hdot _)
  have hpl := Text.split_append hsep (payload handle t₁ t₂)
    (signature env (some (t₃ / 86400000 : Nat)) (payload handle t₁ t₂)) (hdot _)
  have hhead := Text.split_append hsep jwtHeader (payload handle t₁ t₂ ++
    ("." ++ signature env (some (t₃ / 86400000 : Nat)) (payload handle t₁ t₂))) (hdot _)
  simp only [signToken, String.append_assoc]
  rw [hhead, hpl, hsig]

theorem floor_day (n : Nat) :
    (Number.div (some (n : ℚ)) 86400).floor = some ((n / 86400 : Nat) : ℚ) := by
  have h : ((n : ℚ) / 86400).floor = ((n / 86400 : Nat) : ℤ) := Rat.floor_intCast_div_natCast n 86400
  simp only [Number.div, Number.floor, Option.map_some, h, Int.cast_natCast]

/-- The checks of the fields a signed payload has. -/
theorem checkFields_of_signed (pl sig handle : String) (now exp : Nat) (hexp : exp ≠ 0) :
    checkFields env pl sig now (some (.num exp)) (some (.str handle)) =
      if handle = "" then .error .payload
      else if (exp : ℚ) < (now : ℚ) / 1000 then .error .expired
      else if sig = signature env (some (exp / 86400 : Nat)) pl then .ok (.str handle)
      else .error .signature := by
  have htruthy : (Json.truthy (some (.num exp)) && Json.truthy (some (.str handle))) =
      decide (handle ≠ "") := by
    simp [Json.truthy, hexp]
  have hutf8 : ∀ a b : String, Utf8.encode a = Utf8.encode b ↔ a = b := fun a b =>
    ⟨fun h => by rw [← Utf8.decode_encode a, h, Utf8.decode_encode], congrArg _⟩
  simp only [checkFields, htruthy, Json.toNumber, Number.gt, floor_day, hutf8, Option.getD_some,
    decide_eq_true_eq, ne_eq, ite_not]

/-- What becomes of a token that was signed.  It is refused if the handle is empty, if it has
expired, or if the tags under the two days differ. -/
theorem checkToken_signToken (handle : String) (t₁ t₂ t₃ now : Nat) :
    checkToken env (signToken env handle t₁ t₂ t₃) now =
      if handle = "" then .error .payload
      else if ((t₁ / 1000 + tokenTtl : Nat) : ℚ) < (now : ℚ) / 1000 then .error .expired
      else if signature env (some (t₃ / 86400000 : Nat)) (payload handle t₁ t₂) =
          signature env (some ((t₁ / 1000 + tokenTtl) / 86400 : Nat)) (payload handle t₁ t₂) then
        .ok (.str handle)
      else .error .signature := by
  have hne := payload_ne_empty handle t₁ t₂
  have hsig := signature_ne_empty env (some (t₃ / 86400000 : Nat)) (payload handle t₁ t₂)
  have hnull : Json.nullish (some (payloadJson handle t₁ t₂)) = false := rfl
  simp only [checkToken, split_signToken, List.getElem?_cons_succ, List.getElem?_cons_zero,
    Option.getD_some, hne, hsig, or_self, if_false, parse_payload, hnull]
  exact checkFields_of_signed _ _ _ _ _ (by unfold tokenTtl; omega)

/-- Whatever token carries a payload that was signed: if it is accepted, then for the handle of
that payload, and before its end of validity. -/
theorem of_verifyToken {tok : String} {now : Nat} {user : Json}
    (hv : verifyToken env tok now = .ok user) {handle : String} {t₁ t₂ : Nat}
    (hpl : tokenPayload tok = payload handle t₁ t₂) :
    user = .str handle ∧ now ≤ t₁ + 1000 * tokenTtl := by
  have hcheck : checkToken env tok now = .ok user := by
    simp only [verifyToken] at hv
    split at hv
    next sub hsub => rw [hsub, Except.ok.inj hv]
    next => cases hv
  have hne := payload_ne_empty handle t₁ t₂
  have hnull : Json.nullish (some (payloadJson handle t₁ t₂)) = false := rfl
  simp only [checkToken, ← tokenPayload.eq_def, hpl, hne, false_or, parse_payload, hnull] at hcheck
  split at hcheck
  next => cases hcheck
  next =>
    have hexp : t₁ / 1000 + tokenTtl ≠ 0 := by unfold tokenTtl; omega
    rw [if_neg (by decide), show (payloadJson handle t₁ t₂).field "exp" =
      some (.num (t₁ / 1000 + tokenTtl : Nat)) from rfl, show (payloadJson handle t₁ t₂).field "sub" =
      some (.str handle) from rfl, checkFields_of_signed _ _ _ _ _ hexp] at hcheck
    split at hcheck
    next => cases hcheck
    next =>
      split at hcheck
      next => cases hcheck
      next hlive =>
        split at hcheck
        next =>
          refine ⟨(Except.ok.inj hcheck).symm, ?_⟩
          rw [not_lt, div_le_iff₀ (by norm_num)] at hlive
          have hnow : now ≤ (t₁ / 1000 + tokenTtl) * 1000 := by exact_mod_cast hlive
          omega
        next => cases hcheck

/-- The day of the end of validity is the day of issue, except in the last two hours. -/
theorem expDay_eq_iff (t : Nat) :
    (t / 1000 + tokenTtl) / 86400 = t / 86400000 ↔ t / 1000 % 86400 < 79200 := by
  have hday : t / 86400000 = t / 1000 / 86400 := by rw [Nat.div_div_eq_div_mul]
  unfold tokenTtl
  omega

end

/-- The tags of a message under the keys of two days differ. -/
def Mac.TellsDays (mac : Mac) : Prop :=
  ∀ d d' : Nat, d ≠ d' → ∀ message,
    mac.digest (dayText (some d)) message ≠ mac.digest (dayText (some d')) message

/-- A token is accepted for as long as it is announced to be valid, if and only if it was not
issued in the last two hours of a day and is not the token of the empty handle. -/
theorem verifyToken_signToken_iff (env : Env) (hmac : env.mac.TellsDays) (handle : String)
    (t₀ t : Nat) (hlive : (t : ℚ) / 1000 ≤ (t₀ / 1000 : Nat) + 7200) :
    verifyToken env (signToken env handle t₀ t₀ t₀) t = .ok (.str handle) ↔
      handle ≠ "" ∧ t₀ / 1000 % 86400 < 79200 := by
  have hexp : ¬ ((t₀ / 1000 + tokenTtl : Nat) : ℚ) < (t : ℚ) / 1000 := by
    rw [not_lt]
    exact_mod_cast hlive
  have hsig : ∀ d d' : Nat, signature env (some d) (payload handle t₀ t₀) =
      signature env (some d') (payload handle t₀ t₀) ↔ d = d' := by
    intro d d'
    refine ⟨fun h => by_contra fun hne => ?_, fun h => h ▸ rfl⟩
    have hdec := congrArg Base64.decode h
    simp only [signature, Base64.decode_encodeUrl] at hdec
    exact hmac d d' hne _ hdec
  rw [verifyToken, checkToken_signToken, if_neg hexp, ← expDay_eq_iff]
  by_cases hh : handle = ""
  · simp [hh]
  · rw [if_neg hh]
    by_cases hd : (t₀ / 1000 + tokenTtl) / 86400 = t₀ / 86400000
    · simp [hh, hd]
    · rw [if_neg fun h => hd ((hsig _ _).mp h).symm]
      simp [hd]

namespace Sample

theorem dayText_inj {d d' : Nat} (h : dayText (some d) = dayText (some d')) : d = d' := by
  simp only [dayText, Number.text, Number.textOf_natCast] at h
  have hnat := congrArg (Nat.ofDigitChars 10 · 0) (String.ofList_injective h)
  simpa only [Nat.ofDigitChars_ten_toDigits] using hnat

theorem mac_tellsDays : env.mac.TellsDays := by
  intro d d' hne message h
  have hday : dayText (some d) ≠ dayText (some d') := fun he => hne (dayText_inj he)
  -- a tag of the table names its day, and all other tags start with a zero
  have hhead : ∀ kv ∈ tags, kv.2.head? ≠ some 0 := by decide
  have hpair : ∀ kv ∈ tags, ∀ kv' ∈ tags, kv.1.2 = kv'.1.2 → kv.2 = kv'.2 → kv.1.1 = kv'.1.1 := by
    decide
  simp only [env, mac] at h
  cases hd : tags.lookup (dayText (some d), message) with
  | none =>
      cases hd' : tags.lookup (dayText (some d'), message) with
      | none =>
          simp only [hd, hd', Option.getD_none, List.cons.injEq, true_and] at h
          exact hday (by rw [← Utf8.decode_encode (dayText (some d)), h, Utf8.decode_encode])
      | some tag' =>
          rw [hd, hd'] at h
          exact hhead _ (mem_tags hd') (congrArg List.head? h).symm
  | some tag =>
      cases hd' : tags.lookup (dayText (some d'), message) with
      | none =>
          rw [hd, hd'] at h
          exact hhead _ (mem_tags hd) (congrArg List.head? h)
      | some tag' =>
          rw [hd, hd'] at h
          exact hday (hpair _ (mem_tags hd) _ (mem_tags hd') rfl h)

end Sample

/-- A token issued at noon is accepted until two hours later. -/
theorem verifyToken_noon : Sample.env.mac.TellsDays ∧
    verifyToken Sample.env (signToken Sample.env "@alice" 1747396800000 1747396800000 1747396800000)
      1747404000000 = .ok (.str "@alice") :=
  ⟨Sample.mac_tellsDays, (verifyToken_signToken_iff Sample.env Sample.mac_tellsDays "@alice"
    1747396800000 1747404000000 (by norm_num)).mpr ⟨by decide, by decide⟩⟩

/-- A token issued at 22:13:20 is refused in the very moment it is issued. -/
theorem verifyToken_evening : Sample.env.mac.TellsDays ∧
    verifyToken Sample.env (signToken Sample.env "@alice" 1747433600000 1747433600000 1747433600000)
      1747433600000 ≠ .ok (.str "@alice") := by
  refine ⟨Sample.mac_tellsDays, ?_⟩
  have hsig : signature Sample.env (some (1747433600000 / 86400000 : Nat))
      (payload "@alice" 1747433600000 1747433600000) ≠
        signature Sample.env (some ((1747433600000 / 1000 + tokenTtl) / 86400 : Nat))
          (payload "@alice" 1747433600000 1747433600000) := by
    intro h
    have hdec := congrArg Base64.decode h
    simp only [signature, Base64.decode_encodeUrl] at hdec
    exact Sample.mac_tellsDays _ _ (by decide) _ hdec
  rw [verifyToken, checkToken_signToken, if_neg (by decide), if_neg (by norm_num [tokenTtl]),
    if_neg hsig]
  simp

end Nexus
