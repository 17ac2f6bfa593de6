import Mathlib.Data.UInt
import NexusErebus.Crypto.Gcm
import NexusErebus.Sample
import NexusErebus.UserStore

/-!
# What opens a wallet

`decrypt` cuts the stored bytes into a vector, a tag and a cipher text, and checks no length.  So a
short value gives the cipher a short tag, of which it compares only the bytes that are there.  Such
a value has no cipher text, though.  What is decrypted is then empty, and `JSON.parse` throws.

So a secret only comes from a value with a tag of sixteen bytes, which is compared in full
(`openWallet_authentic`).  If the cipher is ideal, the bytes are then those of an encryption of the
store (`only_authentic_wallets_open`).
-/

namespace Nexus

open Async Text

/-- AES-256-GCM as Node has it. -/
def AesGcm.ofGcm (g : Gcm) : AesGcm where
  encrypt := g.encrypt
  decrypt := g.decrypt
  tag_length _ _ := g.tag_length _ _
  decrypt_encrypt _ plain hiv := Gcm.decrypt_encrypt hiv plain

/-- The bytes behind the mark. -/
def sealedBytes (s : String) : Bytes := Base64.decode (slice s 4)

/-- The sealedParts that `decrypt` cuts the bytes into: vector, tag and cipher text. -/
def sealedParts (raw : Bytes) : Bytes × Bytes × Bytes := (raw.take 12, (raw.drop 12).take 16, raw.drop 28)

/-- Marked, longer than a vector and a tag, and with the full tag of the rest. -/
structure Authentic (g : Gcm) (s : String) : Prop where
  mark : startsWith s "enc:" = true
  length : 28 < (sealedBytes s).length
  tag_length : (sealedParts (sealedBytes s)).2.1.length = 16
  tag : (sealedParts (sealedBytes s)).2.1 = g.tag (sealedParts (sealedBytes s)).1 (sealedParts (sealedBytes s)).2.2

/-- The secret in a decrypted text. -/
def readSecret (plain : Bytes) : Except Err Bytes :=
  match parseJson (some (Utf8.decode plain)) with
  | .error e => .error e
  | .ok v => uint8ArrayFrom v

/-- Made by one of the encryptions, from a text with the secret in it. -/
def SealedFrom (env : Env) (made : Set (Bytes × Bytes)) (s : String) (secret : Bytes) : Prop :=
  ∃ iv buf, (iv, buf) ∈ made ∧ sealedBytes s = Base64.decode (sealed env iv buf) ∧
    readSecret buf = .ok secret

/-- No secret is in the empty text. -/
theorem readSecret_nil (secret : Bytes) : readSecret [] ≠ .ok secret := by
  have hparse : Json.parse (Utf8.decode []) = none := by decide
  simp [readSecret, parseJson, hparse]

section

variable {env : Env} {g : Gcm} {s : String} {secret : Bytes}

theorem decrypt_eq_ok {b64 : String} {plain : Bytes} (h : decrypt env b64 = .ok plain) :
    env.aes.decrypt (sealedParts (Base64.decode b64)).1 (sealedParts (Base64.decode b64)).2.1
      (sealedParts (Base64.decode b64)).2.2 = some plain := by
  unfold decrypt at h
  dsimp only at h
  split at h
  next plain' hdec =>
    cases h
    exact hdec
  next => cases h

theorem openWallet_eq_ok (haes : env.aes = .ofGcm g) (h : openWallet env s = .ok secret) :
    ∃ plain, g.decrypt (sealedParts (sealedBytes s)).1 (sealedParts (sealedBytes s)).2.1 (sealedParts (sealedBytes s)).2.2 = some plain ∧
      readSecret plain = .ok secret := by
  have hg : env.aes.decrypt = g.decrypt := by rw [haes]; rfl
  unfold openWallet at h
  split at h
  next => cases h
  next plain hdec => exact ⟨plain, hg ▸ decrypt_eq_ok hdec, h⟩

/-- With 28 bytes or fewer there is no cipher text, and nothing to parse. -/
theorem length_of_openWallet (haes : env.aes = .ofGcm g) (h : openWallet env s = .ok secret) :
    28 < (sealedBytes s).length := by
  obtain ⟨plain, hdec, hread⟩ := openWallet_eq_ok haes h
  by_contra hshort
  have hcip : (sealedParts (sealedBytes s)).2.2 = [] := List.drop_eq_nil_of_le (not_lt.mp hshort)
  rw [hcip] at hdec
  exact readSecret_nil secret (Gcm.decrypt_nil hdec ▸ hread)

theorem tag_length_of_lt {raw : Bytes} (h : 28 < raw.length) : (sealedParts raw).2.1.length = 16 := by
  simp only [sealedParts, List.length_take, List.length_drop]
  omega

theorem openWallet_authentic (haes : env.aes = .ofGcm g) (hmark : startsWith s "enc:" = true)
    (h : openWallet env s = .ok secret) : Authentic g s := by
  have hlen := length_of_openWallet haes h
  obtain ⟨plain, hdec, -⟩ := openWallet_eq_ok haes h
  exact ⟨hmark, hlen, tag_length_of_lt hlen, Gcm.decrypt_full hdec (tag_length_of_lt hlen)⟩

/-- The sealedParts are the bytes, in this order. -/
theorem parts_append (raw : Bytes) :
    (sealedParts raw).1 ++ (sealedParts raw).2.1 ++ (sealedParts raw).2.2 = raw := by
  have hdrop : raw.drop 28 = (raw.drop 12).drop 16 := by rw [List.drop_drop]
  rw [sealedParts, List.append_assoc, hdrop, List.take_append_drop, List.take_append_drop]

theorem parts_sealed {iv : Bytes} (hiv : iv.length = 12) (buf : Bytes) :
    sealedParts (sealedBytes ("enc:" ++ sealed env iv buf)) =
      (iv, (env.aes.encrypt iv buf).2, (env.aes.encrypt iv buf).1) := by
  obtain ⟨h₁, h₂, h₃⟩ := cut_sealed env hiv buf
  rw [sealedBytes, slice_mark, sealedParts, h₁, h₂, h₃]

/-- Under an ideal cipher, the bytes are those of an encryption. -/
theorem openWallet_sealedFrom (haes : env.aes = .ofGcm g) (h : openWallet env s = .ok secret)
    {made : Set (Bytes × Bytes)} {presented : Set (Bytes × Bytes × Bytes)}
    (hideal : g.Ideal made presented) (hs : sealedParts (sealedBytes s) ∈ presented) :
    SealedFrom env made s secret := by
  obtain ⟨plain, hdec, hread⟩ := openWallet_eq_ok haes h
  have hlen := tag_length_of_lt (length_of_openWallet haes h)
  have happend := parts_append (sealedBytes s)
  generalize sealedParts (sealedBytes s) = cut at hdec hlen happend hs
  obtain ⟨iv, tag, cip⟩ := cut
  obtain ⟨hmade, henc⟩ := hideal.made_of_decrypt hs hlen hdec
  have haes' : env.aes.encrypt iv plain = (cip, tag) := by
    rw [haes]
    exact henc
  refine ⟨iv, plain, hmade, ?_, hread⟩
  rw [sealed, Base64.decode_encode, haes']
  exact happend.symm

end

/-- A secret comes from an authentic value only, and from an encryption of the store if the
cipher is ideal.  Any other value gives `null`, a legacy result or an exception. -/
theorem only_authentic_wallets_open {env : Env} {g : Gcm} (haes : env.aes = .ofGcm g) {τ : Type}
    (p : Pid) (strat : (c : Cmd) → τ → c.Ans × τ) (h : Str) (st : St) (t : τ) :
    (∀ secret, ((getWalletSecret env h).run (alone p strat) (st, t)).1 = .ok (some secret) ∨
        (∃ legacyStr, ((getWalletCompat env h).run (alone p strat) (st, t)).1 =
          .ok ⟨some secret, legacyStr⟩) →
      ∃ s, (st.redis.hashes (userKey h)).lookup "wallet" = some s ∧ Authentic g s ∧
        ∀ made presented, g.Ideal made presented → sealedParts (sealedBytes s) ∈ presented →
          SealedFrom env made s secret) ∧
    ((∀ s, (st.redis.hashes (userKey h)).lookup "wallet" = some s → ¬ Authentic g s) →
      (((getWalletSecret env h).run (alone p strat) (st, t)).1 = .ok none ∨
        ∃ e, ((getWalletSecret env h).run (alone p strat) (st, t)).1 = .error e) ∧
      (((getWalletCompat env h).run (alone p strat) (st, t)).1 = .ok ⟨none, none⟩ ∨
        (∃ s, (st.redis.hashes (userKey h)).lookup "wallet" = some s ∧
          ((getWalletCompat env h).run (alone p strat) (st, t)).1 = .ok ⟨none, some s⟩) ∨
        ∃ e, ((getWalletCompat env h).run (alone p strat) (st, t)).1 = .error e)) := by
  rw [getWalletSecret_run, getWalletCompat_run]
  cases (st.redis.hashes (userKey h)).lookup "wallet" with
  | none => simp
  | some s =>
      by_cases hmark : startsWith s "enc:" = true
      · simp only [hmark, if_true]
        cases hopen : openWallet env s with
        | error e => simp [Except.map]
        | ok bytes =>
            have hauth := openWallet_authentic haes hmark hopen
            refine ⟨fun secret hsecret => ⟨s, rfl, hauth, fun made presented hideal hs => ?_⟩,
              fun hno => absurd hauth (hno s rfl)⟩
            have he : bytes = secret := by simpa [Except.map] using hsecret
            exact openWallet_sealedFrom haes (he ▸ hopen) hideal hs
      · simp only [hmark]
        by_cases hempty : s = ""
        · simp [hempty]
        · simp [hempty]

namespace Sample

/-- The key stream counts up, and the last byte of a tag is the sum of the cipher text. -/
def gcm : Gcm where
  stream _ i := UInt8.ofNat i
  tag _ cip := List.replicate 15 0 ++ [cip.sum]
  tag_length _ _ := rfl

def gcmEnv : Env := { env with aes := .ofGcm gcm }

/-- The text of a secret. -/
def secretText : Bytes := Utf8.encode (Json.stringify (bytesJson [7, 8]))

/-- The secret, encrypted under twelve zero bytes. -/
def sealedSecret : String := "enc:" ++ sealed gcmEnv (List.replicate 12 0) secretText

/-- A store with that secret. -/
def sealedState : St :=
  { St.fresh env 0 with redis := (Redis.exec 0 (.hset "user:alice" [("wallet", sealedSecret)])
      .empty).2 }

theorem sealedState_wallet :
    (sealedState.redis.hashes (userKey (some "alice"))).lookup "wallet" = some sealedSecret := rfl

theorem sealedState_opens :
    ((getWalletSecret gcmEnv (some "alice")).run (alone .api unplugged) (sealedState, ())).1 =
      .ok (some [7, 8]) := by
  have hopen : openWallet gcmEnv sealedSecret = .ok [7, 8] :=
    openWallet_sealed gcmEnv rfl (parse_bytesJson _)
  have hmark : startsWith sealedSecret "enc:" = true := startsWith_mark _
  simp only [getWalletSecret_run, sealedState_wallet, hmark, if_true, hopen]
  rfl

/-- The only value that is presented comes from the only encryption. -/
theorem gcm_ideal :
    gcm.Ideal {(List.replicate 12 0, secretText)} {sealedParts (sealedBytes sealedSecret)} := by
  intro iv tag cip hp _
  have hparts := @parts_sealed gcmEnv (List.replicate 12 0) rfl secretText
  cases (Set.mem_singleton_iff.mp hp).trans hparts
  exact ⟨secretText, rfl, rfl⟩

/-- The secret comes back, and it was encrypted. -/
theorem sealed_opens : gcmEnv.aes = .ofGcm gcm ∧
    ((getWalletSecret gcmEnv (some "alice")).run (alone .api unplugged) (sealedState, ())).1 =
      .ok (some [7, 8]) ∧
    Authentic gcm sealedSecret ∧
    SealedFrom gcmEnv {(List.replicate 12 0, secretText)} sealedSecret [7, 8] := by
  have haes : gcmEnv.aes = .ofGcm gcm := rfl
  obtain ⟨s, hs, hauth, hideal⟩ := (only_authentic_wallets_open haes .api unplugged (some "alice")
    sealedState ()).1 [7, 8] (.inl sealedState_opens)
  have he : sealedSecret = s := Option.some.inj (sealedState_wallet.symm.trans hs)
  subst he
  exact ⟨haes, sealedState_opens, hauth, hideal _ _ gcm_ideal rfl⟩

end Sample

end Nexus
