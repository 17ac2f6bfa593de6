import Mathlib.Data.Set.Defs
import Mathlib.Tactic.Common

/-!
# Counter mode with a tag

A cipher in Galois/counter mode under a fixed key.  The vector gives a key stream, which is added
to the text, and a cipher text has a tag of sixteen bytes.

`decrypt` is the decryption of a library that also takes shorter tags.  It then compares only the
bytes it was given, so that four bytes are enough to have a cipher text accepted.  A tag of sixteen
bytes is compared in full (`decrypt_full`).

`Ideal` is what is expected of such a cipher when it is attacked.  Nobody is able to find the full
tag of a cipher text that did not come out of an encryption.  Nothing is said of shorter tags,
which can be guessed.
-/

/-- A cipher under a fixed key. -/
structure Gcm where
  /-- The byte of the key stream at a place. -/
  stream : List UInt8 → Nat → UInt8
  /-- The tag of a cipher text. -/
  tag : List UInt8 → List UInt8 → List UInt8
  tag_length : ∀ iv cip, (tag iv cip).length = 16

namespace Gcm

/-- The lengths of the tags that are taken. -/
def TagLength (n : Nat) : Prop := n = 4 ∨ n = 8 ∨ 12 ≤ n ∧ n ≤ 16

instance : DecidablePred TagLength := fun n =>
  inferInstanceAs (Decidable (n = 4 ∨ n = 8 ∨ 12 ≤ n ∧ n ≤ 16))

variable (g : Gcm)

/-- Add the key stream. -/
def crypt (iv data : List UInt8) : List UInt8 := data.mapIdx fun i b => b ^^^ g.stream iv i

/-- The cipher text and its tag. -/
def encrypt (iv plain : List UInt8) : List UInt8 × List UInt8 :=
  (g.crypt iv plain, g.tag iv (g.crypt iv plain))

/-- Decrypt, if the tag is of a length that is taken and its bytes are right. -/
def decrypt (iv tag cip : List UInt8) : Option (List UInt8) :=
  if iv ≠ [] ∧ TagLength tag.length ∧ tag <+: g.tag iv cip then some (g.crypt iv cip) else none

/-- What is encrypted is `made`, and what is handed in for decryption is `presented`.  Of the
latter, what has its full tag was encrypted. -/
def Ideal (made : Set (List UInt8 × List UInt8))
    (presented : Set (List UInt8 × List UInt8 × List UInt8)) : Prop :=
  ∀ iv tag cip, (iv, tag, cip) ∈ presented → tag = g.tag iv cip →
    ∃ plain, (iv, plain) ∈ made ∧ g.encrypt iv plain = (cip, tag)

variable {g}

@[simp] theorem length_crypt (iv data : List UInt8) : (g.crypt iv data).length = data.length :=
  List.length_mapIdx

/-- The key stream is taken off by adding it again. -/
theorem crypt_crypt (iv data : List UInt8) : g.crypt iv (g.crypt iv data) = data := by
  refine List.ext_getElem (by simp) fun i _ _ => ?_
  simp [crypt, UInt8.xor_assoc]

theorem decrypt_eq_some {iv tag cip plain : List UInt8} (h : g.decrypt iv tag cip = some plain) :
    (iv ≠ [] ∧ TagLength tag.length ∧ tag <+: g.tag iv cip) ∧ plain = g.crypt iv cip := by
  unfold decrypt at h
  split at h
  next hok => exact ⟨hok, (Option.some.inj h).symm⟩
  next => cases h

theorem decrypt_encrypt {iv : List UInt8} (hiv : iv ≠ []) (plain : List UInt8) :
    g.decrypt iv (g.encrypt iv plain).2 (g.encrypt iv plain).1 = some plain := by
  have hlen : TagLength (g.encrypt iv plain).2.length := by
    rw [encrypt, g.tag_length]
    decide
  rw [decrypt, if_pos ⟨hiv, hlen, List.prefix_rfl⟩, encrypt, crypt_crypt]

/-- An empty cipher text has an empty text, whatever its tag. -/
theorem decrypt_nil {iv tag plain : List UInt8} (h : g.decrypt iv tag [] = some plain) :
    plain = [] := (decrypt_eq_some h).2

/-- A tag of sixteen bytes is compared in full. -/
theorem decrypt_full {iv tag cip plain : List UInt8} (h : g.decrypt iv tag cip = some plain)
    (hlen : tag.length = 16) : tag = g.tag iv cip :=
  (decrypt_eq_some h).1.2.2.eq_of_length (hlen.trans (g.tag_length iv cip).symm)

/-- What an ideal cipher decrypts under a full tag was encrypted. -/
theorem Ideal.made_of_decrypt {made : Set (List UInt8 × List UInt8)}
    {presented : Set (List UInt8 × List UInt8 × List UInt8)} (hi : g.Ideal made presented)
    {iv tag cip plain : List UInt8} (hp : (iv, tag, cip) ∈ presented) (hlen : tag.length = 16)
    (h : g.decrypt iv tag cip = some plain) :
    (iv, plain) ∈ made ∧ g.encrypt iv plain = (cip, tag) := by
  obtain ⟨plain', hmade, henc⟩ := hi iv tag cip hp (decrypt_full h hlen)
  have hplain : plain = plain' := by
    rw [(decrypt_eq_some h).2, ← crypt_crypt (g := g) iv plain']
    exact congrArg _ (congrArg Prod.fst henc).symm
  exact ⟨hplain ▸ hmade, hplain ▸ henc⟩

end Gcm
