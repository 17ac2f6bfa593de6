import Mathlib.Data.List.TakeWhile
import Mathlib.Data.Nat.Digits.Lemmas
import Mathlib.Tactic.Common

/-!
# Byte buffers as text

A buffer is a list of bytes.  It is written as text in four ways.

*Base 16.*  Two digits for a byte.

*Base 64.*  There are two alphabets to write in, and one decoder that reads both.
Three bytes are four digits.  The last group may be short, and only the standard
alphabet pads it.  The decoder drops every character that is not a digit, so it
needs no padding.  `decode_encode` and `decode_encodeUrl` are the round trips.

*Base 58.*  The buffer is a number in base 256 and is written in base 58, with a `1`
for every zero byte in front.  Different buffers have different texts
(`Base58.encode_injective`), and 32 bytes have from 32 to 44 characters
(`Base58.length_encode`).

*UTF-8.*  The encoding is that of `String`.  The decoder puts the replacement
character for what is not an encoding (`Utf8.lossy`).  `Utf8.decode_encode` is
the round trip.
-/

namespace Hex

/-- The digit of a number below 16. -/
def digit (n : Nat) : Char := "0123456789abcdef".toList.getD n '0'

/-- `buf.toString('hex')`. -/
def encode (bs : List UInt8) : String :=
  String.ofList (bs.flatMap fun b => [digit (b.toNat / 16), digit (b.toNat % 16)])

theorem length_encode (bs : List UInt8) : (encode bs).toList.length = 2 * bs.length := by
  simp [encode, Nat.mul_comm]

/-- A text in base 16 has no dash. -/
theorem dash_notMem_encode (bs : List UInt8) : '-' ∉ (encode bs).toList := by
  have hdigit : ∀ m : Fin 16, digit m ≠ '-' := by decide
  intro h
  simp only [encode, String.toList_ofList, List.mem_flatMap, List.mem_cons, List.not_mem_nil,
    or_false] at h
  obtain ⟨b, _, he | he⟩ := h
  · exact hdigit ⟨b.toNat / 16, Nat.div_lt_of_lt_mul b.toNat_lt⟩ he.symm
  · exact hdigit ⟨b.toNat % 16, Nat.mod_lt _ (by decide)⟩ he.symm

end Hex

namespace Base64

/-- The digits both alphabets share. -/
def common : List Char :=
  "ABCDEFGHIJKLMNOPQRSTUVWXYZabcdefghijklmnopqrstuvwxyz0123456789".toList

/-- The digit of a number below 64. -/
def digit (url : Bool) (n : Nat) : Char :=
  if n = 62 then (if url then '-' else '+')
  else if n = 63 then (if url then '_' else '/')
  else common.getD n 'A'

/-- The number of a digit of either alphabet. -/
def value (c : Char) : Option Nat :=
  if c = '+' ∨ c = '-' then some 62
  else if c = '/' ∨ c = '_' then some 63
  else if c ∈ common then some (common.idxOf c) else none

theorem value_digit (url : Bool) {n : Nat} (h : n < 64) : value (digit url n) = some n := by
  have hall : ∀ u : Bool, ∀ m : Fin 64, value (digit u m.val) = some m.val := by
    decide +kernel
  exact hall url ⟨n, h⟩

/-- Bytes as numbers below 64, three to four. -/
def sextets : List UInt8 → List Nat
  | x :: y :: z :: r =>
      x.toNat / 4 :: (x.toNat % 4 * 16 + y.toNat / 16) :: (y.toNat % 16 * 4 + z.toNat / 64) ::
        z.toNat % 64 :: sextets r
  | [x, y] => [x.toNat / 4, x.toNat % 4 * 16 + y.toNat / 16, y.toNat % 16 * 4]
  | [x] => [x.toNat / 4, x.toNat % 4 * 16]
  | [] => []

/-- Numbers below 64 as bytes, four to three.  A single one left over is dropped. -/
def octets : List Nat → List UInt8
  | a :: b :: c :: d :: r =>
      UInt8.ofNat (a * 4 + b / 16) :: UInt8.ofNat (b % 16 * 16 + c / 4) ::
        UInt8.ofNat (c % 4 * 64 + d) :: octets r
  | [a, b, c] => [UInt8.ofNat (a * 4 + b / 16), UInt8.ofNat (b % 16 * 16 + c / 4)]
  | [a, b] => [UInt8.ofNat (a * 4 + b / 16)]
  | _ => []

/-- `buf.toString('base64url')`. -/
def encodeUrl (bs : List UInt8) : String := String.ofList ((sextets bs).map (digit true))

/-- `buf.toString('base64')`. -/
def encode (bs : List UInt8) : String :=
  String.ofList ((sextets bs).map (digit false) ++ List.replicate ((3 - bs.length % 3) % 3) '=')

/-- `Buffer.from(s, 'base64')` and `Buffer.from(s, 'base64url')`. -/
def decode (s : String) : List UInt8 := octets (s.toList.filterMap value)

theorem sextets_lt : ∀ (bs : List UInt8), ∀ n ∈ sextets bs, n < 64
  | x :: y :: z :: r, n, hn => by
      have hx := x.toNat_lt
      have hy := y.toNat_lt
      have hz := z.toNat_lt
      simp only [sextets, List.mem_cons] at hn
      rcases hn with rfl | rfl | rfl | rfl | hn
      · omega
      · omega
      · omega
      · omega
      · exact sextets_lt r n hn
  | [x, y], n, hn => by
      have hx := x.toNat_lt
      have hy := y.toNat_lt
      simp only [sextets, List.mem_cons, List.not_mem_nil, or_false] at hn
      omega
  | [x], n, hn => by
      have hx := x.toNat_lt
      simp only [sextets, List.mem_cons, List.not_mem_nil, or_false] at hn
      omega
  | [], n, hn => by simp [sextets] at hn

theorem octets_sextets : ∀ bs : List UInt8, octets (sextets bs) = bs
  | x :: y :: z :: r => by
      have hx := x.toNat_lt
      have hy := y.toNat_lt
      have hz := z.toNat_lt
      have h1 : x.toNat / 4 * 4 + (x.toNat % 4 * 16 + y.toNat / 16) / 16 = x.toNat := by omega
      have h2 : (x.toNat % 4 * 16 + y.toNat / 16) % 16 * 16 +
          (y.toNat % 16 * 4 + z.toNat / 64) / 4 = y.toNat := by omega
      have h3 : (y.toNat % 16 * 4 + z.toNat / 64) % 4 * 64 + z.toNat % 64 = z.toNat := by omega
      simp only [sextets, octets, h1, h2, h3, UInt8.ofNat_toNat, octets_sextets r]
  | [x, y] => by
      have hx := x.toNat_lt
      have hy := y.toNat_lt
      have h1 : x.toNat / 4 * 4 + (x.toNat % 4 * 16 + y.toNat / 16) / 16 = x.toNat := by omega
      have h2 : (x.toNat % 4 * 16 + y.toNat / 16) % 16 * 16 + y.toNat % 16 * 4 / 4 =
          y.toNat := by omega
      simp only [sextets, octets, h1, h2, UInt8.ofNat_toNat]
  | [x] => by
      have hx := x.toNat_lt
      have h1 : x.toNat / 4 * 4 + x.toNat % 4 * 16 / 16 = x.toNat := by omega
      simp only [sextets, octets, h1, UInt8.ofNat_toNat]
  | [] => rfl

/-- The decoder reads the digits back. -/
theorem filterMap_digit (url : Bool) : ∀ ns : List Nat, (∀ n ∈ ns, n < 64) →
    (ns.map (digit url)).filterMap value = ns
  | [], _ => rfl
  | n :: ns, h => by
      have hn := value_digit url (h n (List.mem_cons_self ..))
      have ih := filterMap_digit url ns fun m hm => h m (List.mem_cons_of_mem _ hm)
      simp only [List.map_cons, List.filterMap_cons, hn, ih]

theorem filterMap_padding : ∀ k : Nat, (List.replicate k '=').filterMap value = []
  | 0 => rfl
  | k + 1 => by
      have hv : value '=' = none := by decide
      simp only [List.replicate_succ, List.filterMap_cons, hv, filterMap_padding k]

theorem decode_encode (bs : List UInt8) : decode (encode bs) = bs := by
  simp only [decode, encode, String.toList_ofList, List.filterMap_append,
    filterMap_digit false _ (sextets_lt bs), filterMap_padding, List.append_nil, octets_sextets]

theorem decode_encodeUrl (bs : List UInt8) : decode (encodeUrl bs) = bs := by
  simp only [decode, encodeUrl, String.toList_ofList, filterMap_digit true _ (sextets_lt bs),
    octets_sextets]

/-- A text in the second alphabet has no dot. -/
theorem dot_notMem_encodeUrl (bs : List UInt8) : '.' ∉ (encodeUrl bs).toList := by
  have hdot : value '.' = none := by decide
  intro h
  simp only [encodeUrl, String.toList_ofList, List.mem_map] at h
  obtain ⟨n, hn, he⟩ := h
  have hv := value_digit true (sextets_lt bs n hn)
  rw [he, hdot] at hv
  cases hv

/-- Three bytes are four digits. -/
theorem length_sextets : ∀ (n : Nat) (bs : List UInt8), bs.length = 3 * n →
    (sextets bs).length = 4 * n
  | 0, [], _ => rfl
  | n + 1, x :: y :: z :: r, h => by
      have ih := length_sextets n r (by simp only [List.length_cons] at h; omega)
      simp only [sextets, List.length_cons, ih]
      omega
  | n + 1, [], h | n + 1, [_], h | n + 1, [_, _], h => by
      simp only [List.length_cons, List.length_nil] at h
      omega

/-- Only the empty buffer has an empty text. -/
theorem encodeUrl_eq_empty {bs : List UInt8} (h : encodeUrl bs = "") : bs = [] := by
  rw [← decode_encodeUrl bs, h]
  rfl

example : encode [77, 97] = "TWE=" := by decide

end Base64

namespace Base58

/-- The digits. -/
def alphabet : List Char :=
  "123456789ABCDEFGHJKLMNPQRSTUVWXYZabcdefghijkmnopqrstuvwxyz".toList

/-- The digits of a number, the last one first, given as many units of fuel. -/
def digits : Nat → Nat → List Char
  | 0, _ => []
  | fuel + 1, n => if n = 0 then [] else alphabet.getD (n % 58) '1' :: digits fuel (n / 58)

/-- The number a buffer denotes, its first byte being the most significant. -/
def number (bs : List UInt8) : Nat := bs.foldl (fun n b => 256 * n + b.toNat) 0

/-- `bs58.encode(buf)`. -/
def encode (bs : List UInt8) : String :=
  String.ofList (List.replicate (bs.takeWhile (· = 0)).length '1' ++
    (digits (2 * bs.length) (number bs)).reverse)

/-- The bytes of a number, the last one first, given as many units of fuel. -/
def bytes : Nat → Nat → List UInt8
  | 0, _ => []
  | fuel + 1, n => if n = 0 then [] else UInt8.ofNat (n % 256) :: bytes fuel (n / 256)

/-- `bs58.decode(s)`.  `none` is the exception for a character that is not a digit. -/
def decode (s : String) : Option (List UInt8) :=
  (s.toList.mapM (alphabet.idxOf? ·)).map fun ds =>
    List.replicate (s.toList.takeWhile (· = '1')).length 0 ++
      (bytes s.toList.length (ds.foldl (fun n d => 58 * n + d) 0)).reverse

/-! ### Different buffers have different texts -/

theorem digits_eq : ∀ {fuel n : Nat}, n < 58 ^ fuel →
    digits fuel n = (Nat.digits 58 n).map fun d => alphabet.getD d '1'
  | 0, n, h => by
      obtain rfl : n = 0 := by simpa using h
      simp [digits]
  | fuel + 1, n, h => by
      by_cases hn : n = 0
      · simp [digits, hn]
      · have hlt : n / 58 < 58 ^ fuel := Nat.div_lt_of_lt_mul (by rwa [pow_succ'] at h)
        rw [Nat.digits_def' (by decide) (Nat.pos_of_ne_zero hn), List.map_cons, ← digits_eq hlt]
        simp [digits, hn]

theorem number_eq (bs : List UInt8) : number bs = Nat.ofDigits 256 (bs.reverse.map UInt8.toNat) := by
  induction bs using List.reverseRecOn with
  | nil => rfl
  | append_singleton bs b ih =>
      rw [number, List.foldl_append, List.reverse_append]
      simp only [List.foldl_cons, List.foldl_nil, List.reverse_singleton, List.singleton_append,
        List.map_cons, Nat.ofDigits_cons, ← ih, number]
      exact Nat.add_comm _ _

theorem number_lt (bs : List UInt8) : number bs < 58 ^ (2 * bs.length) := by
  have h : number bs < 256 ^ bs.length := by
    have := Nat.ofDigits_lt_base_pow_length (b := 256) (l := bs.reverse.map UInt8.toNat) (by decide)
      (by simpa using fun b _ => b.toNat_lt)
    simpa [number_eq] using this
  calc number bs < 256 ^ bs.length := h
    _ ≤ (58 ^ 2) ^ bs.length := Nat.pow_le_pow_left (by decide) _
    _ = 58 ^ (2 * bs.length) := (pow_mul ..).symm

/-- The digits of a number, the first one being the most significant. -/
def text (n : Nat) : List Char := ((Nat.digits 58 n).map fun d => alphabet.getD d '1').reverse

theorem toList_encode (bs : List UInt8) : (encode bs).toList =
    List.replicate (bs.takeWhile (· = 0)).length '1' ++ text (number bs) := by
  rw [encode, String.toList_ofList, digits_eq (number_lt bs), text]

theorem idxOf_digit {d : Nat} (hd : d < 58) : alphabet.idxOf (alphabet.getD d '1') = d := by
  have hall : ∀ i < 58, alphabet.idxOf (alphabet.getD i '1') = i := by decide +kernel
  exact hall d hd

theorem text_injective {n m : Nat} (h : text n = text m) : n = m := by
  have hback : ∀ k, (text k).reverse.map alphabet.idxOf = Nat.digits 58 k := by
    intro k
    rw [text, List.reverse_reverse, List.map_map]
    refine (List.map_congr_left fun d hd => ?_).trans (List.map_id _)
    exact idxOf_digit (Nat.digits_lt_base (by decide) hd)
  exact Nat.digits.injective 58 (by rw [← hback n, ← hback m, h])

/-- The text of a number does not begin with a `1`. -/
theorem takeWhile_text (n : Nat) : (text n).takeWhile (· = '1') = [] := by
  cases htext : text n with
  | nil => rfl
  | cons c cs =>
      have hhead : ((Nat.digits 58 n).map fun d => alphabet.getD d '1').getLast? = some c := by
        rw [← List.head?_reverse]
        exact congrArg List.head? htext
      rw [List.getLast?_map] at hhead
      obtain ⟨d, hd, rfl⟩ := Option.map_eq_some_iff.mp hhead
      have hne : Nat.digits 58 n ≠ [] := fun he => by simp [he] at hd
      have hlast : (Nat.digits 58 n).getLast hne ≠ 0 :=
        Nat.getLast_digit_ne_zero 58 (Nat.digits_ne_nil_iff_ne_zero.mp hne)
      rw [List.getLast?_eq_some_getLast hne] at hd
      cases hd
      refine List.takeWhile_cons_of_neg ?_
      intro hone
      have hidx := idxOf_digit (Nat.digits_lt_base (by decide) (List.getLast_mem hne))
      rw [of_decide_eq_true hone] at hidx
      exact hlast hidx.symm

theorem number_dropWhile : ∀ bs : List UInt8, number (bs.dropWhile (· = 0)) = number bs
  | [] => rfl
  | b :: bs => by
      by_cases hb : b = 0
      · subst hb
        rw [List.dropWhile_cons_of_pos (by simp), number_dropWhile bs]
        rfl
      · rw [List.dropWhile_cons_of_neg (by simpa using hb)]

/-- The bytes behind the zeros in front are the digits of the number. -/
theorem digits_number (bs : List UInt8) :
    Nat.digits 256 (number bs) = (bs.dropWhile (· = 0)).reverse.map UInt8.toNat := by
  rw [← number_dropWhile, number_eq]
  refine Nat.digits_ofDigits 256 (by decide) _ (by simpa using fun b _ => b.toNat_lt) ?_
  intro hne
  rw [List.getLast_map, List.getLast_reverse]
  have hhead := List.head_dropWhile_not (fun b : UInt8 => decide (b = 0))
    (l := bs) (by simpa using hne)
  exact fun he => of_decide_eq_false hhead (UInt8.toNat_inj.mp he)

theorem eq_of_number {bs bs' : List UInt8}
    (hz : (bs.takeWhile (· = 0)).length = (bs'.takeWhile (· = 0)).length)
    (hn : number bs = number bs') : bs = bs' := by
  have hzeros : ∀ l : List UInt8, l.takeWhile (· = 0) =
      List.replicate (l.takeWhile (· = 0)).length 0 := by
    intro l
    refine List.eq_replicate_length.mpr fun b hb => ?_
    simpa using List.mem_takeWhile_imp hb
  have hrest : bs.dropWhile (· = 0) = bs'.dropWhile (· = 0) := by
    have h := congrArg (Nat.digits 256) hn
    rw [digits_number, digits_number] at h
    exact List.reverse_injective (List.map_injective_iff.mpr (fun _ _ => UInt8.toNat_inj.mp) h)
  rw [← List.takeWhile_append_dropWhile (p := (· = 0)) (l := bs), hzeros bs, hz, hrest,
    ← hzeros bs', List.takeWhile_append_dropWhile]

theorem encode_injective : Function.Injective encode := by
  intro bs bs' h
  have hlist := congrArg String.toList h
  rw [toList_encode, toList_encode] at hlist
  have hones : ∀ z n, (List.replicate z '1' ++ text n).takeWhile (· = '1') =
      List.replicate z '1' := by
    intro z n
    rw [List.takeWhile_append_of_pos (by simp), takeWhile_text, List.append_nil]
  have hz : (bs.takeWhile (· = 0)).length = (bs'.takeWhile (· = 0)).length := by
    simpa [hones] using congrArg (fun l => (l.takeWhile (· = '1')).length) hlist
  rw [hz] at hlist
  exact eq_of_number hz (text_injective (List.append_cancel_left hlist))

example : decode "So11111111111111111111111111111111111111112" =
    some [6, 155, 136, 87, 254, 171, 129, 132, 251, 104, 127, 99, 70, 24, 192, 53, 218, 196, 57,
      220, 26, 235, 59, 85, 152, 160, 240, 0, 0, 0, 0, 1] := by
  decide +kernel

/-! ### How long a text is -/

theorem length_toList_encode (bs : List UInt8) : (encode bs).toList.length =
    (bs.takeWhile (· = 0)).length + (Nat.digits 58 (number bs)).length := by
  rw [toList_encode, List.length_append, List.length_replicate, text, List.length_reverse,
    List.length_map]

theorem mem_alphabet_of_mem_encode {bs : List UInt8} {c : Char} (hc : c ∈ (encode bs).toList) :
    c ∈ alphabet := by
  rw [toList_encode] at hc
  rcases List.mem_append.mp hc with hc | hc
  · rw [List.eq_of_mem_replicate hc]
    decide
  · obtain ⟨d, hd, rfl⟩ := List.mem_map.mp (List.mem_reverse.mp hc)
    have hall : ∀ i < 58, alphabet.getD i '1' ∈ alphabet := by decide +kernel
    exact hall d (Nat.digits_lt_base (by decide) hd)

/-- A number of so many bytes, of which the first is not zero, has from as many to twelve more
digits. -/
theorem length_digits_bounds {m n : Nat} (hm : m ≤ 32) (h : (Nat.digits 256 n).length = m) :
    m ≤ (Nat.digits 58 n).length ∧ (Nat.digits 58 n).length ≤ m + 12 := by
  constructor
  · cases m with
    | zero => exact Nat.zero_le _
    | succ m =>
        have hle : 256 ^ m ≤ n := (Nat.lt_digits_length_iff (by decide) n).mp (by omega)
        have hpow : 58 ^ m ≤ n := (Nat.pow_le_pow_left (by decide) m).trans hle
        exact (Nat.lt_digits_length_iff (by decide) n).mpr hpow
  · have hlt : n < 256 ^ m := (Nat.digits_length_le_iff (by decide) n).mp (by omega)
    have hpow : ∀ m ≤ 32, 256 ^ m ≤ 58 ^ (m + 12) := by decide +kernel
    exact (Nat.digits_length_le_iff (by decide) n).mpr (hlt.trans_le (hpow m hm))

/-- A key of 32 bytes has from 32 to 44 characters. -/
theorem length_encode {bs : List UInt8} (h : bs.length = 32) :
    32 ≤ (encode bs).toList.length ∧ (encode bs).toList.length ≤ 44 := by
  have hsplit := congrArg List.length (List.takeWhile_append_dropWhile (p := (· = 0)) (l := bs))
  rw [List.length_append, h] at hsplit
  have hdigits : (Nat.digits 256 (number bs)).length = (bs.dropWhile (· = 0)).length := by
    rw [digits_number, List.length_map, List.length_reverse]
  have hbounds := length_digits_bounds (by omega) hdigits
  rw [length_toList_encode]
  omega

end Base58

namespace Utf8

/-- `Buffer.from(s)`. -/
def encode (s : String) : List UInt8 := s.toByteArray.data.toList

/-- Read byte by byte, with the replacement character for each byte that does not
start a character.  The counter skips the rest of a character that was read. -/
def lossy : Nat → List UInt8 → List Char
  | _, [] => []
  | n + 1, _ :: bs => lossy n bs
  | 0, b :: bs =>
      match (ByteArray.mk (b :: bs.take 3).toArray).utf8DecodeChar? 0 with
      | some c => c :: lossy (c.utf8Size - 1) bs
      | none => '\uFFFD' :: lossy 0 bs

/-- `buf.toString()`. -/
def decode (bs : List UInt8) : String :=
  match (ByteArray.mk bs.toArray).utf8Decode? with
  | some cs => String.ofList cs.toList
  | none => String.ofList (lossy 0 bs)

theorem decode_encode (s : String) : decode (encode s) = s := by
  have h : (ByteArray.mk s.toByteArray.data.toList.toArray).utf8Decode? =
      some s.toList.toArray := by
    rw [Array.toArray_toList, ← List.utf8Decode?_utf8Encode, String.utf8Encode_toList]
  simp only [decode, encode, h, String.ofList_toList]

end Utf8
