import Mathlib.Data.List.TakeWhile
import Mathlib.Tactic.FieldSimp
import Mathlib.Tactic.Linarith
import Mathlib.Tactic.Ring
import NexusErebus.Text.Number

/-!
# Decimal texts

A text of digits and points, which may or may not be a number.  It is one if there is at most
one point and at least one digit (`Number.ofText_decimal`).

Amounts are counted in units of `10 ^ -k`.  `Number.wholeUnits_iff` says which texts denote a
positive number of units: those with at most one point, a digit that is not zero, and nothing but
zeros behind the first `k` decimals.
-/

namespace Number

/-! ## Digits -/

theorem ofDigitChars_init (ys : List Char) (n : Nat) :
    Nat.ofDigitChars 10 ys n = n * 10 ^ ys.length + natOf ys := by
  induction ys generalizing n with
  | nil => simp [natOf]
  | cons c cs ih =>
      rw [natOf, Nat.ofDigitChars_cons, Nat.ofDigitChars_cons, ih, ih (10 * 0 + _), List.length_cons]
      ring

theorem natOf_append (xs ys : List Char) :
    natOf (xs ++ ys) = natOf xs * 10 ^ ys.length + natOf ys := by
  rw [natOf, Nat.ofDigitChars_append, ofDigitChars_init]
  rfl

theorem natOf_cons (c : Char) (cs : List Char) :
    natOf (c :: cs) = (c.toNat - '0'.toNat) * 10 ^ cs.length + natOf cs := by
  rw [natOf, Nat.ofDigitChars_cons, ofDigitChars_init, Nat.mul_zero, Nat.zero_add]

theorem toNat_of_isDigit {c : Char} (h : c.isDigit = true) : 48 ≤ c.toNat ∧ c.toNat ≤ 57 := by
  have h' : (decide (c.val ≥ 48) && decide (c.val ≤ 57)) = true := h
  simp only [Bool.and_eq_true, decide_eq_true_eq] at h'
  exact ⟨UInt32.le_iff_toNat_le.mp h'.1, UInt32.le_iff_toNat_le.mp h'.2⟩

/-- So many digits denote a number with at most so many digits. -/
theorem natOf_lt {ds : List Char} (h : ∀ c ∈ ds, c.isDigit = true) : natOf ds < 10 ^ ds.length := by
  induction ds with
  | nil => simp [natOf]
  | cons c cs ih =>
      have hcs := ih fun d hd => h d (List.mem_cons_of_mem _ hd)
      have hc := toNat_of_isDigit (h c (List.mem_cons_self ..))
      have hdigit : c.toNat - '0'.toNat ≤ 9 := by
        rw [show '0'.toNat = 48 from rfl]
        omega
      rw [natOf_cons, List.length_cons, pow_succ]
      nlinarith [Nat.mul_le_mul_right (10 ^ cs.length) hdigit]

/-- Digits denote zero if and only if all of them are zero. -/
theorem natOf_eq_zero_iff {ds : List Char} (h : ∀ c ∈ ds, c.isDigit = true) :
    natOf ds = 0 ↔ ∀ c ∈ ds, c = '0' := by
  induction ds with
  | nil => simp [natOf]
  | cons c cs ih =>
      have ih := ih fun d hd => h d (List.mem_cons_of_mem _ hd)
      have hc := toNat_of_isDigit (h c (List.mem_cons_self ..))
      have hzero : c.toNat - '0'.toNat = 0 ↔ c = '0' := by
        rw [← Char.toNat_inj, show '0'.toNat = 48 from rfl]
        omega
      have hpow : (10 ^ cs.length : Nat) ≠ 0 := by positivity
      rw [natOf_cons, List.forall_mem_cons, ← ih, ← hzero, Nat.add_eq_zero_iff, Nat.mul_eq_zero,
        or_iff_left hpow]

/-- A number ends in so many zeros if and only if its last digits are zeros. -/
theorem pow_dvd_natOf_iff {xs ys : List Char} (hy : ∀ c ∈ ys, c.isDigit = true) :
    10 ^ ys.length ∣ natOf (xs ++ ys) ↔ ∀ c ∈ ys, c = '0' := by
  rw [natOf_append, Nat.dvd_add_right (Dvd.intro_left _ rfl), ← natOf_eq_zero_iff hy]
  exact ⟨fun h => Nat.eq_zero_of_dvd_of_lt h (natOf_lt hy), fun h => h ▸ Nat.dvd_zero _⟩

/-! ## Points -/

/-- The digits in front of the first point. -/
def whole (cs : List Char) : List Char := cs.takeWhile Char.isDigit

/-- What is behind the first point. -/
def fraction (cs : List Char) : List Char := (cs.dropWhile Char.isDigit).tail

/-- A character of a decimal text. -/
def isDecimal (c : Char) : Bool := c.isDigit || c = '.'

theorem isDecimal_cases {c : Char} (h : isDecimal c = true) : c.isDigit = true ∨ c = '.' := by
  simpa [isDecimal] using h

/-- The characters of a decimal text are between the point and the nine. -/
theorem toNat_of_isDecimal {c : Char} (h : isDecimal c = true) : 46 ≤ c.toNat ∧ c.toNat ≤ 57 := by
  rcases isDecimal_cases h with hd | rfl
  · have := toNat_of_isDigit hd
    omega
  · decide

theorem isSpace_of_isDecimal {c : Char} (h : isDecimal c = true) : Text.isSpace c = false := by
  have hc := toNat_of_isDecimal h
  have hne : ∀ d : Char, d.toNat < 46 ∨ 57 < d.toNat → c ≠ d := by
    rintro d hd rfl
    omega
  have hle : ¬ '\u2000' ≤ c := by
    intro hle
    have : '\u2000'.toNat ≤ c.toNat := UInt32.le_iff_toNat_le.mp hle
    simp at this
    omega
  simp [Text.isSpace, hne, hle]

/-- Nothing is trimmed from a text without spaces. -/
theorem trim_eq {s : String} (h : ∀ c ∈ s.toList, Text.isSpace c = false) : Text.trim s = s := by
  have hdrop : ∀ cs : List Char, (∀ c ∈ cs, Text.isSpace c = false) →
      cs.dropWhile Text.isSpace = cs := by
    intro cs hcs
    cases cs with
    | nil => rfl
    | cons c cs => rw [List.dropWhile_cons_of_neg (by simp [hcs c (List.mem_cons_self ..)])]
  rw [Text.trim, hdrop _ h, hdrop _ fun c hc => h c (List.mem_reverse.mp hc), List.reverse_reverse,
    String.ofList_toList]

/-- What comes after the digits is a point and the rest. -/
theorem dropWhile_decimal {cs : List Char} (h : ∀ c ∈ cs, isDecimal c = true) :
    cs.dropWhile Char.isDigit = [] ∨ ∃ r, cs.dropWhile Char.isDigit = '.' :: r ∧
      ∀ c ∈ r, isDecimal c = true := by
  have hmem : ∀ c ∈ cs.dropWhile Char.isDigit, isDecimal c = true := fun c hc =>
    h c ((List.dropWhile_suffix _).subset hc)
  cases hr : cs.dropWhile Char.isDigit with
  | nil => exact .inl rfl
  | cons c r =>
      rw [hr] at hmem
      have hnot : c.isDigit = false := by
        have := List.head_dropWhile_not Char.isDigit (l := cs) (by rw [hr]; simp)
        simpa [hr] using this
      rcases isDecimal_cases (hmem c (List.mem_cons_self ..)) with hd | rfl
      · rw [hnot] at hd
        cases hd
      · exact .inr ⟨r, rfl, fun c hc => hmem c (List.mem_cons_of_mem _ hc)⟩

/-- A decimal text has no sign, so it is read as a literal. -/
theorem signed_decimal {cs : List Char} (h : ∀ c ∈ cs, isDecimal c = true) :
    signed cs = literal cs := by
  unfold signed
  split
  next => exact absurd (toNat_of_isDecimal (h '-' (List.mem_cons_self ..))).1 (by decide)
  next => exact absurd (toNat_of_isDecimal (h '+' (List.mem_cons_self ..))).1 (by decide)
  next => rfl

/-- The literal at the front of a decimal text ends at the second point. -/
theorem literal_decimal {cs : List Char} (h : ∀ c ∈ cs, isDecimal c = true) :
    literal cs = if whole cs ++ (fraction cs).takeWhile Char.isDigit = [] then none
      else some ((natOf (whole cs ++ (fraction cs).takeWhile Char.isDigit) : ℚ) /
        10 ^ ((fraction cs).takeWhile Char.isDigit).length,
          (fraction cs).dropWhile Char.isDigit) := by
  have hpoint : ∀ r : List Char, (∀ c ∈ r, isDecimal c = true) →
      exponent (r.dropWhile Char.isDigit) = (0, r.dropWhile Char.isDigit) := by
    intro r hr
    rcases dropWhile_decimal hr with h0 | ⟨r', h1, -⟩
    · rw [h0]
      rfl
    · rw [h1]
      rfl
  rcases dropWhile_decimal h with hr | ⟨r, hr, hdec⟩
  · simp [literal, whole, fraction, hr, exponent, pow10]
  · simp [literal, whole, fraction, hr, hpoint r hdec, pow10]

/-- A text of digits and points is a number if it has at most one point, and a digit. -/
theorem ofText_decimal {s : String} (h : ∀ c ∈ s.toList, isDecimal c = true) (hne : s.toList ≠ []) :
    ofText s = if (fraction s.toList).all Char.isDigit = true ∧
        whole s.toList ++ fraction s.toList ≠ [] then
      some ((natOf (whole s.toList ++ fraction s.toList) : ℚ) / 10 ^ (fraction s.toList).length)
    else none := by
  have hread : ofText s = (literal s.toList).bind fun x => if x.2 = [] then some x.1 else none := by
    rw [ofText, trim_eq fun c hc => isSpace_of_isDecimal (h c hc)]
    split
    next hnil => exact absurd hnil hne
    next =>
      rw [signed_decimal h]
      rcases literal s.toList with _ | ⟨q, _ | ⟨c, r⟩⟩ <;> rfl
  rw [hread, literal_decimal h]
  by_cases hd : ∀ c ∈ fraction s.toList, c.isDigit = true
  · have htake : (fraction s.toList).takeWhile Char.isDigit = fraction s.toList :=
      List.takeWhile_eq_self_iff.mpr hd
    have hdrop : (fraction s.toList).dropWhile Char.isDigit = [] :=
      List.dropWhile_eq_nil_iff.mpr hd
    rw [htake, hdrop]
    by_cases he : whole s.toList ++ fraction s.toList = []
    · rw [if_pos he, if_neg fun hc => hc.2 he]
      rfl
    · rw [if_neg he, if_pos ⟨List.all_eq_true.mpr hd, he⟩]
      rfl
  · have hdrop : (fraction s.toList).dropWhile Char.isDigit ≠ [] := fun he =>
      hd (List.dropWhile_eq_nil_iff.mp he)
    have hnone : ¬((fraction s.toList).all Char.isDigit = true ∧
        whole s.toList ++ fraction s.toList ≠ []) := fun hc => hd (List.all_eq_true.mp hc.1)
    rw [if_neg hnone]
    split
    · rfl
    · exact if_neg hdrop

/-! ## Literals -/

/-- A literal of digits, or of digits, a point and digits. -/
structure Literal where
  whole : List Char
  fraction : Option (List Char)
  whole_digits : whole ≠ [] ∧ ∀ c ∈ whole, c.isDigit = true
  fraction_digits : ∀ ds ∈ fraction, ds ≠ [] ∧ ∀ c ∈ ds, c.isDigit = true

namespace Literal

/-- The literal as it is written. -/
def text (l : Literal) : List Char :=
  l.whole ++ match l.fraction with
    | none => []
    | some ds => '.' :: ds

/-- The number a literal denotes. -/
def value (l : Literal) : ℚ :=
  natOf l.whole + match l.fraction with
    | none => 0
    | some ds => (natOf ds : ℚ) / 10 ^ ds.length

theorem isDecimal_text (l : Literal) : ∀ c ∈ l.text, isDecimal c = true := by
  obtain ⟨ws, fs, ⟨-, hws⟩, hfs⟩ := l
  have hdigit : ∀ {c : Char}, c.isDigit = true → isDecimal c = true := fun h => by simp [isDecimal, h]
  intro c hc
  rcases List.mem_append.mp hc with hc | hc
  · exact hdigit (hws c hc)
  · cases fs with
    | none => cases hc
    | some ds =>
        rcases List.mem_cons.mp hc with rfl | hc
        · rfl
        · exact hdigit ((hfs ds rfl).2 c hc)

theorem text_ne_nil (l : Literal) : l.text ≠ [] := by
  simp [text, l.whole_digits.1]

/-- All of a literal is read, as the number it denotes. -/
theorem literal_text (l : Literal) : literal l.text = some (l.value, []) := by
  rw [literal_decimal l.isDecimal_text]
  obtain ⟨ws, fs, ⟨hne, hws⟩, hfs⟩ := l
  cases fs with
  | none =>
      have hw : Number.whole ws = ws := List.takeWhile_eq_self_iff.mpr hws
      have hf : Number.fraction ws = [] := by
        rw [Number.fraction, List.dropWhile_eq_nil_iff.mpr hws]
        rfl
      simp [text, value, hw, hf, hne]
  | some ds =>
      have hw : Number.whole (ws ++ '.' :: ds) = ws := by
        rw [Number.whole, List.takeWhile_append_of_pos hws]
        simp
      have hf : Number.fraction (ws ++ '.' :: ds) = ds := by
        rw [Number.fraction, List.dropWhile_append_of_pos hws]
        rfl
      have hten : (10 : ℚ) ^ ds.length ≠ 0 := by positivity
      simp only [text, hw, hf, List.takeWhile_eq_self_iff.mpr (hfs ds rfl).2,
        List.dropWhile_eq_nil_iff.mpr (hfs ds rfl).2, natOf_append]
      rw [if_neg (by simp [hne]), value]
      push_cast
      rw [add_div, mul_div_assoc, div_self hten, mul_one]

theorem signed_text (l : Literal) : signed l.text = some (l.value, []) :=
  (signed_decimal l.isDecimal_text).trans l.literal_text

/-- A literal is read as the number it denotes. -/
theorem ofText_eq (l : Literal) : ofText (String.ofList l.text) = some l.value := by
  have htrim : Text.trim (String.ofList l.text) = String.ofList l.text :=
    trim_eq fun c hc => isSpace_of_isDecimal (l.isDecimal_text c (by simpa using hc))
  rw [ofText, htrim, String.toList_ofList]
  split
  next hnil => exact absurd hnil l.text_ne_nil
  next => rw [l.signed_text]

theorem parseFloat_eq (l : Literal) : parseFloat (String.ofList l.text) = some l.value := by
  have hspace : l.text.dropWhile Text.isSpace = l.text := by
    obtain ⟨c, cs, hcs⟩ := List.exists_cons_of_ne_nil l.text_ne_nil
    have hc := isSpace_of_isDecimal (l.isDecimal_text c (hcs ▸ List.mem_cons_self ..))
    rw [hcs, List.dropWhile_cons_of_neg (by simp [hc])]
  rw [parseFloat, String.toList_ofList, hspace, l.signed_text]
  rfl

end Literal

/-! ## Units -/

/-- The texts that denote a positive number of units of `10 ^ -k`. -/
def wholeUnits (k : Nat) (s : String) : Bool :=
  (fraction s.toList).all Char.isDigit &&
    (whole s.toList ++ fraction s.toList).any (· ≠ '0') &&
    ((fraction s.toList).drop k).all (· = '0')

/-- Digits behind the point are a whole number of units if and only if those behind the first `k`
are zeros. -/
theorem units_iff {ds fs : List Char} (hfs : ∀ c ∈ fs, c.isDigit = true) (k : Nat) :
    (∃ n : Nat, (natOf (ds ++ fs) : ℚ) / 10 ^ fs.length * 10 ^ k = n) ↔ ∀ c ∈ fs.drop k, c = '0' := by
  have hdrop : ∀ c ∈ fs.drop k, c.isDigit = true := fun c hc => hfs c (List.mem_of_mem_drop hc)
  have hsplit : ds ++ fs = (ds ++ fs.take k) ++ fs.drop k := by
    rw [List.append_assoc, List.take_append_drop]
  have hten : (10 : ℚ) ^ fs.length ≠ 0 := by positivity
  rw [← @pow_dvd_natOf_iff (ds ++ fs.take k) _ hdrop, ← hsplit, List.length_drop]
  rcases Nat.le_total fs.length k with hk | hk
  · -- every digit counts at least one unit
    rw [Nat.sub_eq_zero_of_le hk, pow_zero]
    refine iff_of_true ⟨natOf (ds ++ fs) * 10 ^ (k - fs.length), ?_⟩ (one_dvd _)
    rw [div_mul_eq_mul_div, div_eq_iff hten]
    push_cast
    rw [mul_assoc, ← pow_add, Nat.sub_add_cancel hk]
  · have hpow : (10 : ℚ) ^ fs.length = 10 ^ (fs.length - k) * 10 ^ k := by
      rw [← pow_add, Nat.sub_add_cancel hk]
    have heq : ∀ n : Nat, (natOf (ds ++ fs) : ℚ) / 10 ^ fs.length * 10 ^ k = n ↔
        natOf (ds ++ fs) = 10 ^ (fs.length - k) * n := by
      intro n
      rw [hpow, div_mul_eq_mul_div, mul_div_mul_right _ _ (by positivity), div_eq_iff (by positivity),
        mul_comm (n : ℚ)]
      exact_mod_cast Iff.rfl
    simp only [heq]
    exact Iff.rfl

/-- A text of digits and points denotes a positive number of units if and only if it has at most
one point, a digit that is not zero, and nothing but zeros behind the first `k` decimals. -/
theorem wholeUnits_iff {s : String} (h : ∀ c ∈ s.toList, isDecimal c = true) (hne : s.toList ≠ [])
    (k : Nat) : wholeUnits k s = true ↔
      ∃ q : ℚ, ofText s = some q ∧ ∃ n : Nat, 0 < n ∧ q * 10 ^ k = n := by
  simp only [wholeUnits, Bool.and_eq_true, List.all_eq_true, List.any_eq_true, decide_eq_true_eq]
  rw [ofText_decimal h hne]
  by_cases hfs : ∀ c ∈ fraction s.toList, c.isDigit = true
  · have hdigits : ∀ c ∈ whole s.toList ++ fraction s.toList, c.isDigit = true := by
      intro c hc
      rcases List.mem_append.mp hc with hc | hc
      · exact List.mem_takeWhile_imp hc
      · exact hfs c hc
    have hpos : (∃ c ∈ whole s.toList ++ fraction s.toList, c ≠ '0') ↔
        natOf (whole s.toList ++ fraction s.toList) ≠ 0 := by
      rw [Ne, natOf_eq_zero_iff hdigits]
      push Not
      rfl
    rw [hpos, ← @units_iff (whole s.toList) _ hfs k]
    constructor
    · rintro ⟨⟨-, hnat⟩, n, hn⟩
      have hsome : whole s.toList ++ fraction s.toList ≠ [] := fun he => hnat (by rw [he]; rfl)
      refine ⟨_, if_pos ⟨List.all_eq_true.mpr hfs, hsome⟩, n, Nat.pos_of_ne_zero fun hzero => ?_, hn⟩
      rw [hzero, Nat.cast_zero, mul_eq_zero, div_eq_zero_iff, Nat.cast_eq_zero] at hn
      simp [hnat] at hn
    · rintro ⟨q, hq, n, hn, hunits⟩
      split at hq
      · cases hq
        refine ⟨⟨hfs, fun hzero => ?_⟩, n, hunits⟩
        rw [hzero, Nat.cast_zero, zero_div, zero_mul] at hunits
        exact absurd (Nat.cast_eq_zero.mp hunits.symm) (Nat.pos_iff_ne_zero.mp hn)
      · cases hq
  · refine iff_of_false (fun hc => hfs hc.1.1) ?_
    rintro ⟨q, hq, -⟩
    rw [if_neg fun hc => hfs (List.all_eq_true.mp hc.1)] at hq
    cases hq

end Number
