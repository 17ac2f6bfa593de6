import Mathlib.Data.Nat.Factorization.Basic
import NexusErebus.Text.Fixed

/-!
# Whole numbers with a significand of 53 bits

A number of a scripting language has a significand of 53 bits.  A whole number that needs more
is rounded to the nearest one that does not, and of two to the one with an even significand:
`Number.round`.  `Number.round_eq_self_iff` says which numbers are kept.

Such a number is written with the fewest digits that are read back as it, so a large one is
written as another number, a multiple of a power of ten: `Number.printed`.  A number is written
as itself if no other with more zeros at its end is rounded to it (`Number.printed_eq_self_iff`),
as every number below `2 ^ 53` is (`Number.exact_of_lt`).

Only whole numbers are rounded here.  A fraction is kept as it is.
-/

namespace Number

/-! ## Rounding -/

/-- How many bits a number has beyond its significand. -/
def excess (n : Nat) : Nat := Nat.log2 n - 52

/-- The nearest number with a significand of 53 bits, and of two the one with an even
significand. -/
def round (n : Nat) : Nat :=
  let k := excess n
  let half := 2 ^ k / 2
  let up := n % 2 ^ k > half ∨ n % 2 ^ k = half ∧ k ≠ 0 ∧ n / 2 ^ k % 2 = 1
  (if up then n / 2 ^ k + 1 else n / 2 ^ k) * 2 ^ k

theorem ofBigInt_eq (n : Nat) : ofBigInt n = some (round n : ℚ) := rfl

theorem round_eq (n : Nat) : ∃ m, (m = n / 2 ^ excess n ∨ m = n / 2 ^ excess n + 1) ∧
    round n = m * 2 ^ excess n := by
  unfold round
  dsimp only
  split
  · exact ⟨_, .inr rfl, rfl⟩
  · exact ⟨_, .inl rfl, rfl⟩

/-- The numbers that need no rounding. -/
theorem round_eq_self_iff {n : Nat} : round n = n ↔ 2 ^ excess n ∣ n := by
  constructor
  · intro h
    obtain ⟨m, -, hm⟩ := round_eq n
    exact ⟨m, by rw [Nat.mul_comm, ← hm, h]⟩
  · intro hdvd
    have hzero : n % 2 ^ excess n = 0 := Nat.mod_eq_zero_of_dvd hdvd
    have hhalf : excess n ≠ 0 → 0 < 2 ^ excess n / 2 := fun hk =>
      Nat.div_pos (Nat.le_self_pow hk 2) (by omega)
    rw [round, if_neg, Nat.div_mul_cancel hdvd]
    rw [hzero]
    rintro (h | ⟨h, hk, -⟩)
    · omega
    · have := hhalf hk
      omega

theorem excess_of_lt {n : Nat} (h : n < 2 ^ 53) : excess n = 0 := by
  by_cases hn : n = 0
  · subst hn
    rfl
  · have := (Nat.log2_lt hn).mpr h
    unfold excess
    omega

theorem round_of_lt {n : Nat} (h : n < 2 ^ 53) : round n = n := by
  rw [round_eq_self_iff, excess_of_lt h]
  exact one_dvd n

/-- What is in front of the excess bits has 53. -/
theorem div_excess_lt (n : Nat) : n / 2 ^ excess n < 2 ^ 53 := by
  rw [Nat.div_lt_iff_lt_mul (by positivity), ← pow_add]
  exact Nat.lt_log2_self.trans_le (Nat.pow_le_pow_right (by omega) (by unfold excess; omega))

theorem excess_le {k e : Nat} (hk : k < 2 ^ 53) : excess (k * 2 ^ e) ≤ e := by
  by_cases hzero : k * 2 ^ e = 0
  · rw [hzero]
    exact Nat.zero_le e
  · have hlt : k * 2 ^ e < 2 ^ (53 + e) := by
      rw [pow_add]
      exact Nat.mul_lt_mul_of_pos_right hk (by positivity)
    have := (Nat.log2_lt hzero).mpr hlt
    unfold excess
    omega

/-- What was rounded needs no rounding. -/
theorem bits_round (n : Nat) : 2 ^ excess (round n) ∣ round n := by
  obtain ⟨m, hm, hround⟩ := round_eq n
  have hle : m ≤ 2 ^ 53 := by
    have := div_excess_lt n
    omega
  rw [hround]
  rcases hle.lt_or_eq with hlt | rfl
  · exact (pow_dvd_pow 2 (excess_le hlt)).trans ⟨m, Nat.mul_comm _ _⟩
  · rw [← pow_add]
    exact pow_dvd_pow 2 (by unfold excess; rw [Nat.log2_two_pow]; omega)

/-- A divisor of a number that needs no rounding needs none. -/
theorem bits_of_dvd {n m : Nat} (hm : m ≠ 0) (hbits : 2 ^ excess m ∣ m) (hdvd : n ∣ m) :
    2 ^ excess n ∣ n := by
  obtain ⟨e, k, hodd, rfl⟩ := Nat.exists_eq_two_pow_mul_odd (ne_zero_of_dvd_ne_zero hm hdvd)
  have hcoprime : Nat.Coprime k (2 ^ excess m) := (Nat.coprime_two_right.mpr hodd).pow_right _
  have hk : k ∣ m / 2 ^ excess m := by
    refine hcoprime.dvd_of_dvd_mul_right ?_
    rw [Nat.div_mul_cancel hbits]
    exact (Dvd.intro_left _ rfl).trans hdvd
  have hpos : 0 < m / 2 ^ excess m :=
    Nat.div_pos (Nat.le_of_dvd (Nat.pos_of_ne_zero hm) hbits) (by positivity)
  have hlt : k < 2 ^ 53 := (Nat.le_of_dvd hpos hk).trans_lt (div_excess_lt m)
  rw [Nat.mul_comm (2 ^ e) k]
  exact (pow_dvd_pow 2 (excess_le hlt)).trans ⟨k, Nat.mul_comm _ _⟩

/-- Rounding does not go below the leading bit. -/
theorem pow_log2_le_round {n : Nat} (hn : n ≠ 0) : 2 ^ Nat.log2 n ≤ round n := by
  have hsplit : 2 ^ Nat.log2 n = 2 ^ (Nat.log2 n - excess n) * 2 ^ excess n := by
    rw [← pow_add, Nat.sub_add_cancel (by unfold excess; omega)]
  have hle : 2 ^ (Nat.log2 n - excess n) ≤ n / 2 ^ excess n := by
    rw [Nat.le_div_iff_mul_le (by positivity), ← hsplit]
    exact Nat.log2_self_le hn
  obtain ⟨m, hm, hround⟩ := round_eq n
  rw [hround, hsplit]
  exact Nat.mul_le_mul_right _ (by omega)

theorem lt_two_mul_round {n : Nat} (hn : n ≠ 0) : n < 2 * round n := by
  have hlt : n < 2 ^ (Nat.log2 n + 1) := Nat.lt_log2_self
  have := pow_log2_le_round hn
  rw [pow_succ] at hlt
  omega

/-- A number, as it is held. -/
def held : Number → Number
  | none => none
  | some q =>
      if q.den = 1 then some (if q.num < 0 then -(round q.num.natAbs : ℚ) else round q.num.natAbs)
      else some q

theorem held_natCast (n : Nat) : held (some (n : ℚ)) = some (round n : ℚ) := by
  have hn : ¬ ((n : ℤ) < 0) := not_lt.mpr (Int.natCast_nonneg n)
  simp [held, hn]

/-- A positive number is held as more than half of it. -/
theorem held_pos {q : ℚ} (hq : 0 < q) : ∃ x, held (some q) = some x ∧ q < 2 * x := by
  by_cases hden : q.den = 1
  · obtain ⟨n, rfl⟩ : ∃ n : Nat, q = n := by
      refine ⟨q.num.natAbs, ?_⟩
      rw [← Int.cast_natCast, Int.natAbs_of_nonneg (Rat.num_nonneg.mpr hq.le)]
      exact (Rat.coe_int_num_of_den_eq_one hden).symm
    have hn : n ≠ 0 := by
      rintro rfl
      exact lt_irrefl _ hq
    exact ⟨_, held_natCast n, by exact_mod_cast lt_two_mul_round hn⟩
  · refine ⟨q, ?_, by linarith⟩
    simp only [held, if_neg hden]

/-! ## Writing -/

/-- Of the two multiples of a power of ten around a number, one that is rounded to it.  Of two it
is the nearer one, and half way between the one with an even last digit. -/
def shorter (n e : Nat) : Option Nat :=
  let below := n / 10 ^ e * 10 ^ e
  let above := (n / 10 ^ e + 1) * 10 ^ e
  let up := above - n < n - below ∨ above - n = n - below ∧ n / 10 ^ e % 2 = 1
  if round below = n then if round above = n ∧ up then some above else some below
  else if round above = n then some above
  else none

/-- The first of the numbers with `e` zeros, one zero less and so on that is rounded to `n`. -/
def printedFrom (n : Nat) : Nat → Nat
  | 0 => n
  | e + 1 => (shorter n (e + 1)).getD (printedFrom n e)

/-- The number whose digits are written.  It has at most 21. -/
def printed (n : Nat) : Nat := printedFrom n 20

/-- `${x}`, with the fewest digits. -/
def shortText : Number → String
  | none => "NaN"
  | some q =>
      if q.den = 1 then
        textOf (if q.num < 0 then -(printed q.num.natAbs : ℚ) else printed q.num.natAbs)
      else textOf q

theorem shortText_natCast (n : Nat) :
    shortText (some (n : ℚ)) = String.ofList (Nat.toDigits 10 (printed n)) := by
  have hn : ¬ ((n : ℤ) < 0) := not_lt.mpr (Int.natCast_nonneg n)
  simp [shortText, hn, textOf_natCast]

/-- The digits of a natural number. -/
def digitsOf (n : Nat) : Literal where
  whole := Nat.toDigits 10 n
  fraction := none
  whole_digits := ⟨Nat.toDigits_ne_nil, isDigit_toDigits n⟩
  fraction_digits := nofun

theorem value_digitsOf (n : Nat) : (digitsOf n).value = n := by
  simp [Literal.value, digitsOf, natOf_toDigits]

theorem shortText_eq (n : Nat) :
    shortText (some (n : ℚ)) = String.ofList (digitsOf (printed n)).text := by
  rw [shortText_natCast, Literal.text, digitsOf, List.append_nil]

/-- The number that a text of digits denotes is the one that was printed. -/
theorem ofText_shortText (n : Nat) : ofText (shortText (some (n : ℚ))) = some (printed n : ℚ) := by
  rw [shortText_eq, Literal.ofText_eq, value_digitsOf]

theorem held_parseFloat_shortText (n : Nat) :
    held (parseFloat (shortText (some (n : ℚ)))) = some (round (printed n) : ℚ) := by
  rw [shortText_eq, Literal.parseFloat_eq, value_digitsOf, held_natCast]

/-- No other number with `e` zeros at its end is rounded to the number. -/
def Apart (n e : Nat) : Prop :=
  10 ^ e ∣ n ∨ round (n / 10 ^ e * 10 ^ e) ≠ n ∧ round ((n / 10 ^ e + 1) * 10 ^ e) ≠ n

theorem shorter_of_dvd {n e : Nat} (hn : round n = n) (h : 10 ^ e ∣ n) : shorter n e = some n := by
  have hpos : 0 < 10 ^ e := by positivity
  have hself : n / 10 ^ e * 10 ^ e = n := Nat.div_mul_cancel h
  rw [shorter, hself, if_pos hn, if_neg]
  rintro ⟨-, hup⟩
  rw [Nat.add_mul, hself] at hup
  omega

theorem shorter_of_not_apart {n e : Nat} (h : ¬ Apart n e) : ∃ m, shorter n e = some m ∧ m ≠ n := by
  simp only [Apart, not_or] at h
  have hne : ∀ m, m * 10 ^ e ≠ n := fun m hm => h.1 ⟨m, by rw [← hm, Nat.mul_comm]⟩
  unfold shorter
  dsimp only
  split
  · split
    · exact ⟨_, rfl, hne _⟩
    · exact ⟨_, rfl, hne _⟩
  · next hbelow =>
      split
      · exact ⟨_, rfl, hne _⟩
      · next habove => exact absurd ⟨hbelow, habove⟩ h.2

/-- A number that needs no rounding is written as itself if every other number with more zeros
is rounded to something else. -/
theorem printedFrom_eq_self_iff {n : Nat} (hn : round n = n) (k : Nat) :
    printedFrom n k = n ↔ ∀ e ≤ k, Apart n e := by
  induction k with
  | zero =>
      refine iff_of_true rfl fun e he => .inl ?_
      rw [Nat.le_zero.mp he]
      exact one_dvd n
  | succ k ih =>
      rw [printedFrom]
      by_cases h : Apart n (k + 1)
      · rcases h with hdvd | hapart
        · rw [shorter_of_dvd hn hdvd]
          exact iff_of_true rfl fun e he => .inl ((pow_dvd_pow 10 he).trans hdvd)
        · rw [shorter, if_neg hapart.1, if_neg hapart.2, Option.getD_none, ih]
          constructor
          · intro hrest e he
            rcases Nat.lt_or_ge k e with hk | hk
            · rw [show e = k + 1 by omega]
              exact .inr hapart
            · exact hrest e hk
          · exact fun hall e he => hall e (by omega)
      · obtain ⟨m, hm, hne⟩ := shorter_of_not_apart h
        rw [hm]
        exact iff_of_false hne fun hall => h (hall _ le_rfl)

/-- The numbers that are held, and written, as they are. -/
structure Exact (n : Nat) : Prop where
  bits : 2 ^ excess n ∣ n
  digits : ∀ e ≤ 20, Apart n e

theorem exact_iff {n : Nat} : Exact n ↔ round n = n ∧ printed (round n) = n := by
  constructor
  · rintro ⟨hbits, hdigits⟩
    have hn := round_eq_self_iff.mpr hbits
    exact ⟨hn, by rw [hn, printed, printedFrom_eq_self_iff hn]; exact hdigits⟩
  · rintro ⟨hn, hprinted⟩
    rw [hn, printed, printedFrom_eq_self_iff hn] at hprinted
    exact ⟨round_eq_self_iff.mp hn, hprinted⟩

/-- Below `2 ^ 53` every number is exact. -/
theorem exact_of_lt {n : Nat} (h : n < 2 ^ 53) : Exact n := by
  refine ⟨round_eq_self_iff.mp (round_of_lt h), fun e _ => ?_⟩
  by_cases hdvd : 10 ^ e ∣ n
  · exact .inl hdvd
  · have hpos : 0 < 10 ^ e := by positivity
    have hle : n / 10 ^ e * 10 ^ e ≤ n := Nat.div_mul_le_self n _
    refine .inr ⟨?_, ?_⟩
    · rw [round_of_lt (by omega)]
      exact fun hself => hdvd ⟨_, by rw [Nat.mul_comm, hself]⟩
    · have hlt : n < (n / 10 ^ e + 1) * 10 ^ e := Nat.lt_mul_of_div_lt (by omega) hpos
      generalize (n / 10 ^ e + 1) * 10 ^ e = m at hlt
      rcases Nat.lt_or_ge m (2 ^ 53) with hm | hm
      · rw [round_of_lt hm]
        omega
      · have hne : m ≠ 0 := by omega
        have hlog : 53 ≤ Nat.log2 m := (Nat.le_log2 hne).mpr hm
        have hpow : 2 ^ 53 ≤ 2 ^ Nat.log2 m := Nat.pow_le_pow_right (by omega) hlog
        have := pow_log2_le_round hne
        omega

end Number
