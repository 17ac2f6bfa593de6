import NexusErebus.Text.Decimal

/-!
# Numbers with a fixed number of decimals

`Number.toFixed k` writes a number as a whole number of units of `10 ^ -k`.  What it writes is
read back as that many units (`Number.parseFloat_toFixed`).  Numbers half way between two are
rounded up, so adding whole units and rounding commute (`Number.units_add`).

So a total that is rounded at its end is the total of its rounded parts, if at most one part was
not rounded before it was added (`Number.parseFloat_toFixed_foldl`).

All of this is about numbers that are not negative.
-/

namespace Number

/-- The number of units of `10 ^ -k` that `toFixed` writes. -/
def units (k : Nat) (q : ℚ) : Nat := (2 * q.num.natAbs * 10 ^ k + q.den) / (2 * q.den)

/-- The nearest number of units, and of two the larger one. -/
theorem units_eq_iff {q : ℚ} (hq : 0 ≤ q) {k m : Nat} :
    units k q = m ↔ (m : ℚ) ≤ q * 10 ^ k + 1 / 2 ∧ q * 10 ^ k + 1 / 2 < m + 1 := by
  have hden : (0 : ℚ) < q.den := by exact_mod_cast q.den_pos
  have hnum : (q.num.natAbs : ℚ) = q * q.den := by
    rw [Rat.mul_den_eq_num, ← Int.cast_natCast, Int.natAbs_of_nonneg (Rat.num_nonneg.mpr hq)]
  have hscale : ((2 * q.num.natAbs * 10 ^ k + q.den : Nat) : ℚ) =
      (q * 10 ^ k + 1 / 2) * (2 * q.den) := by
    push_cast
    rw [hnum]
    ring
  have hdiv : units k q = m ↔ m * (2 * q.den) ≤ 2 * q.num.natAbs * 10 ^ k + q.den ∧
      2 * q.num.natAbs * 10 ^ k + q.den < (m + 1) * (2 * q.den) := by
    have hpos : 0 < 2 * q.den := by have := q.den_pos; omega
    rw [units, Nat.div_eq_iff hpos]
    constructor
    · rintro ⟨h₁, h₂⟩
      exact ⟨h₁, by rw [Nat.add_mul, Nat.one_mul]; omega⟩
    · rintro ⟨h₁, h₂⟩
      rw [Nat.add_mul, Nat.one_mul] at h₂
      exact ⟨h₁, by omega⟩
  rw [hdiv, ← @Nat.cast_le ℚ, ← @Nat.cast_lt ℚ, hscale]
  push_cast
  have htwo : (0 : ℚ) < 2 * q.den := by linarith
  rw [mul_le_mul_iff_left₀ htwo, mul_lt_mul_iff_left₀ htwo]

/-- Whole units are not rounded. -/
theorem units_add {q : ℚ} (hq : 0 ≤ q) (k n : Nat) :
    units k (q + n / 10 ^ k) = units k q + n := by
  obtain ⟨hle, hlt⟩ := (units_eq_iff hq).mp (rfl : units k q = units k q)
  have hn : (0 : ℚ) ≤ n / 10 ^ k := div_nonneg (Nat.cast_nonneg n) (by positivity)
  have hscale : (q + n / 10 ^ k) * 10 ^ k = q * 10 ^ k + n := by
    rw [add_mul, div_mul_cancel₀ _ (by positivity)]
  rw [units_eq_iff (by linarith), hscale]
  push_cast
  constructor
  · linarith
  · linarith

/-! ## The text -/

theorem natOf_toDigits (n : Nat) : natOf (Nat.toDigits 10 n) = n := Nat.ofDigitChars_ten_toDigits

theorem isDigit_toDigits (n : Nat) : ∀ c ∈ Nat.toDigits 10 n, c.isDigit = true := fun _ hc =>
  Nat.isDigit_of_mem_toDigits (by omega) (by omega) hc

theorem isDigit_padded (k n : Nat) : ∀ c ∈ padded k n, c.isDigit = true := by
  intro c hc
  rcases List.mem_append.mp hc with hc | hc
  · rw [List.eq_of_mem_replicate hc]
    rfl
  · exact isDigit_toDigits n c hc

theorem natOf_padded (k n : Nat) : natOf (padded k n) = n := by
  have hzero : natOf (List.replicate (k - (Nat.toDigits 10 n).length) '0') = 0 :=
    (natOf_eq_zero_iff fun c hc => by rw [List.eq_of_mem_replicate hc]; rfl).mpr
      fun c hc => List.eq_of_mem_replicate hc
  rw [padded, natOf_append, hzero, natOf_toDigits, Nat.zero_mul, Nat.zero_add]

theorem length_padded {k n : Nat} (hk : 0 < k) (hn : n < 10 ^ k) : (padded k n).length = k := by
  have hle : (Nat.toDigits 10 n).length ≤ k :=
    (Nat.length_toDigits_le_iff (by omega) hk).mpr hn
  rw [padded, List.length_append, List.length_replicate]
  omega

/-- What `toFixed` writes, without a sign. -/
def fixedLiteral (k : Nat) (hk : 0 < k) (m : Nat) : Literal where
  whole := Nat.toDigits 10 (m / 10 ^ k)
  fraction := some (padded k (m % 10 ^ k))
  whole_digits := ⟨Nat.toDigits_ne_nil, isDigit_toDigits _⟩
  fraction_digits := by
    rintro _ ⟨⟩
    refine ⟨fun hnil => ?_, isDigit_padded _ _⟩
    have hlen := length_padded hk (Nat.mod_lt m (Nat.pow_pos (by omega) : 0 < 10 ^ k))
    rw [hnil] at hlen
    exact hk.ne hlen

theorem value_fixedLiteral {k : Nat} (hk : 0 < k) (m : Nat) :
    (fixedLiteral k hk m).value = (m : ℚ) / 10 ^ k := by
  have hten : (10 : ℚ) ^ k ≠ 0 := by positivity
  have hlen := length_padded hk (Nat.mod_lt m (Nat.pow_pos (by omega) : 0 < 10 ^ k))
  have hsplit : (m : ℚ) = 10 ^ k * (m / 10 ^ k : ℕ) + (m % 10 ^ k : ℕ) := by
    exact_mod_cast (Nat.div_add_mod m (10 ^ k)).symm
  simp only [Literal.value, fixedLiteral, natOf_toDigits, natOf_padded, hlen]
  rw [eq_div_iff hten, add_mul, div_mul_cancel₀ _ hten]
  linarith

/-- What is written is read back as so many units. -/
theorem parseFloat_toFixed {k : Nat} (hk : 0 < k) {q : ℚ} (hq : 0 ≤ q) :
    parseFloat (toFixed k (some q)) = some ((units k q : ℚ) / 10 ^ k) := by
  have hsign : ¬ q.num < 0 := not_lt.mpr (Rat.num_nonneg.mpr hq)
  have htext : toFixed k (some q) = String.ofList (fixedLiteral k hk (units k q)).text := by
    simp only [toFixed, if_neg hsign, if_neg hk.ne', Literal.text, fixedLiteral, units,
      List.nil_append]
  rw [htext, Literal.parseFloat_eq, value_fixedLiteral]

/-! ## Totals -/

/-- Not a negative number. -/
def Nonneg (x : Number) : Prop := ∀ q, x = some q → 0 ≤ q

theorem Nonneg.some {q : ℚ} (hq : 0 ≤ q) : Nonneg (some q) := fun _ h => Option.some.inj h ▸ hq

theorem Nonneg.mul : ∀ {x y : Number}, Nonneg x → Nonneg y → Nonneg (mul x y)
  | none, _, _, _ => nofun
  | Option.some _, none, _, _ => nofun
  | Option.some _, Option.some _, hx, hy => .some (mul_nonneg (hx _ rfl) (hy _ rfl))

/-- `NaN`, or a whole number of units. -/
def Whole (k : Nat) (x : Number) : Prop := x = none ∨ ∃ n : ℕ, x = some ((n : ℚ) / 10 ^ k)

theorem parseFloat_toFixed_none (k : Nat) : parseFloat (toFixed k none) = none := by
  rw [toFixed]
  decide

theorem whole_toFixed {k : Nat} (hk : 0 < k) : ∀ {x : Number}, Nonneg x →
    Whole k (parseFloat (toFixed k x))
  | none, _ => .inl (parseFloat_toFixed_none k)
  | some _, hx => .inr ⟨_, parseFloat_toFixed hk (hx _ rfl)⟩

theorem foldl_add_none : ∀ vs : List Number, vs.foldl add none = none
  | [] => rfl
  | _ :: vs => foldl_add_none vs

/-- Rounding a total and adding up rounded parts give the same. -/
theorem parseFloat_toFixed_foldl {k : Nat} (hk : 0 < k) : ∀ {vs : List Number} {x : Number},
    Nonneg x → (∀ v ∈ vs, Whole k v) →
      parseFloat (toFixed k (vs.foldl add x)) = vs.foldl add (parseFloat (toFixed k x))
  | [], _, _, _ => rfl
  | v :: vs, none, _, _ => by
      rw [foldl_add_none, parseFloat_toFixed_none, foldl_add_none]
  | v :: vs, some q, hx, hvs => by
      have hq : 0 ≤ q := hx q rfl
      have hrest : ∀ v ∈ vs, Whole k v := fun v hv => hvs v (List.mem_cons_of_mem _ hv)
      rw [List.foldl_cons, List.foldl_cons]
      rcases hvs v (List.mem_cons_self ..) with rfl | ⟨n, rfl⟩
      · rw [parseFloat_toFixed hk hq, add, foldl_add_none, parseFloat_toFixed_none]
        · exact (foldl_add_none vs).symm
        · simp
      · have hn : (0 : ℚ) ≤ n / 10 ^ k := div_nonneg (Nat.cast_nonneg n) (by positivity)
        have hsum : 0 ≤ q + n / 10 ^ k := by linarith
        have ih := parseFloat_toFixed_foldl hk (.some hsum) hrest
        rw [add, ih, parseFloat_toFixed hk hsum, parseFloat_toFixed hk hq, units_add hq, add]
        push_cast
        rw [add_div]

end Number
