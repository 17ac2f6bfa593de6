import Mathlib.Data.Rat.Defs
import Mathlib.Algebra.Order.Ring.Rat
import Mathlib.Tactic.Common
import NexusErebus.Text.Strings

/-!
# Numbers of a scripting language

A number is an exact rational, and `none` is not a number.  The programs here
only add, subtract, multiply, round down and divide by powers of ten, so every
number they meet has a finite decimal text.  Rounding to a binary significand is
not modelled at this type.

`Number.text` writes a number, `Number.literal` reads the longest literal at the front
of a text, and `Number.literal_toDigits` says that a natural number is read back.
-/

/-- A number, or `NaN`. -/
abbrev Number := Option ℚ

namespace Number

/-! ## Arithmetic -/

def mul : Number → Number → Number
  | some a, some b => some (a * b)
  | _, _ => none

def sub : Number → Number → Number
  | some a, some b => some (a - b)
  | _, _ => none

def add : Number → Number → Number
  | some a, some b => some (a + b)
  | _, _ => none

/-- Division by a number that is not zero. -/
def div (a : Number) (b : ℚ) : Number := a.map (· / b)

/-- `Math.floor`. -/
def floor : Number → Number := Option.map fun q => (q.floor : ℚ)

/-- `a > b`, which is false of `NaN`. -/
def gt : Number → Number → Bool
  | some a, some b => decide (b < a)
  | _, _ => false

/-- `Number(n)` of a big integer: the nearest integer with a significand of 53 bits,
and of two the one with an even significand. -/
def ofBigInt (n : Nat) : Number :=
  let k := Nat.log2 n - 52
  let half := 2 ^ k / 2
  let up := n % 2 ^ k > half ∨ n % 2 ^ k = half ∧ k ≠ 0 ∧ n / 2 ^ k % 2 = 1
  some (((if up then n / 2 ^ k + 1 else n / 2 ^ k) * 2 ^ k : Nat) : ℚ)

/-- The byte a number is stored as. -/
def toUint8 : Number → UInt8
  | none => 0
  | some q =>
      let n : ℤ := if q < 0 then -(-q).floor else q.floor
      UInt8.ofNat (n % 256).toNat

/-! ## Reading -/

/-- The natural number a run of digits denotes. -/
def natOf (ds : List Char) : Nat := Nat.ofDigitChars 10 ds 0

/-- The exponent at the front of a text, and what is behind it.  An `e` without
digits is left where it is. -/
def exponent : List Char → ℤ × List Char
  | [] => (0, [])
  | c :: cs =>
      if c = 'e' ∨ c = 'E' then
        let sign : ℤ := if cs.head? = some '-' then -1 else 1
        let body := if cs.head? = some '-' ∨ cs.head? = some '+' then cs.tail else cs
        let ds := body.takeWhile Char.isDigit
        if ds = [] then (0, c :: cs) else (sign * natOf ds, body.dropWhile Char.isDigit)
      else (0, c :: cs)

/-- A power of ten. -/
def pow10 (e : ℤ) : ℚ := if e < 0 then 1 / 10 ^ e.natAbs else 10 ^ e.natAbs

/-- The longest unsigned decimal literal at the front of a text, and what is
behind it. -/
def literal (cs : List Char) : Option (ℚ × List Char) :=
  let ds := cs.takeWhile Char.isDigit
  let r := cs.dropWhile Char.isDigit
  let fs := if r.head? = some '.' then r.tail.takeWhile Char.isDigit else []
  let r' := if r.head? = some '.' then r.tail.dropWhile Char.isDigit else r
  if ds = [] ∧ fs = [] then none
  else
    let e := exponent r'
    some ((natOf (ds ++ fs) : ℚ) / 10 ^ fs.length * pow10 e.1, e.2)

/-- A literal with an optional sign. -/
def signed : List Char → Option (ℚ × List Char)
  | '-' :: cs => (literal cs).map fun x => (-x.1, x.2)
  | '+' :: cs => literal cs
  | cs => literal cs

/-- `parseFloat(s)`. -/
def parseFloat (s : String) : Number := (signed (s.toList.dropWhile Text.isSpace)).map Prod.fst

/-- `+s` and `Number(s)`, for decimal text. -/
def ofText (s : String) : Number :=
  match (Text.trim s).toList with
  | [] => some 0
  | cs =>
      match signed cs with
      | some (q, []) => some q
      | _ => none

/-! ## Writing -/

/-- How many decimals a number has.  A number without a finite decimal text is
cut off at 17. -/
def decimals (q : ℚ) : Nat :=
  ((List.range (Nat.log2 q.den + 2)).find? fun k => 10 ^ k % q.den = 0).getD 17

/-- The digits of a natural number, with zeros in front up to a width. -/
def padded (k n : Nat) : List Char :=
  List.replicate (k - (Nat.toDigits 10 n).length) '0' ++ Nat.toDigits 10 n

/-- `${q}`, for a number. -/
def textOf (q : ℚ) : String :=
  let k := decimals q
  let m := q.num.natAbs * 10 ^ k / q.den
  let sign := if q.num < 0 then ['-'] else []
  let whole := Nat.toDigits 10 (m / 10 ^ k)
  String.ofList (sign ++ whole ++ if k = 0 then [] else '.' :: padded k (m % 10 ^ k))

/-- `${x}`. -/
def text : Number → String
  | none => "NaN"
  | some q => textOf q

/-- `x.toFixed(k)`.  A number half way between two is rounded away from zero. -/
def toFixed (k : Nat) : Number → String
  | none => "NaN"
  | some q =>
      let m := (2 * q.num.natAbs * 10 ^ k + q.den) / (2 * q.den)
      let sign := if q.num < 0 then ['-'] else []
      let whole := Nat.toDigits 10 (m / 10 ^ k)
      String.ofList (sign ++ whole ++ if k = 0 then [] else '.' :: padded k (m % 10 ^ k))

/-! ## Natural numbers -/

theorem floor_natCast (n : Nat) : (n : ℚ).floor = n := by
  simp [Rat.floor]

theorem decimals_natCast (n : Nat) : decimals (n : ℚ) = 0 := by
  simp [decimals, Nat.log2, List.range_succ_eq_map]

theorem textOf_natCast (n : Nat) : textOf (n : ℚ) = String.ofList (Nat.toDigits 10 n) := by
  have hd := decimals_natCast n
  have hn : ¬ ((n : ℤ) < 0) := not_lt.mpr (Int.natCast_nonneg n)
  simp [textOf, hd, hn]

/-- The text does not go on with a digit, a point or an exponent. -/
def Stops (r : List Char) : Prop :=
  ∀ c ∈ r.head?, c.isDigit = false ∧ c ≠ '.' ∧ c ≠ 'e' ∧ c ≠ 'E'

theorem takeWhile_digits {ds r : List Char} (hds : ∀ c ∈ ds, c.isDigit = true) (hr : Stops r) :
    (ds ++ r).takeWhile Char.isDigit = ds := by
  rw [List.takeWhile_append_of_pos hds]
  cases r with
  | nil => simp
  | cons c r => simp [(hr c rfl).1]

theorem dropWhile_digits {ds r : List Char} (hds : ∀ c ∈ ds, c.isDigit = true) (hr : Stops r) :
    (ds ++ r).dropWhile Char.isDigit = r := by
  rw [List.dropWhile_append_of_pos hds]
  cases r with
  | nil => rfl
  | cons c r => simp [(hr c rfl).1]

theorem exponent_of_stops {r : List Char} (hr : Stops r) : exponent r = (0, r) := by
  cases r with
  | nil => rfl
  | cons c r => simp [exponent, (hr c rfl).2.2.1, (hr c rfl).2.2.2]

theorem head?_ne_dot {r : List Char} (hr : Stops r) : r.head? ≠ some '.' :=
  fun h => (hr '.' h).2.1 rfl

/-- The digits of a natural number are read back. -/
theorem literal_toDigits (n : Nat) {r : List Char} (hr : Stops r) :
    literal (Nat.toDigits 10 n ++ r) = some ((n : ℚ), r) := by
  have hds : ∀ c ∈ Nat.toDigits 10 n, c.isDigit = true := fun c hc =>
    Nat.isDigit_of_mem_toDigits (by omega) (by omega) hc
  simp only [literal, takeWhile_digits hds hr, dropWhile_digits hds hr, if_neg (head?_ne_dot hr),
    exponent_of_stops hr, Nat.toDigits_ne_nil, false_and, if_false, List.append_nil, natOf,
    Nat.ofDigitChars_ten_toDigits]
  simp [pow10]

end Number
