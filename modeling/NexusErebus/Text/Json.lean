import NexusErebus.Text.Number

/-!
# JSON

Values, the text `JSON.stringify` gives them and the reader `JSON.parse`.

The reader is by recursion on fuel, and `parse` gives it more than a text of that
length can use: a bracket costs one unit on entry and an element one more.  Spaces
are allowed where JSON allows them.  A `\u` escape of half a surrogate pair has no
character of its own, and is read as the replacement character.

`parse_render` is the round trip, for values whose numbers are natural
(`Plain`).  The reader is only ever asked for more than that on texts a theorem
assumes it can read.
-/

/-- A JSON value. -/
inductive Json where
  | null
  | bool (b : Bool)
  | num (q : ℚ)
  | str (s : String)
  | arr (xs : List Json)
  | obj (kvs : List (String × Json))

namespace Json

/-! ## Writing -/

/-- The last four bits of a number, as a hexadecimal digit. -/
def hexDigit (n : Nat) : Char := Nat.digitChar (n % 16)

/-- One character of a string literal. -/
def escape (c : Char) : List Char :=
  if c = '"' then ['\\', '"']
  else if c = '\\' then ['\\', '\\']
  else if c = '\x08' then ['\\', 'b']
  else if c = '\x0c' then ['\\', 'f']
  else if c = '\n' then ['\\', 'n']
  else if c = '\r' then ['\\', 'r']
  else if c = '\t' then ['\\', 't']
  else if c.toNat < 32 then ['\\', 'u', '0', '0', hexDigit (c.toNat / 16), hexDigit c.toNat]
  else [c]

/-- A string literal. -/
def quote (s : String) : List Char := '"' :: (s.toList.flatMap escape ++ ['"'])

mutual

/-- The text of a value, without spaces. -/
def render : Json → List Char
  | .null => "null".toList
  | .bool b => if b then "true".toList else "false".toList
  | .num q => (Number.textOf q).toList
  | .str s => quote s
  | .arr [] => ['[', ']']
  | .arr (v :: vs) => '[' :: (render v ++ renderElems vs)
  | .obj [] => ['{', '}']
  | .obj ((k, v) :: kvs) => '{' :: (quote k ++ ':' :: (render v ++ renderMembers kvs))

/-- The rest of an array, with its bracket. -/
def renderElems : List Json → List Char
  | [] => [']']
  | v :: vs => ',' :: (render v ++ renderElems vs)

/-- The rest of an object, with its brace. -/
def renderMembers : List (String × Json) → List Char
  | [] => ['}']
  | (k, v) :: kvs => ',' :: (quote k ++ ':' :: (render v ++ renderMembers kvs))

end

mutual

/-- The text of a value over several lines, each one level in indented by two spaces more than
`ind`. -/
def pretty (ind : List Char) : Json → List Char
  | .arr (v :: vs) =>
      '[' :: '\n' :: (ind ++ ' ' :: ' ' :: (pretty (ind ++ [' ', ' ']) v ++ prettyElems ind vs))
  | .obj ((k, v) :: kvs) =>
      '{' :: '\n' :: (ind ++ ' ' :: ' ' :: (quote k ++ ':' :: ' ' ::
        (pretty (ind ++ [' ', ' ']) v ++ prettyMembers ind kvs)))
  | v => render v

/-- The rest of an array, with its bracket. -/
def prettyElems (ind : List Char) : List Json → List Char
  | [] => '\n' :: (ind ++ [']'])
  | v :: vs =>
      ',' :: '\n' :: (ind ++ ' ' :: ' ' :: (pretty (ind ++ [' ', ' ']) v ++ prettyElems ind vs))

/-- The rest of an object, with its brace. -/
def prettyMembers (ind : List Char) : List (String × Json) → List Char
  | [] => '\n' :: (ind ++ ['}'])
  | (k, v) :: kvs =>
      ',' :: '\n' :: (ind ++ ' ' :: ' ' :: (quote k ++ ':' :: ' ' ::
        (pretty (ind ++ [' ', ' ']) v ++ prettyMembers ind kvs)))

end

/-- `JSON.stringify(v, null, 2)`. -/
def stringify2 (v : Json) : String := String.ofList (pretty [] v)

/-- `JSON.stringify(v)`. -/
def stringify (v : Json) : String := String.ofList (render v)

/-! ## Reading -/

/-- The spaces of JSON. -/
def isWs (c : Char) : Bool := c = ' ' || c = '\t' || c = '\n' || c = '\r'

/-- Skip spaces. -/
def skip (cs : List Char) : List Char := cs.dropWhile isWs

/-- The number of a hexadecimal digit. -/
def hexVal (c : Char) : Option Nat :=
  if '0' ≤ c ∧ c ≤ '9' then some (c.toNat - '0'.toNat)
  else if 'a' ≤ c ∧ c ≤ 'f' then some (c.toNat - 'a'.toNat + 10)
  else if 'A' ≤ c ∧ c ≤ 'F' then some (c.toNat - 'A'.toNat + 10)
  else none

/-- Four hexadecimal digits. -/
def hex4 (a b c d : Char) : Option Nat :=
  match hexVal a, hexVal b, hexVal c, hexVal d with
  | some w, some x, some y, some z => some (((w * 16 + x) * 16 + y) * 16 + z)
  | _, _, _, _ => none

/-- A string literal, after its opening quote, as code points and escaped code
units. -/
def units : List Char → Option (List Nat × List Char)
  | [] => none
  | '"' :: r => some ([], r)
  | '\\' :: '"' :: r => (units r).map fun x => ('"'.toNat :: x.1, x.2)
  | '\\' :: '\\' :: r => (units r).map fun x => ('\\'.toNat :: x.1, x.2)
  | '\\' :: '/' :: r => (units r).map fun x => ('/'.toNat :: x.1, x.2)
  | '\\' :: 'b' :: r => (units r).map fun x => (8 :: x.1, x.2)
  | '\\' :: 'f' :: r => (units r).map fun x => (12 :: x.1, x.2)
  | '\\' :: 'n' :: r => (units r).map fun x => (10 :: x.1, x.2)
  | '\\' :: 'r' :: r => (units r).map fun x => (13 :: x.1, x.2)
  | '\\' :: 't' :: r => (units r).map fun x => (9 :: x.1, x.2)
  | '\\' :: 'u' :: a :: b :: c :: d :: r =>
      match hex4 a b c d with
      | none => none
      | some n => (units r).map fun x => (n :: x.1, x.2)
  | '\\' :: _ => none
  | c :: r => if c.toNat < 32 then none else (units r).map fun x => (c.toNat :: x.1, x.2)

/-- Half a surrogate pair. -/
def Surrogate (n : Nat) : Prop := 0xD800 ≤ n ∧ n < 0xE000

instance (n : Nat) : Decidable (Surrogate n) := inferInstanceAs (Decidable (_ ∧ _))

/-- The characters of a list of code units.  A high surrogate and a low one are one
character, and one that stands alone is replaced. -/
def chars : List Nat → List Char
  | [] => []
  | [n] => [if Surrogate n then '\uFFFD' else Char.ofNat n]
  | hi :: lo :: ns =>
      if 0xD800 ≤ hi ∧ hi < 0xDC00 ∧ 0xDC00 ≤ lo ∧ lo < 0xE000 then
        Char.ofNat (0x10000 + (hi - 0xD800) * 0x400 + (lo - 0xDC00)) :: chars ns
      else (if Surrogate hi then '\uFFFD' else Char.ofNat hi) :: chars (lo :: ns)

/-- A string literal, after its opening quote. -/
def literal (cs : List Char) : Option (String × List Char) :=
  (units cs).map fun x => (String.ofList (chars x.1), x.2)

/-- A number.  JSON has no sign `+`, no leading zeros and no point without digits
on both sides. -/
def number (cs : List Char) : Option (ℚ × List Char) :=
  let body := if cs.head? = some '-' then cs.tail else cs
  let ds := body.takeWhile Char.isDigit
  let r := body.dropWhile Char.isDigit
  if ds = [] ∨ (ds.head? = some '0' ∧ ds ≠ ['0']) then none
  else if r.head? = some '.' ∧ (r.tail.takeWhile Char.isDigit) = [] then none
  else if cs.head? = some '-' then (Number.literal body).map fun x => (-x.1, x.2)
  else Number.literal body

/-- What follows a given character, after spaces. -/
def expect (c : Char) (cs : List Char) : Option (List Char) :=
  match skip cs with
  | [] => none
  | d :: r => if d = c then some r else none

mutual

/-- A value, and what is behind it. -/
def value : Nat → List Char → Option (Json × List Char)
  | 0, _ => none
  | n + 1, cs =>
      match skip cs with
      | 'n' :: 'u' :: 'l' :: 'l' :: r => some (.null, r)
      | 't' :: 'r' :: 'u' :: 'e' :: r => some (.bool true, r)
      | 'f' :: 'a' :: 'l' :: 's' :: 'e' :: r => some (.bool false, r)
      | '"' :: r => (literal r).map fun x => (.str x.1, x.2)
      | '[' :: r =>
          match expect ']' r with
          | some r' => some (.arr [], r')
          | none => (elems n r).map fun x => (.arr x.1, x.2)
      | '{' :: r =>
          match expect '}' r with
          | some r' => some (.obj [], r')
          | none => (members n r).map fun x => (.obj x.1, x.2)
      | cs' => (number cs').map fun x => (.num x.1, x.2)

/-- The elements of an array up to its bracket, at least one. -/
def elems : Nat → List Char → Option (List Json × List Char)
  | 0, _ => none
  | n + 1, cs =>
      match value n cs with
      | none => none
      | some (v, r) =>
          match expect ']' r with
          | some r' => some ([v], r')
          | none =>
              match expect ',' r with
              | some r' => (elems n r').map fun x => (v :: x.1, x.2)
              | none => none

/-- The members of an object up to its brace, at least one. -/
def members : Nat → List Char → Option (List (String × Json) × List Char)
  | 0, _ => none
  | n + 1, cs =>
      match expect '"' cs with
      | none => none
      | some r =>
          match literal r with
          | none => none
          | some (k, r) =>
              match expect ':' r with
              | none => none
              | some r =>
                  match value n r with
                  | none => none
                  | some (v, r) =>
                      match expect '}' r with
                      | some r' => some ([(k, v)], r')
                      | none =>
                          match expect ',' r with
                          | some r' => (members n r').map fun x => ((k, v) :: x.1, x.2)
                          | none => none

end

/-- `JSON.parse(s)`, or `none` where it throws. -/
def parse (s : String) : Option Json :=
  match value (2 * s.toList.length + 2) s.toList with
  | some (v, r) => if skip r = [] then some v else none
  | none => none

/-- The last value under a key of an object. -/
def field (k : String) : Json → Option Json
  | .obj kvs => ((kvs.filter fun kv => kv.1 = k).getLast?).map Prod.snd
  | _ => none

/-! ## Coercions

A value that may be `undefined` is an `Option Json`. -/

/-- The value counts as true. -/
def truthy : Option Json → Bool
  | none => false
  | some .null => false
  | some (.bool b) => b
  | some (.num q) => q ≠ 0
  | some (.str s) => s ≠ ""
  | some _ => true

/-- `x == null`. -/
def nullish : Option Json → Bool
  | none => true
  | some .null => true
  | some _ => false

mutual

/-- `${v}`. -/
def textOf : Json → String
  | .null => "null"
  | .bool b => if b then "true" else "false"
  | .num q => Number.textOf q
  | .str s => s
  | .arr vs => Text.join "," (textsOf vs)
  | .obj _ => "[object Object]"

/-- The texts of the elements of an array, where `null` is left blank. -/
def textsOf : List Json → List String
  | [] => []
  | .null :: vs => "" :: textsOf vs
  | v :: vs => textOf v :: textsOf vs

end

/-- `${x}`. -/
def text : Option Json → String
  | none => "undefined"
  | some v => textOf v

/-- `Number(x)`. -/
def toNumber : Option Json → Number
  | none => none
  | some .null => some 0
  | some (.bool b) => some (if b then 1 else 0)
  | some (.num q) => some q
  | some v => Number.ofText (textOf v)

/-! ## The round trip -/

mutual

/-- Every number in the value is a natural number. -/
def Plain : Json → Prop
  | .num q => ∃ n : Nat, q = n
  | .arr vs => PlainElems vs
  | .obj kvs => PlainMembers kvs
  | _ => True

/-- `Plain`, of every element. -/
def PlainElems : List Json → Prop
  | [] => True
  | v :: vs => v.Plain ∧ PlainElems vs

/-- `Plain`, of every member. -/
def PlainMembers : List (String × Json) → Prop
  | [] => True
  | (_, v) :: kvs => v.Plain ∧ PlainMembers kvs

end

theorem skip_cons {c : Char} (hc : isWs c = false) (r : List Char) : skip (c :: r) = c :: r := by
  simp [skip, hc]

theorem expect_self {c : Char} (hc : isWs c = false) (r : List Char) :
    expect c (c :: r) = some r := by
  simp [expect, skip_cons hc]

theorem expect_ne {c d : Char} (hd : isWs d = false) (h : d ≠ c) (r : List Char) :
    expect c (d :: r) = none := by
  simp [expect, skip_cons hd, h]

/-! ### Strings -/

theorem hexVal_hexDigit (n : Nat) : hexVal (hexDigit n) = some (n % 16) := by
  have hall : ∀ m : Fin 16, hexVal (Nat.digitChar m.val) = some m.val := by decide
  exact hall ⟨n % 16, Nat.mod_lt _ (by omega)⟩

/-- An escaped character is read as its code point. -/
theorem units_escape (c : Char) (r : List Char) :
    units (escape c ++ r) = (units r).map fun x => (c.toNat :: x.1, x.2) := by
  unfold escape
  split
  next h => subst h; rfl
  split
  next h => subst h; rfl
  split
  next h => subst h; rfl
  split
  next h => subst h; rfl
  split
  next h => subst h; rfl
  split
  next h => subst h; rfl
  split
  next h => subst h; rfl
  split
  next hlt =>
    have h0 : hexVal '0' = some 0 := by decide
    have hval : ((0 * 16 + 0) * 16 + c.toNat / 16 % 16) * 16 + c.toNat % 16 = c.toNat := by omega
    simp only [List.cons_append, List.nil_append, units, hex4, h0, hexVal_hexDigit, hval]
  next h1 h2 _ _ _ _ _ hge =>
    simp only [List.cons_append, List.nil_append]
    rw [units.eq_def]
    split
    all_goals simp_all

theorem units_escapes (r : List Char) : ∀ cs : List Char,
    units (cs.flatMap escape ++ '"' :: r) = some (cs.map Char.toNat, r)
  | [] => rfl
  | c :: cs => by
      rw [List.flatMap_cons, List.append_assoc, units_escape, units_escapes r cs]
      rfl

theorem not_surrogate (c : Char) : ¬ Surrogate c.toNat := by
  have h := c.valid
  simp only [Surrogate, Char.toNat, UInt32.isValidChar, Nat.isValidChar] at h ⊢
  omega

/-- Code points are no surrogates, so none is paired with the next. -/
theorem chars_toNat : ∀ cs : List Char, chars (cs.map Char.toNat) = cs
  | [] => rfl
  | [c] => by simp [chars, not_surrogate c]
  | c :: d :: cs => by
      have hc := not_surrogate c
      have hpair : ¬ (0xD800 ≤ c.toNat ∧ c.toNat < 0xDC00 ∧ 0xDC00 ≤ d.toNat ∧
          d.toNat < 0xE000) := by
        simp only [Surrogate] at hc
        omega
      have ih := chars_toNat (d :: cs)
      simp only [List.map_cons] at ih ⊢
      rw [chars, if_neg hpair, if_neg hc, ih, Char.ofNat_toNat]

theorem literal_quote (s : String) (r : List Char) :
    literal (s.toList.flatMap escape ++ '"' :: r) = some (s, r) := by
  simp [literal, units_escapes, chars_toNat]

/-! ### Numbers -/

theorem head?_toDigits {n : Nat} (h : (Nat.toDigits 10 n).head? = some '0') :
    Nat.toDigits 10 n = ['0'] := by
  induction n using Nat.strong_induction_on with
  | _ n ih =>
      by_cases hn : n < 10
      · rw [Nat.toDigits_of_lt_base hn] at h ⊢
        simp only [List.head?_cons, Option.some.injEq, Nat.digitChar_eq_zero] at h
        simp [h]
      · rw [Nat.toDigits_of_base_le (by omega) (by omega)] at h
        -- the first digit is that of `n / 10`, which is not zero
        have hne := Nat.toDigits_ne_nil (n := n / 10) (b := 10)
        rw [List.head?_append_of_ne_nil _ hne] at h
        have h0 := ih (n / 10) (by omega) h
        have hv := congrArg (Nat.ofDigitChars 10 · 0) h0
        simp only [Nat.ofDigitChars_ten_toDigits] at hv
        have : Nat.ofDigitChars 10 ['0'] 0 = 0 := by decide
        omega

theorem number_toDigits (n : Nat) {r : List Char} (hr : Number.Stops r) :
    number (Nat.toDigits 10 n ++ r) = some ((n : ℚ), r) := by
  have hds : ∀ c ∈ Nat.toDigits 10 n, c.isDigit = true := fun c hc =>
    Nat.isDigit_of_mem_toDigits (by omega) (by omega) hc
  have hminus : (Nat.toDigits 10 n ++ r).head? ≠ some '-' := by
    rw [List.head?_append_of_ne_nil _ Nat.toDigits_ne_nil]
    intro h
    have hd := hds '-' (List.mem_of_head? h)
    revert hd
    decide
  have hzero : ¬ (Nat.toDigits 10 n = [] ∨
      ((Nat.toDigits 10 n).head? = some '0' ∧ Nat.toDigits 10 n ≠ ['0'])) := by
    rintro (h | ⟨h, h'⟩)
    · exact Nat.toDigits_ne_nil h
    · exact h' (head?_toDigits h)
  have hdot : ¬ (r.head? = some '.' ∧ (r.tail.takeWhile Char.isDigit) = []) := fun h =>
    Number.head?_ne_dot hr h.1
  simp only [number, if_neg hminus, Number.takeWhile_digits hds hr, Number.dropWhile_digits hds hr,
    if_neg hzero, if_neg hdot, Number.literal_toDigits n hr]

/-! ### Values -/

theorem stops_of_ne {c : Char} {r : List Char} (hd : c.isDigit = false)
    (hc : c ≠ '.' ∧ c ≠ 'e' ∧ c ≠ 'E') : Number.Stops (c :: r) := by
  intro d h
  cases h
  exact ⟨hd, hc⟩

theorem stops_renderElems (vs : List Json) (r : List Char) : Number.Stops (renderElems vs ++ r) := by
  cases vs with
  | nil => exact stops_of_ne (by decide) (by decide)
  | cons v vs => exact stops_of_ne (by decide) (by decide)

theorem stops_renderMembers (kvs : List (String × Json)) (r : List Char) :
    Number.Stops (renderMembers kvs ++ r) := by
  cases kvs with
  | nil => exact stops_of_ne (by decide) (by decide)
  | cons kv kvs => exact stops_of_ne (by decide) (by decide)

theorem isWs_of_isDigit {c : Char} (hc : c.isDigit = true) : isWs c = false := by
  simp only [isWs, Bool.or_eq_false_iff, decide_eq_false_iff_not]
  refine ⟨⟨⟨?_, ?_⟩, ?_⟩, ?_⟩ <;> rintro rfl <;> revert hc <;> decide

/-- A text that starts with a digit is a number. -/
theorem value_digit {c : Char} (hc : c.isDigit = true) (n : Nat) (cs : List Char) :
    value (n + 1) (c :: cs) = (number (c :: cs)).map fun x => (.num x.1, x.2) := by
  rw [value, skip_cons (isWs_of_isDigit hc)]
  split
  next h => cases h; exact absurd hc (by decide)
  next h => cases h; exact absurd hc (by decide)
  next h => cases h; exact absurd hc (by decide)
  next h => cases h; exact absurd hc (by decide)
  next h => cases h; exact absurd hc (by decide)
  next h => cases h; exact absurd hc (by decide)
  next => rfl

theorem value_natCast (m n : Nat) {r : List Char} (hr : Number.Stops r) :
    value (n + 1) (render (.num (m : ℚ)) ++ r) = some (.num (m : ℚ), r) := by
  have hnum := number_toDigits m hr
  have hds : ∀ c ∈ Nat.toDigits 10 m, c.isDigit = true := fun c hc =>
    Nat.isDigit_of_mem_toDigits (by omega) (by omega) hc
  simp only [render, Number.textOf_natCast, String.toList_ofList]
  cases hd : Nat.toDigits 10 m with
  | nil => exact absurd hd Nat.toDigits_ne_nil
  | cons c cs =>
      rw [hd] at hnum hds
      rw [List.cons_append] at hnum ⊢
      rw [value_digit (hds c (List.mem_cons_self ..)), hnum]
      rfl

/-- The first character of a value is no space and no closing bracket. -/
theorem render_head (v : Json) (h : v.Plain) : ∃ c cs, render v = c :: cs ∧
    isWs c = false ∧ c ≠ ']' := by
  cases v with
  | null => exact ⟨_, _, rfl, by decide, by decide⟩
  | bool b =>
      cases b with
      | false => exact ⟨_, _, rfl, by decide, by decide⟩
      | true => exact ⟨_, _, rfl, by decide, by decide⟩
  | num q =>
      obtain ⟨n, rfl⟩ := h
      have hds : ∀ c ∈ Nat.toDigits 10 n, c.isDigit = true := fun c hc =>
        Nat.isDigit_of_mem_toDigits (by omega) (by omega) hc
      simp only [render, Number.textOf_natCast, String.toList_ofList]
      cases hd : Nat.toDigits 10 n with
      | nil => exact absurd hd Nat.toDigits_ne_nil
      | cons c cs =>
          have hc := hds c (hd ▸ List.mem_cons_self ..)
          refine ⟨c, cs, rfl, isWs_of_isDigit hc, ?_⟩
          rintro rfl
          revert hc
          decide
  | str s => exact ⟨_, _, rfl, by decide, by decide⟩
  | arr vs =>
      cases vs with
      | nil => exact ⟨_, _, rfl, by decide, by decide⟩
      | cons v vs => exact ⟨_, _, rfl, by decide, by decide⟩
  | obj kvs =>
      cases kvs with
      | nil => exact ⟨_, _, rfl, by decide, by decide⟩
      | cons kv kvs => exact ⟨_, _, rfl, by decide, by decide⟩

theorem expect_render {v : Json} (h : v.Plain) (r : List Char) :
    expect ']' (render v ++ r) = none := by
  obtain ⟨c, cs, hc, hws, hne⟩ := render_head v h
  rw [hc, List.cons_append]
  exact expect_ne hws hne _

mutual

/-- The reader reads a value back, given two units of fuel for each character. -/
theorem value_render (v : Json) (h : v.Plain) (n : Nat) (r : List Char)
    (hn : 2 * (render v).length ≤ n) (hr : Number.Stops r) :
    value n (render v ++ r) = some (v, r) := by
  obtain ⟨c, cs, hc, -, -⟩ := render_head v h
  obtain ⟨n, rfl⟩ : ∃ m, n = m + 1 := ⟨n - 1, by simp [hc] at hn; omega⟩
  match hv : v, h with
  | .null, _ => rfl
  | .bool true, _ => rfl
  | .bool false, _ => rfl
  | .num q, ⟨m, hm⟩ => exact hm ▸ value_natCast m n hr
  | .str s, _ =>
      have hl := literal_quote s r
      simp only [render, quote, List.cons_append, List.append_assoc, List.nil_append]
      rw [value, skip_cons (by decide)]
      simp only [hl, Option.map_some]
  | .arr [], _ => rfl
  | .arr (v :: vs), h =>
      simp only [Plain, PlainElems] at h
      simp only [render, List.length_cons, List.length_append] at hn
      have ih := elems_render v vs h.1 h.2 n r (by simp only [List.length_append]; omega)
      have he := expect_render h.1 (renderElems vs ++ r)
      simp only [render, List.cons_append, List.append_assoc] at ih ⊢
      rw [value, skip_cons (by decide)]
      simp only [he, ih, Option.map_some]
  | .obj [], _ => rfl
  | .obj ((k, v) :: kvs), h =>
      simp only [Plain, PlainMembers] at h
      simp only [render, List.length_cons, List.length_append] at hn
      have ih := members_render k v kvs h.1 h.2 n r
        (by simp only [List.length_append, List.length_cons]; omega)
      have he : ∀ cs, expect '}' (quote k ++ cs) = none := fun cs =>
        expect_ne (by decide) (by decide) _
      simp only [render, List.cons_append, List.append_assoc] at ih ⊢
      rw [value, skip_cons (by decide)]
      simp only [he, ih, Option.map_some]
termination_by sizeOf v
decreasing_by all_goals simp +arith [hv]

theorem elems_render (v : Json) (vs : List Json) (hv : v.Plain) (hvs : PlainElems vs) (n : Nat)
    (r : List Char) (hn : 2 * (render v ++ renderElems vs).length ≤ n) :
    elems n (render v ++ renderElems vs ++ r) = some (v :: vs, r) := by
  obtain ⟨c, cs, hc, -, -⟩ := render_head v hv
  obtain ⟨n, rfl⟩ : ∃ m, n = m + 1 := ⟨n - 1, by simp [hc] at hn; omega⟩
  match hs : vs, hvs with
  | [], _ =>
      simp only [renderElems, List.length_append, List.length_singleton] at hn
      have ih := value_render v hv n (']' :: r) (by omega) (stops_renderElems [] r)
      simp only [renderElems, List.append_assoc, List.cons_append, List.nil_append] at ih ⊢
      simp only [elems, ih, expect_self (show isWs ']' = false by decide)]
  | w :: ws, ⟨hw, hws⟩ =>
      simp only [renderElems, List.length_append, List.length_cons] at hn
      have ih := value_render v hv n (renderElems (w :: ws) ++ r) (by omega)
        (stops_renderElems (w :: ws) r)
      have ih' := elems_render w ws hw hws n r (by simp only [List.length_append]; omega)
      simp only [renderElems, List.append_assoc, List.cons_append] at ih ih' ⊢
      simp only [elems, ih, expect_ne (show isWs ',' = false by decide) (show ',' ≠ ']' by decide),
        expect_self (show isWs ',' = false by decide), ih', Option.map_some]
termination_by sizeOf v + sizeOf vs
decreasing_by all_goals simp +arith [hs]

theorem members_render (k : String) (v : Json) (kvs : List (String × Json)) (hv : v.Plain)
    (hkvs : PlainMembers kvs) (n : Nat) (r : List Char)
    (hn : 2 * (quote k ++ ':' :: (render v ++ renderMembers kvs)).length ≤ n) :
    members n (quote k ++ ':' :: (render v ++ renderMembers kvs) ++ r) = some ((k, v) :: kvs, r) := by
  simp only [quote, List.length_append, List.length_cons] at hn
  obtain ⟨n, rfl⟩ : ∃ m, n = m + 1 := ⟨n - 1, by omega⟩
  have hl := literal_quote k (':' :: (render v ++ renderMembers kvs ++ r))
  match hs : kvs, hkvs with
  | [], _ =>
      have ih := value_render v hv n ('}' :: r) (by omega) (stops_renderMembers [] r)
      simp only [renderMembers, quote, List.append_assoc, List.cons_append, List.nil_append]
        at ih hl ⊢
      simp only [members, expect_self (show isWs '"' = false by decide), hl,
        expect_self (show isWs ':' = false by decide), ih,
        expect_self (show isWs '}' = false by decide)]
  | (k', w) :: ws, ⟨hw, hws⟩ =>
      simp only [renderMembers, List.length_append, List.length_cons] at hn
      have ih := value_render v hv n (renderMembers ((k', w) :: ws) ++ r) (by omega)
        (stops_renderMembers _ r)
      have ih' := members_render k' w ws hw hws n r
        (by simp only [List.length_append, List.length_cons]; omega)
      simp only [renderMembers, quote, List.append_assoc, List.cons_append, List.nil_append]
        at ih ih' hl ⊢
      simp only [members, expect_self (show isWs '"' = false by decide), hl,
        expect_self (show isWs ':' = false by decide), ih,
        expect_ne (show isWs ',' = false by decide) (show ',' ≠ '}' by decide),
        expect_self (show isWs ',' = false by decide), ih', Option.map_some]
termination_by sizeOf v + sizeOf kvs
decreasing_by all_goals simp +arith [hs]

end

/-- `JSON.parse` inverts `JSON.stringify` on plain values. -/
theorem parse_stringify {v : Json} (h : v.Plain) : parse (stringify v) = some v := by
  have hv := value_render v h (2 * (render v).length + 2) [] (by omega) (by intro c hc; cases hc)
  rw [List.append_nil] at hv
  simp [parse, stringify, hv, skip]

end Json
