import NexusErebus.Text.Numeral

/-!
# JSON as it is written

The reader forgets how a value was written: the spaces between its tokens, the escapes in its
string literals and the digits of its numbers.  `Written` is a value with all of them, `text`
what it looks like and `value` what it means.  A tree can only be built of spaces, numbers and
string literals that the grammar allows.

`parse_text` says that `JSON.parse` reads every such text, and `exists_written` that it reads no
other.
-/

namespace Json

open Number (Stops)

/-! ## Spaces and string literals -/

/-- A code unit is read as a printable character of ASCII only if it is its code. -/
theorem ofNat_eq_iff {c : Char} (hc : 32 ≤ c.toNat ∧ c.toNat < 127) (n : Nat) :
    (if Surrogate n then '\uFFFD' else Char.ofNat n) = c ↔ n = c.toNat := by
  by_cases hs : Surrogate n
  · rw [if_pos hs]
    simp only [Surrogate] at hs
    refine iff_of_false ?_ (by omega)
    rintro rfl
    exact absurd hc.2 (by decide)
  rw [if_neg hs]
  refine ⟨?_, fun h => by rw [h, Char.ofNat_toNat]⟩
  rintro rfl
  by_cases hv : n.isValidChar
  · rw [Char.ofNat, dif_pos hv]
    rfl
  · rw [Char.ofNat, dif_neg hv] at hc
    exact absurd hc.1 (by decide)

/-- A printable character of ASCII stands in a string as often as its code does. -/
theorem count_chars {c : Char} (hc : 32 ≤ c.toNat ∧ c.toNat < 127) (ns : List Nat) :
    (chars ns).count c = ns.count c.toNat := by
  fun_induction chars ns with
  | case1 => rfl
  | case2 n => simp only [List.count_cons, List.count_nil, beq_iff_eq, ofNat_eq_iff hc]
  | case3 hi lo ns hpair ih =>
      have hne : Char.ofNat (0x10000 + (hi - 0xD800) * 0x400 + (lo - 0xDC00)) ≠ c := by
        intro h
        have hs : ¬ Surrogate (0x10000 + (hi - 0xD800) * 0x400 + (lo - 0xDC00)) := by
          simp only [Surrogate]
          omega
        have := (ofNat_eq_iff hc _).mp (by rw [if_neg hs]; exact h)
        omega
      simp only [List.count_cons, ih, beq_iff_eq, hne, if_false]
      have hhi : hi ≠ c.toNat := by omega
      have hlo : lo ≠ c.toNat := by omega
      simp only [hhi, hlo, if_false]
  | case4 hi lo ns hpair ih =>
      rw [List.count_cons, ih]
      simp only [List.count_cons, beq_iff_eq, ofNat_eq_iff hc]

/-- The spaces between two tokens. -/
structure Gap where
  text : List Char
  spaces : ∀ c ∈ text, isWs c = true

/-- The letters of the short escapes, with the code each stands for. -/
def shortEscapes : List (Char × Nat) :=
  [('"', 34), ('\\', 92), ('/', 47), ('b', 8), ('f', 12), ('n', 10), ('r', 13), ('t', 9)]

/-- What a string literal is made of. -/
inductive Piece where
  | plain (c : Char) (h : c ≠ '"' ∧ c ≠ '\\' ∧ 32 ≤ c.toNat)
  | short (c : Char) (n : Nat) (h : (c, n) ∈ shortEscapes)
  | hex (a b c d : Char) (n : Nat) (h : hex4 a b c d = some n)

namespace Piece

def text : Piece → List Char
  | .plain c _ => [c]
  | .short c _ _ => ['\\', c]
  | .hex a b c d _ _ => ['\\', 'u', a, b, c, d]

/-- The code point, or the code unit, that the piece stands for. -/
def code : Piece → Nat
  | .plain c _ => c.toNat
  | .short _ n _ => n
  | .hex _ _ _ _ n _ => n

theorem hexVal_of_hex4 {a b c d x : Char} {n : Nat} (h : hex4 a b c d = some n)
    (hx : x ∈ [a, b, c, d]) : (hexVal x).isSome = true := by
  rw [hex4] at h
  split at h
  next ha hb hc hd =>
    simp only [List.mem_cons, List.not_mem_nil, or_false] at hx
    rcases hx with rfl | rfl | rfl | rfl
    · rw [ha]; rfl
    · rw [hb]; rfl
    · rw [hc]; rfl
    · rw [hd]; rfl
  next => cases h

/-- A character that no escape has in it stands for itself. -/
theorem text_eq_of_mem {p : Piece} {x : Char} (h : x ∈ p.text)
    (hx : x ≠ '\\' ∧ x ≠ 'u' ∧ x ∉ shortEscapes.map Prod.fst ∧ hexVal x = none) :
    p.text = [x] := by
  obtain ⟨hback, hu, hshort, hhex⟩ := hx
  cases p with
  | plain c _ => rw [List.mem_singleton.mp h]; rfl
  | short c n hc =>
      simp only [text, List.mem_cons, List.not_mem_nil, or_false] at h
      rcases h with rfl | rfl
      · exact absurd rfl hback
      · exact absurd (List.mem_map_of_mem hc) hshort
  | hex a b c d n hn =>
      rcases List.mem_cons.mp h with rfl | h
      · exact absurd rfl hback
      rcases List.mem_cons.mp h with rfl | h
      · exact absurd rfl hu
      · exact absurd (hexVal_of_hex4 hn h) (by simp [hhex])

theorem units_append (p : Piece) (r : List Char) :
    units (p.text ++ r) = (units r).map fun x => (p.code :: x.1, x.2) := by
  cases p with
  | plain c h =>
      obtain ⟨hq, hb, hc⟩ := h
      simp only [text, code, List.cons_append, List.nil_append]
      rw [units.eq_def]
      split
      all_goals simp_all
  | short c n h =>
      simp only [shortEscapes, List.mem_cons, Prod.mk.injEq, List.not_mem_nil, or_false] at h
      rcases h with ⟨rfl, rfl⟩ | ⟨rfl, rfl⟩ | ⟨rfl, rfl⟩ | ⟨rfl, rfl⟩ | ⟨rfl, rfl⟩ | ⟨rfl, rfl⟩ |
        ⟨rfl, rfl⟩ | ⟨rfl, rfl⟩
      all_goals rfl
  | hex a b c d n h => simp only [text, code, List.cons_append, List.nil_append, units, h]

end Piece

/-- What stands between the quotes of a string literal. -/
abbrev Body := List Piece

namespace Body

def text (b : Body) : List Char := b.flatMap Piece.text

theorem text_cons (p : Piece) (b : Body) : text (p :: b) = p.text ++ b.text := rfl

/-- The string that the literal stands for. -/
def string (b : Body) : String := String.ofList (chars (b.map Piece.code))

theorem units_append (b : Body) (r : List Char) :
    units (b.text ++ '"' :: r) = some (b.map Piece.code, r) := by
  induction b with
  | nil => rfl
  | cons p b ih =>
      rw [text_cons, List.append_assoc, Piece.units_append, ih]
      rfl

theorem literal_append (b : Body) (r : List Char) :
    literal (b.text ++ '"' :: r) = some (b.string, r) := by
  rw [literal, units_append]
  rfl

/-- A printable character of ASCII stands in the string as often as its code is spelled. -/
theorem count_string {c : Char} (hc : 32 ≤ c.toNat ∧ c.toNat < 127) (b : Body) :
    b.string.toList.count c = (b.map Piece.code).count c.toNat := by
  rw [string, String.toList_ofList, count_chars hc]

/-- Every string literal that can be read is made of pieces. -/
theorem exists_of_units {cs r : List Char} {ns : List Nat} (h : units cs = some (ns, r)) :
    ∃ b : Body, cs = b.text ++ '"' :: r ∧ b.map Piece.code = ns := by
  -- one piece in front of a literal that is made of pieces
  have hcons : ∀ (p : Piece) (cs : List Char) (ns : List Nat),
      ((units cs).map fun x => (p.code :: x.1, x.2)) = some (ns, r) →
      (∀ ms, units cs = some (ms, r) → ∃ b : Body, cs = b.text ++ '"' :: r ∧
        b.map Piece.code = ms) →
      ∃ b : Body, p.text ++ cs = b.text ++ '"' :: r ∧ b.map Piece.code = ns := by
    intro p cs ns hmap ih
    obtain ⟨⟨ms, r'⟩, hread, hx⟩ := Option.map_eq_some_iff.mp hmap
    cases hx
    obtain ⟨b, rfl, rfl⟩ := ih ms hread
    exact ⟨p :: b, (List.append_assoc ..).symm, rfl⟩
  fun_induction units cs generalizing ns with
  | case1 => cases h
  | case2 r => cases h; exact ⟨[], rfl, rfl⟩
  | case3 r ih => exact hcons (.short '"' 34 (by decide)) r ns h fun _ => ih
  | case4 r ih => exact hcons (.short '\\' 92 (by decide)) r ns h fun _ => ih
  | case5 r ih => exact hcons (.short '/' 47 (by decide)) r ns h fun _ => ih
  | case6 r ih => exact hcons (.short 'b' 8 (by decide)) r ns h fun _ => ih
  | case7 r ih => exact hcons (.short 'f' 12 (by decide)) r ns h fun _ => ih
  | case8 r ih => exact hcons (.short 'n' 10 (by decide)) r ns h fun _ => ih
  | case9 r ih => exact hcons (.short 'r' 13 (by decide)) r ns h fun _ => ih
  | case10 r ih => exact hcons (.short 't' 9 (by decide)) r ns h fun _ => ih
  | case11 => cases h
  | case12 a b c d r n hn ih => exact hcons (.hex a b c d n hn) r ns h fun _ => ih
  | case13 => cases h
  | case14 => cases h
  | case15 c r hq _ _ _ _ _ _ _ _ _ hb hge ih =>
      exact hcons (.plain c ⟨hq, hb, Nat.le_of_not_lt hge⟩) r ns h fun _ => ih

end Body

/-! ## Values -/

mutual

/-- A value, as it is written. -/
inductive Written where
  | null
  | bool (b : Bool)
  | num (d : Numeral)
  | str (b : Body)
  | emptyArr (g : Gap)
  | arr (es : WrittenElems)
  | emptyObj (g : Gap)
  | obj (ms : WrittenMembers)

/-- The elements of an array, up to its bracket. -/
inductive WrittenElems where
  | last (g : Gap) (v : Written) (g' : Gap)
  | more (g : Gap) (v : Written) (g' : Gap) (es : WrittenElems)

/-- The members of an object, up to its brace. -/
inductive WrittenMembers where
  | last (g₁ : Gap) (k : Body) (g₂ g₃ : Gap) (v : Written) (g₄ : Gap)
  | more (g₁ : Gap) (k : Body) (g₂ g₃ : Gap) (v : Written) (g₄ : Gap) (ms : WrittenMembers)

end

mutual

def Written.text : Written → List Char
  | .null => "null".toList
  | .bool b => if b then "true".toList else "false".toList
  | .num d => d.text
  | .str b => '"' :: (b.text ++ ['"'])
  | .emptyArr g => '[' :: (g.text ++ [']'])
  | .arr es => '[' :: es.text
  | .emptyObj g => '{' :: (g.text ++ ['}'])
  | .obj ms => '{' :: ms.text

def WrittenElems.text : WrittenElems → List Char
  | .last g v g' => g.text ++ (v.text ++ (g'.text ++ [']']))
  | .more g v g' es => g.text ++ (v.text ++ (g'.text ++ ',' :: es.text))

def WrittenMembers.text : WrittenMembers → List Char
  | .last g₁ k g₂ g₃ v g₄ =>
      g₁.text ++ '"' :: (k.text ++ '"' :: (g₂.text ++ ':' :: (g₃.text ++ (v.text ++
        (g₄.text ++ ['}'])))))
  | .more g₁ k g₂ g₃ v g₄ ms =>
      g₁.text ++ '"' :: (k.text ++ '"' :: (g₂.text ++ ':' :: (g₃.text ++ (v.text ++
        (g₄.text ++ ',' :: ms.text)))))

end

mutual

/-- The value that is written. -/
def Written.value : Written → Json
  | .null => .null
  | .bool b => .bool b
  | .num d => .num d.val
  | .str b => .str b.string
  | .emptyArr _ => .arr []
  | .arr es => .arr es.values
  | .emptyObj _ => .obj []
  | .obj ms => .obj ms.values

def WrittenElems.values : WrittenElems → List Json
  | .last _ v _ => [v.value]
  | .more _ v _ es => v.value :: es.values

def WrittenMembers.values : WrittenMembers → List (String × Json)
  | .last _ k _ _ v _ => [(k.string, v.value)]
  | .more _ k _ _ v _ ms => (k.string, v.value) :: ms.values

end

/-! ### Reading -/

/-- The characters a value starts with. -/
def Opens (c : Char) : Prop :=
  c.isDigit = true ∨ c ∈ ['-', 'n', 't', 'f', '"', '[', '{']

instance (c : Char) : Decidable (Opens c) := inferInstanceAs (Decidable (_ ∨ _))

theorem Opens.isWs {c : Char} (h : Opens c) : isWs c = false := by
  rcases h with h | h
  · exact isWs_of_isDigit h
  · exact Text.forall_mem_of_all (P := fun c => Json.isWs c = false) (by decide) c h

theorem Opens.ne {c : Char} (h : Opens c) : c ≠ ',' ∧ c ≠ ']' ∧ c ≠ '}' := by
  refine ⟨?_, ?_, ?_⟩ <;> rintro rfl <;> revert h <;> decide

theorem Written.head (w : Written) : ∃ c cs, w.text = c :: cs ∧ Opens c := by
  cases w with
  | null => exact ⟨'n', ['u', 'l', 'l'], rfl, by decide⟩
  | bool b =>
      cases b with
      | false => exact ⟨'f', ['a', 'l', 's', 'e'], rfl, by decide⟩
      | true => exact ⟨'t', ['r', 'u', 'e'], rfl, by decide⟩
  | num d =>
      obtain ⟨c, cs, ht, hc⟩ := d.head
      refine ⟨c, cs, ht, ?_⟩
      rcases hc with hc | rfl
      · exact .inl hc
      · decide
  | _ => exact ⟨_, _, rfl, by decide⟩

theorem Gap.skip_append (g : Gap) (r : List Char) : skip (g.text ++ r) = skip r :=
  List.dropWhile_append_of_pos g.spaces

theorem Gap.expect_append (g : Gap) (c : Char) (r : List Char) :
    expect c (g.text ++ r) = expect c r := by
  rw [expect, g.skip_append, expect]

theorem Gap.value_append (g : Gap) (n : Nat) (r : List Char) :
    value n (g.text ++ r) = value n r := by
  cases n with
  | zero => rfl
  | succ n => rw [value, g.skip_append, value]

theorem Gap.stops_append (g : Gap) {r : List Char} (hr : Stops r) : Stops (g.text ++ r) := by
  cases ht : g.text with
  | nil => exact hr
  | cons c cs =>
      have hc := g.spaces c (ht ▸ List.mem_cons_self ..)
      refine stops_of_ne ?_ ?_
      · exact Bool.eq_false_iff.mpr fun hd => by rw [isWs_of_isDigit hd] at hc; cases hc
      · refine ⟨?_, ?_, ?_⟩ <;> rintro rfl <;> revert hc <;> decide

/-- A text that starts like a number is one. -/
theorem value_number {c : Char} (hc : c.isDigit = true ∨ c = '-') (n : Nat) (cs : List Char) :
    value (n + 1) (c :: cs) = (number (c :: cs)).map fun x => (.num x.1, x.2) := by
  rcases hc with hc | rfl
  · exact value_digit hc n cs
  · rfl

theorem Written.expect_text (w : Written) (r : List Char) : expect ']' (w.text ++ r) = none := by
  obtain ⟨c, cs, ht, hc⟩ := w.head
  rw [ht]
  exact expect_ne hc.isWs hc.ne.2.1 _

theorem WrittenElems.expect_text (es : WrittenElems) (r : List Char) :
    expect ']' (es.text ++ r) = none := by
  cases es with
  | last g v g' =>
      rw [text, List.append_assoc, g.expect_append, List.append_assoc, v.expect_text]
  | more g v g' es =>
      rw [text, List.append_assoc, g.expect_append, List.append_assoc, v.expect_text]

theorem WrittenMembers.expect_text (ms : WrittenMembers) (r : List Char) :
    expect '}' (ms.text ++ r) = none := by
  cases ms with
  | last g k =>
      rw [text, List.append_assoc, g.expect_append]
      exact expect_ne (by decide) (by decide) _
  | more g k =>
      rw [text, List.append_assoc, g.expect_append]
      exact expect_ne (by decide) (by decide) _

mutual

/-- The reader reads what is written, given two units of fuel for each character. -/
theorem Written.value_text (w : Written) (n : Nat) (r : List Char) (hn : 2 * w.text.length ≤ n)
    (hr : Stops r) : Json.value n (w.text ++ r) = some (w.value, r) := by
  obtain ⟨c, cs, hc, -⟩ := w.head
  obtain ⟨n, rfl⟩ : ∃ m, n = m + 1 := ⟨n - 1, by simp [hc] at hn; omega⟩
  match w with
  | .null => rfl
  | .bool true => rfl
  | .bool false => rfl
  | .num d =>
      obtain ⟨c, cs, ht, hc⟩ := d.head
      have hread := d.number_append hr
      simp only [Written.text, Written.value]
      rw [ht] at hread ⊢
      rw [List.cons_append] at hread ⊢
      rw [value_number hc, hread]
      rfl
  | .str b =>
      have hl := b.literal_append r
      simp only [Written.text, Written.value, List.cons_append, List.append_assoc, List.nil_append]
      rw [Json.value, skip_cons (by decide)]
      simp only [hl, Option.map_some]
  | .emptyArr g =>
      have he : expect ']' (g.text ++ ']' :: r) = some r := by
        rw [g.expect_append]
        exact expect_self (by decide) r
      simp only [Written.text, Written.value, List.cons_append, List.append_assoc, List.nil_append]
      rw [Json.value, skip_cons (by decide)]
      simp only [he]
  | .arr es =>
      simp only [Written.text, List.length_cons] at hn
      have ih := es.elems_text n r (by omega)
      simp only [Written.text, Written.value, List.cons_append]
      rw [Json.value, skip_cons (by decide)]
      simp only [es.expect_text, ih, Option.map_some]
  | .emptyObj g =>
      have he : expect '}' (g.text ++ '}' :: r) = some r := by
        rw [g.expect_append]
        exact expect_self (by decide) r
      simp only [Written.text, Written.value, List.cons_append, List.append_assoc, List.nil_append]
      rw [Json.value, skip_cons (by decide)]
      simp only [he]
  | .obj ms =>
      simp only [Written.text, List.length_cons] at hn
      have ih := ms.members_text n r (by omega)
      simp only [Written.text, Written.value, List.cons_append]
      rw [Json.value, skip_cons (by decide)]
      simp only [ms.expect_text, ih, Option.map_some]

theorem WrittenElems.elems_text (es : WrittenElems) (n : Nat) (r : List Char)
    (hn : 2 * es.text.length ≤ n) : elems n (es.text ++ r) = some (es.values, r) := by
  match es with
  | .last g v g' =>
      simp only [WrittenElems.text, List.length_append, List.length_cons] at hn
      obtain ⟨n, rfl⟩ : ∃ m, n = m + 1 := ⟨n - 1, by omega⟩
      have ih := v.value_text n (g'.text ++ ']' :: r) (by omega)
        (g'.stops_append (stops_of_ne (by decide) (by decide)))
      simp only [WrittenElems.text, WrittenElems.values, List.append_assoc, List.cons_append,
        List.nil_append, elems, g.value_append, ih, g'.expect_append,
        expect_self (show isWs ']' = false by decide)]
  | .more g v g' es =>
      simp only [WrittenElems.text, List.length_append, List.length_cons] at hn
      obtain ⟨n, rfl⟩ : ∃ m, n = m + 1 := ⟨n - 1, by omega⟩
      have ih := v.value_text n (g'.text ++ ',' :: (es.text ++ r)) (by omega)
        (g'.stops_append (stops_of_ne (by decide) (by decide)))
      have ih' := es.elems_text n r (by omega)
      simp only [WrittenElems.text, WrittenElems.values, List.append_assoc, List.cons_append,
        elems, g.value_append, ih, g'.expect_append,
        expect_ne (show isWs ',' = false by decide) (show ',' ≠ ']' by decide),
        expect_self (show isWs ',' = false by decide), ih', Option.map_some]

theorem WrittenMembers.members_text (ms : WrittenMembers) (n : Nat) (r : List Char)
    (hn : 2 * ms.text.length ≤ n) : members n (ms.text ++ r) = some (ms.values, r) := by
  match ms with
  | .last g₁ k g₂ g₃ v g₄ =>
      simp only [WrittenMembers.text, List.length_append, List.length_cons] at hn
      obtain ⟨n, rfl⟩ : ∃ m, n = m + 1 := ⟨n - 1, by omega⟩
      have ih := v.value_text n (g₄.text ++ '}' :: r) (by omega)
        (g₄.stops_append (stops_of_ne (by decide) (by decide)))
      simp only [WrittenMembers.text, WrittenMembers.values, List.append_assoc, List.cons_append,
        List.nil_append, members, g₁.expect_append, expect_self (show isWs '"' = false by decide),
        k.literal_append, g₂.expect_append, expect_self (show isWs ':' = false by decide),
        g₃.value_append, ih, g₄.expect_append, expect_self (show isWs '}' = false by decide)]
  | .more g₁ k g₂ g₃ v g₄ ms =>
      simp only [WrittenMembers.text, List.length_append, List.length_cons] at hn
      obtain ⟨n, rfl⟩ : ∃ m, n = m + 1 := ⟨n - 1, by omega⟩
      have ih := v.value_text n (g₄.text ++ ',' :: (ms.text ++ r)) (by omega)
        (g₄.stops_append (stops_of_ne (by decide) (by decide)))
      have ih' := ms.members_text n r (by omega)
      simp only [WrittenMembers.text, WrittenMembers.values, List.append_assoc, List.cons_append,
        members, g₁.expect_append, expect_self (show isWs '"' = false by decide),
        k.literal_append, g₂.expect_append, expect_self (show isWs ':' = false by decide),
        g₃.value_append, ih, g₄.expect_append,
        expect_ne (show isWs ',' = false by decide) (show ',' ≠ '}' by decide),
        expect_self (show isWs ',' = false by decide), ih', Option.map_some]

end

/-- `JSON.parse` reads what is written. -/
theorem Written.parse_text (w : Written) : parse (String.ofList w.text) = some w.value := by
  have hv := w.value_text (2 * w.text.length + 2) [] (by omega) (by intro c hc; cases hc)
  rw [List.append_nil] at hv
  simp [parse, hv, skip]

/-! ### What can be read is written -/

theorem exists_gap (cs : List Char) : ∃ g : Gap, cs = g.text ++ skip cs :=
  ⟨⟨cs.takeWhile isWs, List.all_eq_true.mp List.all_takeWhile⟩,
    List.takeWhile_append_dropWhile.symm⟩

theorem exists_gap_of_expect {c : Char} {cs r : List Char} (h : expect c cs = some r) :
    ∃ g : Gap, cs = g.text ++ c :: r := by
  obtain ⟨g, hg⟩ := exists_gap cs
  rw [expect] at h
  split at h
  next => cases h
  next d r' hskip =>
    split_ifs at h with hd
    cases h
    exact ⟨g, by rw [← hd, ← hskip]; exact hg⟩

theorem exists_body {cs r : List Char} {s : String} (h : literal cs = some (s, r)) :
    ∃ b : Body, cs = b.text ++ '"' :: r ∧ b.string = s := by
  obtain ⟨⟨ns, r'⟩, hread, hx⟩ := Option.map_eq_some_iff.mp h
  cases hx
  obtain ⟨b, hb, rfl⟩ := Body.exists_of_units hread
  exact ⟨b, hb, rfl⟩

theorem exists_numeral {cs r : List Char} {q : ℚ} (h : number cs = some (q, r)) :
    ∃ d : Numeral, cs = d.text ++ r ∧ d.val = q := by
  obtain ⟨t, ht, -, hread⟩ := number_split h
  have hself := hread [] (by intro c hc; cases hc)
  rw [List.append_nil] at hself
  exact ⟨⟨t, q, hself⟩, ht, rfl⟩

/-- What the reader reads with some fuel, in each of its three parts, is written. -/
structure ReadsWritten (n : Nat) : Prop where
  value : ∀ {cs r v}, value n cs = some (v, r) →
    ∃ (g : Gap) (w : Written), cs = g.text ++ (w.text ++ r) ∧ w.value = v
  elems : ∀ {cs r vs}, elems n cs = some (vs, r) →
    ∃ es : WrittenElems, cs = es.text ++ r ∧ es.values = vs
  members : ∀ {cs r kvs}, members n cs = some (kvs, r) →
    ∃ ms : WrittenMembers, cs = ms.text ++ r ∧ ms.values = kvs

theorem ReadsWritten.value_succ {n : Nat} (ih : ReadsWritten n) {cs r : List Char} {v : Json}
    (h : Json.value (n + 1) cs = some (v, r)) :
    ∃ (g : Gap) (w : Written), cs = g.text ++ (w.text ++ r) ∧ w.value = v := by
  obtain ⟨g, hg⟩ := exists_gap cs
  -- it is enough to find what is behind the spaces
  suffices hw : ∃ w : Written, skip cs = w.text ++ r ∧ w.value = v by
    obtain ⟨w, hw, hv⟩ := hw
    exact ⟨g, w, hw ▸ hg, hv⟩
  rw [Json.value] at h
  split at h
  next hs => cases h; exact ⟨.null, hs, rfl⟩
  next hs => cases h; exact ⟨.bool true, hs, rfl⟩
  next hs => cases h; exact ⟨.bool false, hs, rfl⟩
  next r' hs =>
    obtain ⟨⟨s, r''⟩, hread, hx⟩ := Option.map_eq_some_iff.mp h
    cases hx
    obtain ⟨b, rfl, rfl⟩ := exists_body hread
    exact ⟨.str b, by simpa [Written.text] using hs, rfl⟩
  next r' hs =>
    split at h
    next r'' he =>
      cases h
      obtain ⟨g', rfl⟩ := exists_gap_of_expect he
      exact ⟨.emptyArr g', by simpa [Written.text] using hs, rfl⟩
    next =>
      obtain ⟨⟨vs, r''⟩, hread, hx⟩ := Option.map_eq_some_iff.mp h
      cases hx
      obtain ⟨es, rfl, rfl⟩ := ih.elems hread
      exact ⟨.arr es, hs, rfl⟩
  next r' hs =>
    split at h
    next r'' he =>
      cases h
      obtain ⟨g', rfl⟩ := exists_gap_of_expect he
      exact ⟨.emptyObj g', by simpa [Written.text] using hs, rfl⟩
    next =>
      obtain ⟨⟨kvs, r''⟩, hread, hx⟩ := Option.map_eq_some_iff.mp h
      cases hx
      obtain ⟨ms, rfl, rfl⟩ := ih.members hread
      exact ⟨.obj ms, hs, rfl⟩
  next =>
    obtain ⟨⟨q, r''⟩, hread, hx⟩ := Option.map_eq_some_iff.mp h
    cases hx
    obtain ⟨d, hd, rfl⟩ := exists_numeral hread
    exact ⟨.num d, hd, rfl⟩

theorem ReadsWritten.elems_succ {n : Nat} (ih : ReadsWritten n) {cs r : List Char}
    {vs : List Json} (h : Json.elems (n + 1) cs = some (vs, r)) :
    ∃ es : WrittenElems, cs = es.text ++ r ∧ es.values = vs := by
  rw [Json.elems] at h
  split at h
  next => cases h
  next v r' hread =>
    obtain ⟨g, w, rfl, rfl⟩ := ih.value hread
    split at h
    next r'' he =>
      cases h
      obtain ⟨g', rfl⟩ := exists_gap_of_expect he
      exact ⟨.last g w g', by simp [WrittenElems.text], rfl⟩
    next =>
      split at h
      next r'' he =>
        obtain ⟨⟨vs', r''⟩, hread', hx⟩ := Option.map_eq_some_iff.mp h
        cases hx
        obtain ⟨g', rfl⟩ := exists_gap_of_expect he
        obtain ⟨es, rfl, rfl⟩ := ih.elems hread'
        exact ⟨.more g w g' es, by simp [WrittenElems.text], rfl⟩
      next => cases h

theorem ReadsWritten.members_succ {n : Nat} (ih : ReadsWritten n) {cs r : List Char}
    {kvs : List (String × Json)} (h : Json.members (n + 1) cs = some (kvs, r)) :
    ∃ ms : WrittenMembers, cs = ms.text ++ r ∧ ms.values = kvs := by
  rw [Json.members] at h
  split at h
  next => cases h
  next r₁ hq =>
    obtain ⟨g₁, rfl⟩ := exists_gap_of_expect hq
    split at h
    next => cases h
    next k r₂ hk =>
      obtain ⟨b, rfl, rfl⟩ := exists_body hk
      split at h
      next => cases h
      next r₃ hc =>
        obtain ⟨g₂, rfl⟩ := exists_gap_of_expect hc
        split at h
        next => cases h
        next v r₄ hread =>
          obtain ⟨g₃, w, rfl, rfl⟩ := ih.value hread
          split at h
          next r₅ he =>
            cases h
            obtain ⟨g₄, rfl⟩ := exists_gap_of_expect he
            exact ⟨.last g₁ b g₂ g₃ w g₄, by simp [WrittenMembers.text], rfl⟩
          next =>
            split at h
            next r₅ he =>
              obtain ⟨⟨kvs', r₆⟩, hread', hx⟩ := Option.map_eq_some_iff.mp h
              cases hx
              obtain ⟨g₄, rfl⟩ := exists_gap_of_expect he
              obtain ⟨ms, rfl, rfl⟩ := ih.members hread'
              exact ⟨.more g₁ b g₂ g₃ w g₄ ms, by simp [WrittenMembers.text], rfl⟩
            next => cases h

theorem readsWritten (n : Nat) : ReadsWritten n := by
  induction n with
  | zero =>
      refine ⟨fun h => ?_, fun h => ?_, fun h => ?_⟩
      · rw [Json.value] at h; cases h
      · rw [Json.elems] at h; cases h
      · rw [Json.members] at h; cases h
  | succ n ih => exact ⟨ih.value_succ, ih.elems_succ, ih.members_succ⟩

/-- `JSON.parse` reads nothing but what is written, with spaces around it. -/
theorem exists_written {s : String} {v : Json} (h : parse s = some v) :
    ∃ (g : Gap) (w : Written) (g' : Gap), s.toList = g.text ++ (w.text ++ g'.text) ∧
      w.value = v := by
  rw [parse] at h
  split at h
  next v' r hread =>
    split_ifs at h with hr
    cases h
    obtain ⟨g, w, ht, hv⟩ := (readsWritten _).value hread
    obtain ⟨g', hg'⟩ := exists_gap r
    rw [hr, List.append_nil] at hg'
    exact ⟨g, w, g', hg' ▸ ht, hv⟩
  next => cases h

theorem WrittenMembers.text_ends : ∀ ms : WrittenMembers, ∃ cs, ms.text = cs ++ ['}']
  | .last g₁ k g₂ g₃ v g₄ =>
      ⟨g₁.text ++ '"' :: (k.text ++ '"' :: (g₂.text ++ ':' :: (g₃.text ++ (v.text ++ g₄.text)))),
        by simp [text]⟩
  | .more g₁ k g₂ g₃ v g₄ ms => by
      obtain ⟨cs, hcs⟩ := ms.text_ends
      exact ⟨g₁.text ++ '"' :: (k.text ++ '"' :: (g₂.text ++ ':' :: (g₃.text ++ (v.text ++
        (g₄.text ++ ',' :: cs))))), by simp [text, hcs]⟩

/-- An object stands between braces. -/
theorem Written.text_obj {w : Written} {kvs : List (String × Json)} (h : w.value = .obj kvs) :
    ∃ cs, w.text = '{' :: (cs ++ ['}']) := by
  cases w with
  | emptyObj g => exact ⟨g.text, rfl⟩
  | obj ms =>
      obtain ⟨cs, hcs⟩ := ms.text_ends
      exact ⟨cs, congrArg ('{' :: ·) hcs⟩
  | _ => cases h

/-! ## Changing the literals -/

variable (f : Body → Body)

mutual

/-- Apply a function to every string literal, keys included. -/
def Written.map : Written → Written
  | .str b => .str (f b)
  | .arr es => .arr es.map
  | .obj ms => .obj ms.map
  | w => w

def WrittenElems.map : WrittenElems → WrittenElems
  | .last g v g' => .last g v.map g'
  | .more g v g' es => .more g v.map g' es.map

def WrittenMembers.map : WrittenMembers → WrittenMembers
  | .last g₁ k g₂ g₃ v g₄ => .last g₁ (f k) g₂ g₃ v.map g₄
  | .more g₁ k g₂ g₃ v g₄ ms => .more g₁ (f k) g₂ g₃ v.map g₄ ms.map

end

mutual

/-- The string literals of a value, keys included. -/
def Written.bodies : Written → List Body
  | .str b => [b]
  | .arr es => es.bodies
  | .obj ms => ms.bodies
  | _ => []

def WrittenElems.bodies : WrittenElems → List Body
  | .last _ v _ => v.bodies
  | .more _ v _ es => v.bodies ++ es.bodies

def WrittenMembers.bodies : WrittenMembers → List Body
  | .last _ k _ _ v _ => k :: v.bodies
  | .more _ k _ _ v _ ms => k :: (v.bodies ++ ms.bodies)

end

mutual

theorem Written.map_map (f g : Body → Body) (w : Written) :
    (w.map f).map g = w.map fun b => g (f b) := by
  match w with
  | .str b => rfl
  | .arr es => exact congrArg _ (es.map_map f g)
  | .obj ms => exact congrArg _ (ms.map_map f g)
  | .null => rfl
  | .bool b => rfl
  | .num d => rfl
  | .emptyArr g => rfl
  | .emptyObj g => rfl

theorem WrittenElems.map_map (f g : Body → Body) (es : WrittenElems) :
    (es.map f).map g = es.map fun b => g (f b) := by
  match es with
  | .last _ v _ => simp only [WrittenElems.map, v.map_map f g]
  | .more _ v _ es => simp only [WrittenElems.map, v.map_map f g, es.map_map f g]

theorem WrittenMembers.map_map (f g : Body → Body) (ms : WrittenMembers) :
    (ms.map f).map g = ms.map fun b => g (f b) := by
  match ms with
  | .last _ k _ _ v _ => simp only [WrittenMembers.map, v.map_map f g]
  | .more _ k _ _ v _ ms => simp only [WrittenMembers.map, v.map_map f g, ms.map_map f g]

end

variable {f}

mutual

/-- The value stays as it is if and only if the string of every literal does. -/
theorem Written.value_map_eq_iff (w : Written) :
    (w.map f).value = w.value ↔ ∀ b ∈ w.bodies, (f b).string = b.string := by
  match w with
  | .str b => simp [Written.map, Written.value, Written.bodies]
  | .arr es => simp [Written.map, Written.value, Written.bodies, es.values_map_eq_iff]
  | .obj ms => simp [Written.map, Written.value, Written.bodies, ms.values_map_eq_iff]
  | .null => simp [Written.map, Written.bodies]
  | .bool b => simp [Written.map, Written.bodies]
  | .num d => simp [Written.map, Written.bodies]
  | .emptyArr g => simp [Written.map, Written.bodies]
  | .emptyObj g => simp [Written.map, Written.bodies]

theorem WrittenElems.values_map_eq_iff (es : WrittenElems) :
    (es.map f).values = es.values ↔ ∀ b ∈ es.bodies, (f b).string = b.string := by
  match es with
  | .last _ v _ =>
      simp [WrittenElems.map, WrittenElems.values, WrittenElems.bodies, v.value_map_eq_iff]
  | .more _ v _ es =>
      simp [WrittenElems.map, WrittenElems.values, WrittenElems.bodies, v.value_map_eq_iff,
        es.values_map_eq_iff, or_imp, forall_and]

theorem WrittenMembers.values_map_eq_iff (ms : WrittenMembers) :
    (ms.map f).values = ms.values ↔ ∀ b ∈ ms.bodies, (f b).string = b.string := by
  match ms with
  | .last _ k _ _ v _ =>
      simp [WrittenMembers.map, WrittenMembers.values, WrittenMembers.bodies, v.value_map_eq_iff]
  | .more _ k _ _ v _ ms =>
      simp [WrittenMembers.map, WrittenMembers.values, WrittenMembers.bodies, v.value_map_eq_iff,
        ms.values_map_eq_iff, or_imp, forall_and, and_assoc]

end

theorem Written.value_map_obj {w : Written} {kvs : List (String × Json)}
    (h : w.value = .obj kvs) : ∃ kvs', (w.map f).value = .obj kvs' := by
  cases w with
  | emptyObj g => exact ⟨_, rfl⟩
  | obj ms => exact ⟨_, rfl⟩
  | _ => cases h

/-! ## Members -/

/-- The members of an object, in order. -/
def WrittenMembers.toList : WrittenMembers → List (Body × Written)
  | .last _ k _ _ v _ => [(k, v)]
  | .more _ k _ _ v _ ms => (k, v) :: ms.toList

/-- The last value under a key of an object, as it is written. -/
def Written.get? (k : String) : Written → Option Written
  | .obj ms => ((ms.toList.filter fun kv => kv.1.string = k).getLast?).map Prod.snd
  | _ => none

theorem WrittenMembers.values_eq : ∀ ms : WrittenMembers,
    ms.values = ms.toList.map fun kv => (kv.1.string, kv.2.value)
  | .last .. => rfl
  | .more _ k _ _ v _ ms => congrArg ((k.string, v.value) :: ·) ms.values_eq

theorem WrittenMembers.toList_map : ∀ ms : WrittenMembers,
    (ms.map f).toList = ms.toList.map fun kv => (f kv.1, kv.2.map f)
  | .last .. => rfl
  | .more _ k _ _ v _ ms => congrArg ((f k, v.map f) :: ·) ms.toList_map

theorem Written.field_value (k : String) (w : Written) :
    w.value.field k = (w.get? k).map Written.value := by
  cases w with
  | obj ms =>
      simp only [Written.value, field, get?, ms.values_eq, List.filter_map, List.getLast?_map,
        Option.map_map]
      rfl
  | _ => rfl

/-- A function that takes no key to the given one and none away from it leaves the members under
it where they are. -/
theorem Written.get?_map {k : String} (hk : ∀ b, (f b).string = k ↔ b.string = k) (w : Written) :
    (w.map f).get? k = (w.get? k).map (Written.map f) := by
  cases w with
  | obj ms =>
      simp only [Written.map, get?, ms.toList_map, List.filter_map, List.getLast?_map,
        Option.map_map, Function.comp_def, hk]
  | _ => rfl

end Json
