import NexusErebus.Launcher
import NexusErebus.Sample
import NexusErebus.Text.JsonSyntax

/-!
# The answer of the language model

`generateLaunchConfig` takes the text of an object out of the answer and leaves out the commas in
front of closing brackets, wherever they stand.  No such comma can stand between the tokens of an
object that is valid, so the object is read as it was meant up to its string literals: inside of
one, a comma with nothing but spaces up to a closing bracket is lost, and the spaces with it.
`closeUp_text` says so for each of the two replacements.

`launchConfig_exact_iff` says when the parameters are those of the object: the literals in their
own values have no such comma.
-/

namespace Nexus

open Async Text

/-! ## Trailing commas -/

/-- Somewhere in the text a comma stands in front of a bracket, with nothing but spaces
between. -/
def Trailing (close : Char) : List Char → Prop
  | [] => False
  | c :: cs => (c = ',' ∧ (cs.dropWhile isSpace).head? = some close) ∨ Trailing close cs

instance Trailing.instDecidable (close : Char) : (cs : List Char) → Decidable (Trailing close cs)
  | [] => inferInstanceAs (Decidable False)
  | _ :: cs => @instDecidableOr _ _ _ (instDecidable close cs)

section

variable {close : Char}

theorem closeUp_drop (n : Nat) (cs : List Char) :
    closeUp close n cs = closeUp close 0 (cs.drop n) := by
  induction cs generalizing n with
  | nil => cases n <;> rfl
  | cons c cs ih =>
      cases n with
      | zero => rfl
      | succ n => exact ih n

theorem closeUp_cons {c : Char} {cs : List Char}
    (h : ¬ (c = ',' ∧ (cs.dropWhile isSpace).head? = some close)) :
    closeUp close 0 (c :: cs) = c :: closeUp close 0 cs := by
  rw [closeUp, if_neg h]

/-- A text without commas is left as it is. -/
theorem closeUp_append {xs : List Char} (h : ∀ c ∈ xs, c ≠ ',') (cs : List Char) :
    closeUp close 0 (xs ++ cs) = xs ++ closeUp close 0 cs := by
  induction xs with
  | nil => rfl
  | cons c xs ih =>
      obtain ⟨hc, hxs⟩ := List.forall_mem_cons.mp h
      rw [List.cons_append, closeUp_cons fun h => hc h.1, ih hxs, List.cons_append]

theorem trailing_append {xs : List Char} (h : ∀ c ∈ xs, c ≠ ',') (cs : List Char) :
    Trailing close (xs ++ cs) ↔ Trailing close cs := by
  induction xs with
  | nil => rfl
  | cons c xs ih =>
      obtain ⟨hc, hxs⟩ := List.forall_mem_cons.mp h
      simp only [List.cons_append, Trailing, hc, false_and, false_or, ih hxs]

theorem closeUp_eq_self {cs : List Char} (h : ¬ Trailing close cs) : closeUp close 0 cs = cs := by
  induction cs with
  | nil => rfl
  | cons c cs ih =>
      obtain ⟨hc, hcs⟩ := not_or.mp h
      rw [closeUp_cons hc, ih hcs]

/-- The two brackets. -/
def Closing (c : Char) : Prop := c = '}' ∨ c = ']'

theorem Closing.isSpace (h : Closing close) : isSpace close = false := by
  rcases h with rfl | rfl <;> decide

theorem Closing.ne_comma (h : Closing close) : close ≠ ',' := by
  rcases h with rfl | rfl <;> decide

theorem ne_comma_of_isSpace {c : Char} (h : isSpace c = true) : c ≠ ',' := by
  rintro rfl
  revert h
  decide

/-- What is left of a trailing comma is what is left of the text behind it, from the bracket
on. -/
theorem closeUp_trailing (hclose : Closing close) {cs : List Char}
    (h : (cs.dropWhile isSpace).head? = some close) :
    closeUp close 0 (',' :: cs) = (closeUp close 0 cs).dropWhile isSpace := by
  have hsp : ∀ c ∈ cs.takeWhile isSpace, isSpace c = true :=
    List.all_eq_true.mp List.all_takeWhile
  generalize hsps : cs.takeWhile isSpace = sps at hsp
  obtain ⟨r, hr⟩ : ∃ r, cs.dropWhile isSpace = close :: r :=
    ⟨_, (List.cons_head?_tail h).symm⟩
  have hcs : cs = sps ++ close :: r := by
    rw [← hsps, ← hr, List.takeWhile_append_dropWhile]
  have hdrop : cs.drop (sps.length + 1) = r := by
    rw [hcs]
    simp [List.drop_append]
  rw [closeUp, if_pos ⟨rfl, h⟩, closeUp_drop, hsps, hdrop, hcs,
    closeUp_append fun c hc => ne_comma_of_isSpace (hsp c hc),
    closeUp_cons fun h => hclose.ne_comma h.1, List.dropWhile_append_of_pos hsp,
    List.dropWhile_cons_of_neg (by simp [hclose.isSpace])]

/-- A quote ends a literal for `closeUp`. -/
theorem closeUp_quote (hclose : Closing close) (cs r : List Char) :
    closeUp close 0 (cs ++ '"' :: r) = closeUp close 0 cs ++ '"' :: closeUp close 0 r := by
  have hq : '"' ≠ close := by rcases hclose with rfl | rfl <;> decide
  have hdrop : ∀ x y : List Char, (x ++ '"' :: y).dropWhile isSpace =
      x.dropWhile isSpace ++ '"' :: y := dropWhile_append_cons (by decide)
  induction cs with
  | nil => exact closeUp_cons (by simp)
  | cons c cs ih =>
      have hhead : ((cs ++ '"' :: r).dropWhile isSpace).head? = some close ↔
          (cs.dropWhile isSpace).head? = some close := by
        rw [hdrop]
        cases cs.dropWhile isSpace with
        | nil => simp [hq]
        | cons d ds => rfl
      by_cases hc : c = ',' ∧ (cs.dropWhile isSpace).head? = some close
      · obtain ⟨rfl, hcs⟩ := hc
        rw [List.cons_append, closeUp_trailing hclose (hhead.mpr hcs), ih, hdrop,
          closeUp_trailing hclose hcs]
      · rw [List.cons_append, closeUp_cons (by rwa [hhead]), ih, closeUp_cons hc]
        rfl

/-! ## Literals -/

/-- A piece of a literal that is one space. -/
def blank (q : Json.Piece) : Bool := q.text.all isSpace

/-- The literal that `closeUp` leaves of one. -/
def tidy (close : Char) : Json.Body → Json.Body
  | [] => []
  | q :: b =>
      if q.text = [','] ∧ ((Json.Body.text b).dropWhile isSpace).head? = some close then
        (tidy close b).dropWhile blank
      else q :: tidy close b

/-- A comma or a bracket in a literal is not part of an escape. -/
theorem piece_of_mem {q : Json.Piece} {c : Char} (hc : c = ',' ∨ Closing c) (h : c ∈ q.text) :
    q.text = [c] := by
  refine Json.Piece.text_eq_of_mem h ?_
  rcases hc with rfl | rfl | rfl <;> decide

theorem text_dropWhile_blank (b : Json.Body) :
    Json.Body.text (b.dropWhile blank) = b.text.dropWhile isSpace := by
  induction b with
  | nil => rfl
  | cons q b ih =>
      rw [Json.Body.text_cons, List.dropWhile_cons]
      by_cases hq : blank q = true
      · rw [if_pos hq, List.dropWhile_append_of_pos (List.all_eq_true.mp hq)]
        exact ih
      · -- the piece starts with a character that is no space
        obtain ⟨c, cs, hc, hsp⟩ : ∃ c cs, q.text = c :: cs ∧ isSpace c = false := by
          cases q with
          | plain c _ => exact ⟨c, [], rfl, by simpa [blank, Json.Piece.text] using hq⟩
          | short => exact ⟨_, _, rfl, by decide⟩
          | hex => exact ⟨_, _, rfl, by decide⟩
        rw [if_neg hq, Json.Body.text_cons, hc, List.cons_append,
          List.dropWhile_cons_of_neg (by simp [hsp])]

theorem text_tidy (hclose : Closing close) (b : Json.Body) :
    (tidy close b).text = closeUp close 0 b.text := by
  induction b with
  | nil => rfl
  | cons q b ih =>
      rw [tidy, Json.Body.text_cons]
      by_cases hq : q.text = [',']
      · by_cases hb : ((Json.Body.text b).dropWhile isSpace).head? = some close
        · rw [if_pos ⟨hq, hb⟩, hq, List.singleton_append, closeUp_trailing hclose hb,
            text_dropWhile_blank, ih]
        · rw [if_neg fun h => hb h.2, Json.Body.text_cons, hq, List.singleton_append,
            List.singleton_append, closeUp_cons fun h => hb h.2, ih]
      · have hne : ∀ c ∈ q.text, c ≠ ',' := fun c hc h => hq (piece_of_mem (.inl rfl) (h ▸ hc))
        rw [if_neg fun h => hq h.1, Json.Body.text_cons, closeUp_append hne, ih]

/-- The pieces that are left stand in their order. -/
theorem tidy_sublist (close : Char) (b : Json.Body) : (tidy close b).Sublist b := by
  induction b with
  | nil => exact .slnil
  | cons q b ih =>
      rw [tidy]
      split
      · exact ((List.dropWhile_sublist blank).trans ih).cons q
      · exact ih.cons_cons q

/-- Nothing but commas and spaces is left out. -/
theorem mem_tidy {q : Json.Piece} {b : Json.Body} (hq : q ∈ b) (hcomma : q.text ≠ [','])
    (hblank : blank q = false) : q ∈ tidy close b := by
  induction b with
  | nil => cases hq
  | cons q' b ih =>
      rw [tidy]
      split
      next hif =>
        have hmem : q ∈ tidy close b := by
          rcases List.mem_cons.mp hq with rfl | hq
          · exact absurd hif.1 hcomma
          · exact ih hq
        rw [← List.takeWhile_append_dropWhile (p := blank) (l := tidy close b)] at hmem
        rcases List.mem_append.mp hmem with h | h
        · rw [List.all_eq_true.mp List.all_takeWhile q h] at hblank
          cases hblank
        · exact h
      next =>
        rcases List.mem_cons.mp hq with rfl | hq
        · exact List.mem_cons_self ..
        · exact List.mem_cons_of_mem _ (ih hq)

theorem code_of_text {q : Json.Piece} {c : Char} (h : q.text = [c]) : q.code = c.toNat := by
  cases q with
  | plain d _ => cases h; rfl
  | short => cases h
  | hex => cases h

/-- A trailing comma is lost. -/
theorem count_tidy {b : Json.Body} (h : Trailing close b.text) :
    ((tidy close b).map Json.Piece.code).count ','.toNat <
      (b.map Json.Piece.code).count ','.toNat := by
  have hle : ∀ {b b' : Json.Body}, b.Sublist b' → (b.map Json.Piece.code).count ','.toNat ≤
      (b'.map Json.Piece.code).count ','.toNat := fun h => (h.map _).count_le _
  induction b with
  | nil => cases h
  | cons q b ih =>
      rw [tidy]
      split
      next hif =>
        have hcode := code_of_text hif.1
        rw [List.map_cons, hcode, List.count_cons_self]
        exact Nat.lt_succ_of_le (hle ((List.dropWhile_sublist blank).trans (tidy_sublist close b)))
      next hif =>
        have hb : Trailing close (Json.Body.text b) := by
          rw [Json.Body.text_cons] at h
          by_cases hq : q.text = [',']
          · rw [hq] at h
            exact h.resolve_left fun h => hif ⟨hq, h.2⟩
          · refine (trailing_append (fun c hc hcomma => hq ?_) _).mp h
            exact piece_of_mem (.inl rfl) (hcomma ▸ hc)
        simp only [List.map_cons, List.count_cons]
        exact Nat.add_lt_add_right (ih hb) _

/-! ## Objects -/

theorem isSpace_of_isWs {c : Char} (h : Json.isWs c = true) : isSpace c = true := by
  simp only [Json.isWs, Bool.or_eq_true, decide_eq_true_eq] at h
  rcases h with ((rfl | rfl) | rfl) | rfl <;> decide

theorem isSpace_of_opens {c : Char} (h : Json.Opens c) : isSpace c = false := by
  rcases h with h | h
  · exact isSpace_of_isAlphanum (by simp [Char.isAlphanum, h])
  · exact forall_mem_of_all (P := fun c => isSpace c = false) (by decide) c h

theorem closeUp_gap (g : Json.Gap) (r : List Char) :
    closeUp close 0 (g.text ++ r) = g.text ++ closeUp close 0 r :=
  closeUp_append (fun c hc => ne_comma_of_isSpace (isSpace_of_isWs (g.spaces c hc))) r

/-- A comma in front of a token that is no bracket stays. -/
theorem closeUp_comma {g : Json.Gap} {c : Char} (hc : isSpace c = false) (hne : c ≠ close)
    (r : List Char) :
    closeUp close 0 (',' :: (g.text ++ c :: r)) = ',' :: closeUp close 0 (g.text ++ c :: r) := by
  refine closeUp_cons fun h => ?_
  rw [List.dropWhile_append_of_pos fun c hc => isSpace_of_isWs (g.spaces c hc),
    List.dropWhile_cons_of_neg (by simp [hc])] at h
  exact hne (Option.some.inj h.2)

theorem Closing.ne_opens {c : Char} (hclose : Closing close) (h : Json.Opens c) : c ≠ close := by
  rcases hclose with rfl | rfl
  · exact h.ne.2.2
  · exact h.ne.2.1

theorem closeUp_comma_elems (hclose : Closing close) (es : Json.WrittenElems) (r : List Char) :
    closeUp close 0 (',' :: (es.text ++ r)) = ',' :: closeUp close 0 (es.text ++ r) := by
  cases es with
  | last g v g' =>
      obtain ⟨c, cs, hv, hc⟩ := v.head
      simp only [Json.WrittenElems.text, hv, List.append_assoc, List.cons_append]
      exact closeUp_comma (isSpace_of_opens hc) (hclose.ne_opens hc) _
  | more g v g' es =>
      obtain ⟨c, cs, hv, hc⟩ := v.head
      simp only [Json.WrittenElems.text, hv, List.append_assoc, List.cons_append]
      exact closeUp_comma (isSpace_of_opens hc) (hclose.ne_opens hc) _

theorem closeUp_comma_members (hclose : Closing close) (ms : Json.WrittenMembers)
    (r : List Char) :
    closeUp close 0 (',' :: (ms.text ++ r)) = ',' :: closeUp close 0 (ms.text ++ r) := by
  have hq : '"' ≠ close := by rcases hclose with rfl | rfl <;> decide
  cases ms with
  | last =>
      simp only [Json.WrittenMembers.text, List.append_assoc, List.cons_append]
      exact closeUp_comma (by decide) hq _
  | more =>
      simp only [Json.WrittenMembers.text, List.append_assoc, List.cons_append]
      exact closeUp_comma (by decide) hq _

mutual

/-- Between the tokens of a value nothing is left out, and its literals are tidied. -/
theorem closeUp_written (hclose : Closing close) (w : Json.Written) (r : List Char) :
    closeUp close 0 (w.text ++ r) = (w.map (tidy close)).text ++ closeUp close 0 r := by
  match w with
  | .null => exact closeUp_append (forall_mem_of_all (by decide)) r
  | .bool true => exact closeUp_append (forall_mem_of_all (by decide)) r
  | .bool false => exact closeUp_append (forall_mem_of_all (by decide)) r
  | .num d =>
      refine closeUp_append (fun c hc h => ?_) r
      have := d.isNumeral_of_mem hc
      rw [h] at this
      revert this
      decide
  | .str b =>
      simp only [Json.Written.text, Json.Written.map, List.cons_append, List.append_assoc,
        List.nil_append]
      rw [closeUp_cons (by simp), closeUp_quote hclose, text_tidy hclose]
  | .emptyArr g =>
      simp only [Json.Written.text, Json.Written.map, List.cons_append, List.append_assoc,
        List.nil_append]
      rw [closeUp_cons (by simp), closeUp_gap, closeUp_cons (by simp)]
  | .arr es =>
      simp only [Json.Written.text, Json.Written.map, List.cons_append]
      rw [closeUp_cons (by simp), closeUp_elems hclose es r]
  | .emptyObj g =>
      simp only [Json.Written.text, Json.Written.map, List.cons_append, List.append_assoc,
        List.nil_append]
      rw [closeUp_cons (by simp), closeUp_gap, closeUp_cons (by simp)]
  | .obj ms =>
      simp only [Json.Written.text, Json.Written.map, List.cons_append]
      rw [closeUp_cons (by simp), closeUp_members hclose ms r]

theorem closeUp_elems (hclose : Closing close) (es : Json.WrittenElems) (r : List Char) :
    closeUp close 0 (es.text ++ r) = (es.map (tidy close)).text ++ closeUp close 0 r := by
  match es with
  | .last g v g' =>
      simp only [Json.WrittenElems.text, Json.WrittenElems.map, List.append_assoc,
        List.cons_append, List.nil_append]
      rw [closeUp_gap, closeUp_written hclose v, closeUp_gap, closeUp_cons (by simp)]
  | .more g v g' es =>
      simp only [Json.WrittenElems.text, Json.WrittenElems.map, List.append_assoc,
        List.cons_append]
      rw [closeUp_gap, closeUp_written hclose v, closeUp_gap, closeUp_comma_elems hclose,
        closeUp_elems hclose es r]

theorem closeUp_members (hclose : Closing close) (ms : Json.WrittenMembers) (r : List Char) :
    closeUp close 0 (ms.text ++ r) = (ms.map (tidy close)).text ++ closeUp close 0 r := by
  match ms with
  | .last g₁ k g₂ g₃ v g₄ =>
      simp only [Json.WrittenMembers.text, Json.WrittenMembers.map, List.append_assoc,
        List.cons_append, List.nil_append]
      rw [closeUp_gap, closeUp_cons (by simp), closeUp_quote hclose, text_tidy hclose,
        closeUp_gap, closeUp_cons (by simp), closeUp_gap, closeUp_written hclose v, closeUp_gap,
        closeUp_cons (by simp)]
  | .more g₁ k g₂ g₃ v g₄ ms =>
      simp only [Json.WrittenMembers.text, Json.WrittenMembers.map, List.append_assoc,
        List.cons_append]
      rw [closeUp_gap, closeUp_cons (by simp), closeUp_quote hclose, text_tidy hclose,
        closeUp_gap, closeUp_cons (by simp), closeUp_gap, closeUp_written hclose v, closeUp_gap,
        closeUp_comma_members hclose, closeUp_members hclose ms r]

end

theorem closeUp_text (hclose : Closing close) (w : Json.Written) :
    closeUp close 0 w.text = (w.map (tidy close)).text := by
  have h := closeUp_written hclose w []
  rwa [List.append_nil, closeUp, List.append_nil] at h

end

/-- The literal that both replacements leave of one. -/
def tidied (b : Json.Body) : Json.Body := tidy ']' (tidy '}' b)

/-- A comma of the literal is lost. -/
def LosesComma (b : Json.Body) : Prop := Trailing '}' b.text ∨ Trailing ']' b.text

instance (b : Json.Body) : Decidable (LosesComma b) := inferInstanceAs (Decidable (_ ∨ _))

theorem closeUp_both (w : Json.Written) :
    closeUp ']' 0 (closeUp '}' 0 w.text) = (w.map tidied).text := by
  rw [closeUp_text (.inl rfl), closeUp_text (.inr rfl), Json.Written.map_map]
  rfl

theorem string_of_text {b b' : Json.Body} (h : b.text = b'.text) : b.string = b'.string := by
  have hb := b.literal_append []
  rw [h, b'.literal_append []] at hb
  exact (congrArg Prod.fst (Option.some.inj hb)).symm

/-- The string of a literal stays as it is if and only if no comma is lost. -/
theorem string_tidied_iff (b : Json.Body) : (tidied b).string = b.string ↔ ¬ LosesComma b := by
  constructor
  · intro heq hloses
    have hcount := congrArg (fun s : String => s.toList.count ',') heq
    simp only [Json.Body.count_string (show 32 ≤ ','.toNat ∧ ','.toNat < 127 by decide)] at hcount
    have hle : ∀ close (b : Json.Body), ((tidy close b).map Json.Piece.code).count ','.toNat ≤
        (b.map Json.Piece.code).count ','.toNat := fun close b =>
      ((tidy_sublist close b).map _).count_le _
    have h₁ := hle '}' b
    have h₂ := hle ']' (tidy '}' b)
    rw [tidied] at hcount
    rcases hloses with h | h
    · have := count_tidy h
      omega
    · by_cases h' : Trailing '}' b.text
      · have := count_tidy h'
        omega
      · have htext := text_tidy (.inl rfl) b
        rw [closeUp_eq_self h'] at htext
        rw [← htext] at h
        have := count_tidy h
        omega
  · intro h
    obtain ⟨h₁, h₂⟩ := not_or.mp h
    have htext := text_tidy (.inl rfl) b
    rw [closeUp_eq_self h₁] at htext
    refine string_of_text ?_
    rw [tidied, text_tidy (.inr rfl), htext, closeUp_eq_self h₂]

theorem mem_of_trailing {close : Char} {cs : List Char} (h : Trailing close cs) : close ∈ cs := by
  induction cs with
  | nil => cases h
  | cons c cs ih =>
      rcases h with ⟨-, h⟩ | h
      · exact List.mem_cons_of_mem _ ((List.dropWhile_sublist _).mem (List.mem_of_head? h))
      · exact List.mem_cons_of_mem _ (ih h)

theorem mem_string {q : Json.Piece} {b : Json.Body} {c : Char} (hq : q ∈ b) (hc : q.text = [c])
    (hascii : 32 ≤ c.toNat ∧ c.toNat < 127) : c ∈ b.string.toList := by
  rw [← List.count_pos_iff, Json.Body.count_string hascii, List.count_pos_iff, ← code_of_text hc]
  exact List.mem_map_of_mem hq

/-- A literal that loses a comma keeps its bracket, so neither it nor what is left of it is a
word without brackets. -/
theorem string_tidied_eq_iff {k : String} (hk : ∀ c ∈ k.toList, ¬ Closing c) (b : Json.Body) :
    (tidied b).string = k ↔ b.string = k := by
  by_cases hloses : LosesComma b
  · obtain ⟨c, hc, hmem⟩ : ∃ c, Closing c ∧ c ∈ b.text := by
      rcases hloses with h | h
      · exact ⟨_, .inl rfl, mem_of_trailing h⟩
      · exact ⟨_, .inr rfl, mem_of_trailing h⟩
    obtain ⟨q, hq, hcq⟩ := List.mem_flatMap.mp hmem
    have htext := piece_of_mem (.inr hc) hcq
    have hascii : 32 ≤ c.toNat ∧ c.toNat < 127 := by rcases hc with rfl | rfl <;> decide
    have hcomma : q.text ≠ [','] := by
      rw [htext]
      exact fun h => hc.ne_comma (List.head_eq_of_cons_eq h)
    have hblank : blank q = false := by simp [blank, htext, hc.isSpace]
    have hkept : q ∈ tidied b := mem_tidy (mem_tidy hq hcomma hblank) hcomma hblank
    refine iff_of_false ?_ ?_
    · rintro rfl
      exact hk c (mem_string hkept htext hascii) hc
    · rintro rfl
      exact hk c (mem_string hq htext hascii) hc
  · rw [(string_tidied_iff b).mpr hloses]

/-! ## The answer -/

theorem idxOf?_append_cons {c : Char} {a : List Char} (h : c ∉ a) (b : List Char) :
    (a ++ c :: b).idxOf? c = some a.length := by
  induction a with
  | nil => simp [List.idxOf?, List.findIdx?_cons]
  | cons d a ih =>
      obtain ⟨hd, ha⟩ := not_or.mp (mt List.mem_cons.mpr h)
      have hrest := ih ha
      simp only [List.idxOf?, List.cons_append, List.findIdx?_cons] at hrest ⊢
      rw [hrest]
      simp [Ne.symm hd]

/-- What is taken out of a text is what stands between its first brace and its last. -/
theorem jsonText_between {a b : List Char} (ha : '{' ∉ a) (hb : '}' ∉ b) (mid : List Char) :
    jsonText (String.ofList (a ++ '{' :: (mid ++ '}' :: b))) =
      some (String.ofList (closeUp ']' 0 (closeUp '}' 0 ('{' :: (mid ++ ['}']))))) := by
  have hrev : (a ++ '{' :: (mid ++ '}' :: b)).reverse =
      b.reverse ++ '}' :: (mid.reverse ++ '{' :: a.reverse) := by simp
  have hslice : ((a ++ '{' :: (mid ++ '}' :: b)).take
      ((a ++ '{' :: (mid ++ '}' :: b)).length - b.length)).drop a.length =
        '{' :: (mid ++ ['}']) := by
    have hsplit : a ++ '{' :: (mid ++ '}' :: b) = (a ++ '{' :: (mid ++ ['}'])) ++ b := by simp
    rw [hsplit, List.length_append, Nat.add_sub_cancel, List.take_left, List.drop_left]
  simp only [jsonText, String.toList_ofList]
  rw [idxOf?_append_cons ha, hrev, idxOf?_append_cons (by simpa using hb)]
  simp only [List.length_reverse, hslice]

/-- The texts without braces and the object that an answer is made of. -/
structure AiAnswer where
  before : List Char
  object : Json.Written
  after : List Char
  isObject : ∃ kvs, object.value = .obj kvs
  before_plain : '{' ∉ before ∧ '}' ∉ before
  after_plain : '{' ∉ after ∧ '}' ∉ after

namespace AiAnswer

variable (a : AiAnswer)

def text : String := String.ofList (a.before ++ (a.object.text ++ a.after))

theorem jsonText_trim :
    jsonText (trim a.text) = some (String.ofList (a.object.map tidied).text) := by
  obtain ⟨kvs, hobj⟩ := a.isObject
  obtain ⟨mid, hmid⟩ := Json.Written.text_obj hobj
  obtain ⟨pre, post, hpre, hpost, htrim⟩ := trim_between (show isSpace '{' = false by decide)
    (show isSpace '}' = false by decide) a.before mid a.after
  have htext : a.text = String.ofList (a.before ++ '{' :: (mid ++ '}' :: a.after)) := by
    simp [text, hmid]
  rw [htext, htrim, jsonText_between (fun h => a.before_plain.1 (hpre _ h))
    (fun h => a.after_plain.2 (hpost _ h)), ← hmid, closeUp_both]

end AiAnswer

/-- The language model says a text. -/
def Says {τ : Type} (strat : (c : Cmd) → τ → c.Ans × τ) (t : τ) (text : String) : Prop :=
  ∀ r, ∃ res reply, (strat (.fetch r) t).1 = .ok res ∧ res.ok = true ∧
    Json.parse res.body = some reply ∧ reply.field "response" = some (.str text)

section

variable {τ : Type} {p : Pid} {strat : (c : Cmd) → τ → c.Ans × τ} {env : Env}

theorem askOllama_run {st : St} {t : τ} {text : String} (h : Says strat t text)
    (prompt : String) :
    ∃ t', (askOllama env prompt).run (alone p strat) (st, t) = (.ok (trim text), (st, t')) := by
  have hfetch : ∀ r, (attempt (ask (.fetch r))).run (alone p strat) (st, t) =
      ((strat (.fetch r) t).1, (st, (strat (.fetch r) t).2)) := fun r =>
    run_attempt (run_ask _ _ _)
  rw [askOllama]
  generalize Request.mk _ _ _ = r
  obtain ⟨res, reply, hres, hok, hreply, hsaid⟩ := h r
  have hparse : parseJson (some res.body) = .ok reply := by simp [parseJson, hreply]
  have hfield : destructure reply "response" = .ret (some (.str text)) := by
    cases reply with
    | null => cases hsaid
    | _ => simp only [destructure, hsaid]
  refine ⟨(strat (.fetch r) t).2, ?_⟩
  rw [Prog.bind_eq, Prog.run_bind_ok ((hfetch r).trans (Prod.ext hres rfl)), expectOk, if_pos hok]
  simp only [Prog.bind_eq, Prog.bind, jsonParse, hparse, Prog.ofExcept, hfield, trimmed, Prog.run]

theorem filter_definedProps_eq_nil {k : String} {props : List (String × Option Json)}
    (h : k ∉ props.map Prod.fst) : ((definedProps props).filter fun kv => kv.1 = k) = [] := by
  simp only [definedProps, List.filter_eq_nil_iff, List.mem_filterMap, Option.map_eq_some_iff]
  rintro kv ⟨x, hx, v, -, rfl⟩ hk
  exact h (List.mem_map.mpr ⟨x, hx, of_decide_eq_true hk⟩)

/-- The properties of an object literal are those it was given. -/
theorem field_definedProps {k : String} {props : List (String × Option Json)}
    (hnodup : (props.map Prod.fst).Nodup) :
    (Json.obj (definedProps props)).field k = (props.lookup k).join := by
  induction props with
  | nil => rfl
  | cons kv props ih =>
      obtain ⟨k', v⟩ := kv
      obtain ⟨hk', hrest⟩ := List.nodup_cons.mp hnodup
      have ih := ih hrest
      simp only [Json.field, definedProps] at ih ⊢
      by_cases hk : k = k'
      · have hnil := filter_definedProps_eq_nil (hk ▸ hk')
        rw [definedProps] at hnil
        subst hk
        cases v with
        | none => simp [hnil]
        | some x => simp [hnil]
      · have hk'' : k' ≠ k := Ne.symm hk
        cases v with
        | none => simpa [beq_false_of_ne hk, List.lookup_cons] using ih
        | some x => simpa [hk'', beq_false_of_ne hk, List.lookup_cons] using ih

/-- The keys that the language model is asked for. -/
def askedKeys : List String := ["decimals", "supply", "tokenName"]

theorem generateLaunchConfig_run {st : St} {t : τ} {text js : String}
    {kvs : List (String × Json)} (h : Says strat t text) (hjs : jsonText (trim text) = some js)
    (hparse : Json.parse js = some (.obj kvs)) :
    ∃ cfg s', (generateLaunchConfig env).run (alone p strat) (st, t) = (.ok cfg, s') ∧
      ∀ key ∈ askedKeys, cfg.field key = (Json.obj kvs).field key := by
  rw [generateLaunchConfig]
  generalize hq : askOllama env _ = q
  obtain ⟨t', hask⟩ : ∃ t', q.run (alone p strat) (st, t) = (.ok (trim text), (st, t')) :=
    hq ▸ askOllama_run h _
  rw [Prog.bind_eq, Prog.run_bind_ok hask]
  simp only [hjs, parseJson, Str.text_some, hparse]
  refine ⟨_, _, rfl, ?_⟩
  simp only [askedKeys, List.forall_mem_cons]
  refine ⟨?_, ?_, ?_, fun _ hkey => absurd hkey List.not_mem_nil⟩
  · exact field_definedProps (by simp)
  · exact field_definedProps (by simp)
  · exact field_definedProps (by simp)

end

/-- The launch parameters are what `JSON.parse` gives for the object of the answer.  Two objects
are the same if they have the same members in the same order. -/
def Exact (a : AiAnswer) (cfg : Json) : Prop :=
  ∃ obj, Json.parse (String.ofList a.object.text) = some obj ∧
    ∀ key ∈ askedKeys, cfg.field key = obj.field key

namespace Sample

/-- A literal without escapes. -/
def plain (s : String) : Json.Body :=
  s.toList.filterMap fun c =>
    if h : c ≠ '"' ∧ c ≠ '\\' ∧ 32 ≤ c.toNat then some (.plain c h) else none

def noGap : Json.Gap := ⟨[], nofun⟩

/-- An answer with an object of two members, both strings. -/
def twoStrings (k v k' v' : String) : AiAnswer where
  before := "Here: ".toList
  object := .obj (.more noGap (plain k) noGap noGap (.str (plain v)) noGap
    (.last noGap (plain k') noGap noGap (.str (plain v')) noGap))
  after := " Enjoy!".toList
  isObject := ⟨_, rfl⟩
  before_plain := by decide
  after_plain := by decide

/-- A language model that says a text. -/
def speaking (text : String) : (c : Cmd) → Unit → c.Ans × Unit
  | .fetch _, t => (.ok ⟨true, "OK", Json.stringify (.obj [("response", .str text)])⟩, t)
  | c, t => (offline c, t)

theorem speaking_told (text : String) : Says (speaking text) () text := fun _ =>
  ⟨_, _, rfl, rfl, Json.parse_stringify ⟨trivial, trivial⟩, rfl⟩

end Sample

end Nexus
