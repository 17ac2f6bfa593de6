import NexusErebus.Text.Json

/-!
# Numbers as they are written

The reader of numbers takes as much of a text as it can.  `Parts` cuts a text where the reader
does: into the digits, the point with the digits behind it, and a rest that may start with an
exponent.  `number_split` says that what is read once is read again in front of any other text
that cannot go on with it.  `Numeral` is a text that is a number as a whole.
-/

namespace Number

/-- A character that a number may be written with. -/
def isNumeral (c : Char) : Bool :=
  c.isDigit || c = '-' || c = '+' || c = '.' || c = 'e' || c = 'E'

theorem isNumeral_of_isDigit {c : Char} (hc : c.isDigit = true) : isNumeral c = true := by
  simp [isNumeral, hc]

theorem isNumeral_of_mem_takeWhile {c : Char} {cs : List Char}
    (hc : c ∈ cs.takeWhile Char.isDigit) : isNumeral c = true :=
  isNumeral_of_isDigit (List.all_eq_true.mp List.all_takeWhile c hc)

theorem takeWhile_append_stops {r : List Char} (hr : Stops r) (cs : List Char) :
    (cs ++ r).takeWhile Char.isDigit = cs.takeWhile Char.isDigit := by
  induction cs with
  | nil => simpa using @takeWhile_digits [] r nofun hr
  | cons c cs ih => simp only [List.cons_append, List.takeWhile_cons, ih]

theorem dropWhile_append_stops {r : List Char} (hr : Stops r) (cs : List Char) :
    (cs ++ r).dropWhile Char.isDigit = cs.dropWhile Char.isDigit ++ r := by
  induction cs with
  | nil => simpa using @dropWhile_digits [] r nofun hr
  | cons c cs ih =>
      simp only [List.cons_append, List.dropWhile_cons, ih]
      split
      next => rfl
      next => rfl

/-- A sign may stand in front of the digits of an exponent. -/
def Signs (sg body : List Char) : Prop :=
  sg = ['-'] ∨ sg = ['+'] ∨ sg = [] ∧ body.head? ≠ some '-' ∧ body.head? ≠ some '+'

theorem exists_signs (cs : List Char) : ∃ sg body, cs = sg ++ body ∧ Signs sg body := by
  by_cases hm : cs.head? = some '-'
  · exact ⟨['-'], cs.tail, (List.cons_head?_tail hm).symm, .inl rfl⟩
  by_cases hp : cs.head? = some '+'
  · exact ⟨['+'], cs.tail, (List.cons_head?_tail hp).symm, .inr (.inl rfl)⟩
  · exact ⟨[], cs, rfl, .inr (.inr ⟨rfl, hm, hp⟩)⟩

theorem exponent_signs {c : Char} {sg body : List Char} (hc : c = 'e' ∨ c = 'E')
    (hs : Signs sg body) : exponent (c :: (sg ++ body)) =
      if body.takeWhile Char.isDigit = [] then (0, c :: (sg ++ body))
      else ((if sg = ['-'] then (-1 : ℤ) else 1) * natOf (body.takeWhile Char.isDigit),
        body.dropWhile Char.isDigit) := by
  rcases hs with rfl | rfl | ⟨rfl, hm, hp⟩
  · simp [exponent, hc]
  · simp [exponent, hc]
  · simp [exponent, hc, hm, hp]

theorem head?_takeWhile_append {p : Char → Bool} {cs : List Char} (h : cs.takeWhile p ≠ [])
    (r : List Char) : (cs.takeWhile p ++ r).head? = cs.head? := by
  have hcs : (cs.takeWhile p ++ cs.dropWhile p).head? = cs.head? := by
    rw [List.takeWhile_append_dropWhile]
  rw [List.head?_append_of_ne_nil _ h] at hcs ⊢
  exact hcs

/-- What is read of an exponent is read again in front of any text that stops it. -/
theorem exponent_split (cs : List Char) : ∃ t, cs = t ++ (exponent cs).2 ∧
    (∀ c ∈ t, isNumeral c = true) ∧
    ∀ r, Stops r → exponent (t ++ r) = ((exponent cs).1, r) := by
  have hnone : exponent cs = (0, cs) → ∃ t, cs = t ++ (exponent cs).2 ∧
      (∀ c ∈ t, isNumeral c = true) ∧
      ∀ r, Stops r → exponent (t ++ r) = ((exponent cs).1, r) := fun h =>
    ⟨[], by rw [h]; rfl, nofun, fun r hr => by rw [h]; exact exponent_of_stops hr⟩
  cases cs with
  | nil => exact hnone rfl
  | cons c cs =>
      by_cases hc : c = 'e' ∨ c = 'E'
      · obtain ⟨sg, body, rfl, hs⟩ := exists_signs cs
        have hread := exponent_signs hc hs
        by_cases hds : body.takeWhile Char.isDigit = []
        · exact hnone (by rw [hread, if_pos hds])
        rw [if_neg hds] at hread
        rw [hread]
        refine ⟨c :: (sg ++ body.takeWhile Char.isDigit), ?_, ?_, fun r hr => ?_⟩
        · simp only [List.cons_append, List.append_assoc, List.takeWhile_append_dropWhile]
        · have hsg : ∀ d ∈ sg, isNumeral d = true := by
            rcases hs with rfl | rfl | ⟨rfl, -, -⟩ <;> exact Text.forall_mem_of_all (by decide)
          simp only [List.forall_mem_cons, List.forall_mem_append]
          refine ⟨?_, hsg, fun d hd => isNumeral_of_mem_takeWhile hd⟩
          rcases hc with rfl | rfl <;> decide
        · have hs' : Signs sg (body.takeWhile Char.isDigit ++ r) := by
            simpa only [Signs, head?_takeWhile_append hds] using hs
          have hall : ∀ d ∈ body.takeWhile Char.isDigit, d.isDigit = true :=
            List.all_eq_true.mp List.all_takeWhile
          rw [List.cons_append, List.append_assoc, exponent_signs hc hs', takeWhile_digits hall hr,
            dropWhile_digits hall hr, if_neg hds]
      · exact hnone (by simp [exponent, hc])

/-- A text without a sign, cut into its digits, its point with the digits behind it, and the
rest. -/
structure Parts (cs ds pt e : List Char) : Prop where
  eq : cs = ds ++ (pt ++ e)
  digits : ∀ c ∈ ds, c.isDigit = true
  point : pt = [] ∧ e.head? ≠ some '.' ∨ ∃ fs, pt = '.' :: fs ∧ ∀ c ∈ fs, c.isDigit = true
  rest : ∀ c ∈ e.head?, c.isDigit = false

theorem head?_dropWhile {p : Char → Bool} {cs : List Char} {c : Char}
    (h : c ∈ (cs.dropWhile p).head?) : p c = false := by
  have := List.head?_dropWhile_not p cs
  rw [Option.mem_def.mp h] at this
  simpa using this

theorem exists_parts (cs : List Char) : ∃ ds pt e, Parts cs ds pt e := by
  have hds : ∀ cs : List Char, ∀ c ∈ cs.takeWhile Char.isDigit, c.isDigit = true := fun cs =>
    List.all_eq_true.mp List.all_takeWhile
  have heq := (List.takeWhile_append_dropWhile (p := Char.isDigit) (l := cs)).symm
  by_cases hpt : (cs.dropWhile Char.isDigit).head? = some '.'
  · generalize hr : (cs.dropWhile Char.isDigit).tail = r
    have hdrop := (List.cons_head?_tail hpt).symm
    rw [hr] at hdrop
    refine ⟨_, '.' :: r.takeWhile Char.isDigit, r.dropWhile Char.isDigit, ?_, hds cs,
      .inr ⟨_, rfl, hds r⟩, fun c => head?_dropWhile⟩
    rw [List.cons_append, List.takeWhile_append_dropWhile, ← hdrop]
    exact heq
  · exact ⟨_, [], _, heq, hds cs, .inl ⟨rfl, hpt⟩, fun c => head?_dropWhile⟩

theorem span_digits {ds r : List Char} (hds : ∀ c ∈ ds, c.isDigit = true)
    (hr : ∀ c ∈ r.head?, c.isDigit = false) :
    (ds ++ r).takeWhile Char.isDigit = ds ∧ (ds ++ r).dropWhile Char.isDigit = r := by
  rw [List.takeWhile_append_of_pos hds, List.dropWhile_append_of_pos hds]
  cases r with
  | nil => simp
  | cons c r => simp [hr c rfl]

namespace Parts

variable {cs ds pt e : List Char}

theorem span (h : Parts cs ds pt e) :
    cs.takeWhile Char.isDigit = ds ∧ cs.dropWhile Char.isDigit = pt ++ e := by
  rw [h.eq]
  refine span_digits h.digits ?_
  rcases h.point with ⟨rfl, -⟩ | ⟨fs, rfl, -⟩
  · exact h.rest
  · rintro c ⟨⟩
    decide

theorem literal_eq (h : Parts cs ds pt e) : literal cs =
    if ds = [] ∧ pt.tail = [] then none
    else some ((natOf (ds ++ pt.tail) : ℚ) / 10 ^ pt.tail.length * pow10 (exponent e).1,
      (exponent e).2) := by
  simp only [literal, h.span]
  rcases h.point with ⟨rfl, hne⟩ | ⟨fs, rfl, hfs⟩
  · simp [hne]
  · by_cases hn : ds = [] ∧ fs = []
    · rw [if_pos (show ds = [] ∧ ('.' :: fs).tail = [] from hn)]
      simp only [List.cons_append, List.head?_cons, List.tail_cons, span_digits hfs h.rest, if_true]
      rw [if_pos hn]
    · rw [if_neg (show ¬ (ds = [] ∧ ('.' :: fs).tail = []) from hn)]
      simp [span_digits hfs h.rest, hn]

/-- What is read of a rest, if it is an exponent, is read again in front of any text that stops
it. -/
theorem replace (h : Parts cs ds pt e) : ∃ t, e = t ++ (exponent e).2 ∧
    (∀ c ∈ t, isNumeral c = true) ∧ ∀ r, Stops r → Parts (ds ++ (pt ++ (t ++ r))) ds pt (t ++ r) ∧
      exponent (t ++ r) = ((exponent e).1, r) := by
  obtain ⟨t, ht, hall, hread⟩ := exponent_split e
  refine ⟨t, ht, hall, fun r hr => ⟨?_, hread r hr⟩⟩
  cases t with
  | nil =>
      exact ⟨rfl, h.digits, h.point.imp (fun h => ⟨h.1, head?_ne_dot hr⟩) id,
        fun c hc => (hr c hc).1⟩
  | cons c t =>
      have hhead : (c :: t ++ r).head? = e.head? := by rw [ht]; rfl
      exact ⟨rfl, h.digits, hhead ▸ h.point, hhead ▸ h.rest⟩

theorem isNumeral (h : Parts cs ds pt e) : ∀ c ∈ ds ++ pt, isNumeral c = true := by
  have hds : ∀ c ∈ ds, Number.isNumeral c = true := fun c hc => isNumeral_of_isDigit (h.digits c hc)
  refine List.forall_mem_append.mpr ⟨hds, ?_⟩
  rcases h.point with ⟨rfl, -⟩ | ⟨fs, rfl, hfs⟩
  · nofun
  · exact List.forall_mem_cons.mpr ⟨by decide, fun c hc => isNumeral_of_isDigit (hfs c hc)⟩

/-- What is read of a literal is read again in front of any text that stops it, and is cut into
the same parts. -/
theorem literal_split (h : Parts cs ds pt e) {q : ℚ} {r : List Char}
    (hread : literal cs = some (q, r)) : ∃ t, cs = t ++ r ∧
      (∀ c ∈ t, Number.isNumeral c = true) ∧
      ∀ r', Stops r' → literal (t ++ r') = some (q, r') ∧ ∃ e', Parts (t ++ r') ds pt e' := by
  obtain ⟨t, ht, hall, hparts⟩ := h.replace
  rw [h.literal_eq] at hread
  split_ifs at hread with hne
  cases hread
  refine ⟨ds ++ (pt ++ t), ?_, ?_, fun r' hr' => ?_⟩
  · rw [h.eq, List.append_assoc, List.append_assoc, ← ht]
  · rw [← List.append_assoc]
    exact List.forall_mem_append.mpr ⟨h.isNumeral, hall⟩
  · obtain ⟨hp, he⟩ := hparts r' hr'
    rw [List.append_assoc, List.append_assoc]
    refine ⟨?_, _, hp⟩
    rw [hp.literal_eq, if_neg hne, he]

end Parts

end Number

namespace Json

open Number (Parts Stops isNumeral)

/-- The digits in front of a point or behind it are none that JSON allows. -/
def BadParts (ds pt : List Char) : Prop :=
  (ds = [] ∨ (ds.head? = some '0' ∧ ds ≠ ['0'])) ∨ pt = ['.']

instance (ds pt : List Char) : Decidable (BadParts ds pt) := inferInstanceAs (Decidable (_ ∨ _))

theorem number_parts {cs ds pt e : List Char} (h : Parts cs ds pt e) :
    number ('-' :: cs) = (if BadParts ds pt then none else (Number.literal cs).map
      fun x => (-x.1, x.2)) ∧
    (cs.head? ≠ some '-' → number cs = if BadParts ds pt then none else Number.literal cs) := by
  have hpt : ((pt ++ e).head? = some '.' ∧ (pt ++ e).tail.takeWhile Char.isDigit = []) ↔
      pt = ['.'] := by
    rcases h.point with ⟨rfl, hne⟩ | ⟨fs, rfl, hfs⟩
    · simp [hne]
    · simp [Number.span_digits hfs h.rest]
  constructor
  · simp only [number, h.span, List.head?_cons, List.tail_cons, if_true, hpt, BadParts]
    split_ifs <;> simp_all
  · intro hm
    simp only [number, h.span, if_neg hm, hpt, BadParts]
    split_ifs <;> simp_all

/-- What is read of a number is read again in front of any text that stops it. -/
theorem number_split {cs r : List Char} {q : ℚ} (h : number cs = some (q, r)) :
    ∃ t, cs = t ++ r ∧ (∀ c ∈ t, isNumeral c = true) ∧
      ∀ r', Stops r' → number (t ++ r') = some (q, r') := by
  by_cases hm : cs.head? = some '-'
  · obtain ⟨body, rfl⟩ : ∃ body, cs = '-' :: body := ⟨_, (List.cons_head?_tail hm).symm⟩
    obtain ⟨ds, pt, e, hparts⟩ := Number.exists_parts body
    rw [(number_parts hparts).1] at h
    split_ifs at h with hbad
    obtain ⟨x, hx, hq⟩ := Option.map_eq_some_iff.mp h
    cases hq
    obtain ⟨t, ht, hall, hread⟩ := hparts.literal_split hx
    refine ⟨'-' :: t, congrArg _ ht, List.forall_mem_cons.mpr ⟨by decide, hall⟩, fun r' hr' => ?_⟩
    obtain ⟨hl, e', hp⟩ := hread r' hr'
    rw [List.cons_append, (number_parts hp).1, if_neg hbad, hl]
    rfl
  · obtain ⟨ds, pt, e, hparts⟩ := Number.exists_parts cs
    rw [(number_parts hparts).2 hm] at h
    split_ifs at h with hbad
    obtain ⟨t, ht, hall, hread⟩ := hparts.literal_split h
    refine ⟨t, ht, hall, fun r' hr' => ?_⟩
    obtain ⟨hl, e', hp⟩ := hread r' hr'
    -- the digits at the front are the same, and there is at least one
    have hm' : (t ++ r').head? ≠ some '-' := by
      obtain ⟨hds, -⟩ := hp.span
      intro hd
      rw [← List.cons_head?_tail hd] at hds
      exact hbad (.inl (.inl hds.symm))
    rw [(number_parts hp).2 hm', if_neg hbad, hl]

/-- A number, as it is written. -/
structure Numeral where
  text : List Char
  val : ℚ
  reads : number text = some (val, [])

namespace Numeral

variable (d : Numeral)

theorem number_append {r : List Char} (hr : Stops r) : number (d.text ++ r) = some (d.val, r) := by
  obtain ⟨t, ht, -, hread⟩ := number_split d.reads
  rw [List.append_nil] at ht
  rw [ht]
  exact hread r hr

theorem isNumeral_of_mem {c : Char} (hc : c ∈ d.text) : isNumeral c = true := by
  obtain ⟨t, ht, hall, -⟩ := number_split d.reads
  rw [List.append_nil] at ht
  exact hall c (ht ▸ hc)

/-- A number starts with a digit or a sign. -/
theorem head : ∃ c cs, d.text = c :: cs ∧ (c.isDigit = true ∨ c = '-') := by
  have h := d.reads
  by_cases hm : d.text.head? = some '-'
  · exact ⟨_, _, (List.cons_head?_tail hm).symm, .inr rfl⟩
  cases ht : d.text with
  | nil => rw [ht] at h; cases h
  | cons c cs =>
      refine ⟨c, cs, rfl, .inl ?_⟩
      by_contra hc
      obtain ⟨ds, pt, e, hparts⟩ := Number.exists_parts d.text
      have hds : ds = [] := by rw [← hparts.span.1, ht]; simp [hc]
      rw [(number_parts hparts).2 hm, if_pos (.inl (.inl hds))] at h
      cases h

end Numeral

end Json
