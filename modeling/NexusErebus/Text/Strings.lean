import Mathlib.Data.List.Basic
import Mathlib.Data.Nat.Basic

/-!
# Strings of a scripting language

The string operations a JavaScript program uses, on the characters of a `String`.
A value that may be `undefined` where a string is expected is an `Option String`,
and `text` is what a template literal makes of it.

`split_append` and `split_of_notMem` are the two facts about splitting that the
programs rely on: a part that does not contain the first character of the
separator is cut off whole, and a text that does not contain it is one part.
-/

namespace Text

/-- A string, or `undefined`. -/
abbrev Str := Option String

instance lawfulBEqStr : LawfulBEq Str := inferInstance

/-- What `${x}` makes of a string or `undefined`. -/
def Str.text : Str → String
  | none => "undefined"
  | some s => s

@[simp] theorem Str.text_some (s : String) : Str.text (some s) = s := rfl

/-- `s.startsWith(p)`. -/
def startsWith (s p : String) : Bool := p.toList.isPrefixOf s.toList

/-- `s.slice(n)`. -/
def slice (s : String) (n : Nat) : String := String.ofList (s.toList.drop n)

/-- A check of the characters of a text, one after the other. -/
theorem forall_mem_of_all {P : Char → Prop} [DecidablePred P] {cs : List Char}
    (h : (cs.all fun c => decide (P c)) = true) : ∀ c ∈ cs, P c := fun c hc =>
  of_decide_eq_true (List.all_eq_true.mp h c hc)

theorem startsWith_append (start s : String) : startsWith (start ++ s) start = true := by
  simp [startsWith]

theorem head?_of_startsWith {s start : String} {c : Char} (h : startsWith s start = true)
    (hc : start.toList.head? = some c) : s.toList.head? = some c := by
  obtain ⟨r, hr⟩ := List.isPrefixOf_iff_prefix.mp h
  rw [← hr, List.head?_append, hc]
  rfl

/-- What comes after a text at the front. -/
def after (start s : String) : Option String :=
  if startsWith s start then some (slice s start.toList.length) else none

theorem after_append (start s : String) : after start (start ++ s) = some s := by
  simp [after, startsWith, slice]

theorem eq_append_of_after {start s t : String} (h : after start s = some t) : s = start ++ t := by
  obtain ⟨hs, ht⟩ := Option.ite_none_right_eq_some.mp h
  obtain ⟨rest, hrest⟩ := List.isPrefixOf_iff_prefix.mp hs
  cases ht
  rw [slice, ← hrest, List.drop_left, ← String.toList_inj, String.toList_append,
    String.toList_ofList, hrest]

/-- Texts with another first character do not start that way. -/
theorem after_of_head_ne (start : String) {s : String} {a b : Char} (ha : start.toList.head? = some a)
    (hb : s.toList.head? = some b) (hne : a ≠ b) : after start s = none := by
  cases hs : start.toList with
  | nil => simp [hs] at ha
  | cons a' as =>
      cases ht : s.toList with
      | nil => simp [ht] at hb
      | cons b' bs =>
          simp only [hs, ht, List.head?_cons, Option.some.injEq] at ha hb
          simp [after, startsWith, hs, ht, ha, hb, hne]

/-- `s.toLowerCase()`, on the letters of ASCII. -/
def toLowerCase (s : String) : String := String.ofList (s.toList.map Char.toLower)

theorem toNat_toLower (c : Char) :
    c.toLower.toNat = if 65 ≤ c.toNat ∧ c.toNat ≤ 90 then c.toNat + 32 else c.toNat := by
  unfold Char.toLower
  split
  next h =>
    have hA : 65 ≤ c.val.toNat := UInt32.le_iff_toNat_le.mp h.1
    have hZ : c.val.toNat ≤ 90 := UInt32.le_iff_toNat_le.mp h.2
    rw [if_pos ⟨hA, hZ⟩]
    exact (UInt32.toNat_add _ _).trans (Nat.mod_eq_of_lt (show c.val.toNat + 32 < 2 ^ 32 by omega))
  next h =>
    rw [if_neg]
    intro h'
    exact h ⟨UInt32.le_iff_toNat_le.mpr h'.1, UInt32.le_iff_toNat_le.mpr h'.2⟩

/-- A character that is not a letter is the same in lower case. -/
theorem eq_of_toLower_eq {c d : Char} (hd : d.toNat < 65) (h : c.toLower = d) : c = d := by
  have hnat := congrArg Char.toNat h
  rw [toNat_toLower] at hnat
  refine Char.toNat_inj.mp ?_
  split at hnat
  · omega
  · exact hnat

theorem toLower_of_lt {c : Char} (h : c.toNat < 65) : c.toLower = c := by
  refine Char.toNat_inj.mp ?_
  rw [toNat_toLower, if_neg (by omega)]

/-- The characters `trim` removes and `\s` matches. -/
def isSpace (c : Char) : Bool :=
  c = ' ' || c = '\t' || c = '\n' || c = '\r' || c = '\x0b' || c = '\x0c' || c = '\u00a0' ||
    c = '\ufeff' || c = '\u1680' || ('\u2000' ≤ c && c ≤ '\u200a') || c = '\u2028' ||
    c = '\u2029' || c = '\u202f' || c = '\u205f' || c = '\u3000'

theorem isSpace_toNat {c : Char} (h : isSpace c = true) : c.toNat ≤ 32 ∨ 160 ≤ c.toNat := by
  simp only [isSpace, Bool.or_eq_true, Bool.and_eq_true, decide_eq_true_eq] at h
  rcases h with
    ((((((((((((((rfl | rfl) | rfl) | rfl) | rfl) | rfl) | rfl) | rfl) | rfl) | h) | rfl) | rfl) |
      rfl) | rfl) | rfl)
  case inl.inl.inl.inl.inl.inr =>
    exact .inr (le_trans (by decide) (UInt32.le_iff_toNat_le.mp h.1))
  all_goals decide

theorem toLower_of_isSpace {c : Char} (h : isSpace c = true) : c.toLower = c := by
  have hc := isSpace_toNat h
  refine Char.toNat_inj.mp ?_
  rw [toNat_toLower, if_neg (by omega)]

theorem isSpace_of_toLower {c : Char} (h : isSpace c.toLower = false) : isSpace c = false := by
  refine Bool.eq_false_iff.mpr fun hs => ?_
  rw [toLower_of_isSpace hs, hs] at h
  cases h

theorem isSpace_of_isAlphanum {c : Char} (h : c.isAlphanum = true) : isSpace c = false := by
  have hc : 48 ≤ c.toNat ∧ c.toNat ≤ 122 := by
    rcases Bool.or_eq_true_iff.mp h with h | h
    · rcases Bool.or_eq_true_iff.mp h with h | h
      · obtain ⟨hA, hZ⟩ := of_decide_eq_true h
        have hA : 65 ≤ c.toNat := UInt32.le_iff_toNat_le.mp hA
        have hZ : c.toNat ≤ 90 := UInt32.le_iff_toNat_le.mp hZ
        omega
      · obtain ⟨ha, hz⟩ := Bool.and_eq_true_iff.mp h
        have ha : 97 ≤ c.toNat := UInt32.le_iff_toNat_le.mp (of_decide_eq_true ha)
        have hz : c.toNat ≤ 122 := UInt32.le_iff_toNat_le.mp (of_decide_eq_true hz)
        omega
    · obtain ⟨h0, h9⟩ := Bool.and_eq_true_iff.mp h
      have h0 : 48 ≤ c.toNat := UInt32.le_iff_toNat_le.mp (of_decide_eq_true h0)
      have h9 : c.toNat ≤ 57 := UInt32.le_iff_toNat_le.mp (of_decide_eq_true h9)
      omega
  refine Bool.eq_false_iff.mpr fun hs => ?_
  have := isSpace_toNat hs
  omega

/-- `s.trim()`. -/
def trim (s : String) : String :=
  String.ofList ((((s.toList.dropWhile isSpace).reverse).dropWhile isSpace).reverse)

/-- `trim` takes off the spaces around a text. -/
theorem trim_append {a core b : List Char} (ha : ∀ c ∈ a, isSpace c = true)
    (hb : ∀ c ∈ b, isSpace c = true) (hhead : ∀ c ∈ core.head?, isSpace c = false)
    (hlast : ∀ c ∈ core.getLast?, isSpace c = false) (hne : core ≠ []) :
    trim (String.ofList (a ++ core ++ b)) = String.ofList core := by
  have hdrop : ∀ x y : List Char, (∀ c ∈ x, isSpace c = true) → y ≠ [] →
      (∀ c ∈ y.head?, isSpace c = false) → (x ++ y).dropWhile isSpace = y := by
    intro x y hx hy hhead
    rw [List.dropWhile_append_of_pos hx]
    cases y with
    | nil => exact absurd rfl hy
    | cons c y => exact List.dropWhile_cons_of_neg (by simp [hhead c rfl])
  rw [trim, String.toList_ofList, List.append_assoc, hdrop a (core ++ b) ha (by simp [hne]),
    List.reverse_append, hdrop b.reverse core.reverse (by simpa using hb) (by simpa using hne),
    List.reverse_reverse]
  · rwa [List.head?_reverse]
  · intro c hc
    rw [List.head?_append_of_ne_nil _ hne] at hc
    exact hhead c hc

theorem dropWhile_append_cons {p : Char → Bool} {d : Char} (hd : p d = false) (x y : List Char) :
    (x ++ d :: y).dropWhile p = x.dropWhile p ++ d :: y := by
  induction x with
  | nil => exact List.dropWhile_cons_of_neg (by simp [hd])
  | cons c x ih =>
      simp only [List.cons_append, List.dropWhile_cons, ih]
      split <;> rfl

/-- `trim` leaves what stands between two characters that are no spaces. -/
theorem trim_between {c d : Char} (hc : isSpace c = false) (hd : isSpace d = false)
    (a mid b : List Char) : ∃ a' b' : List Char, (∀ x ∈ a', x ∈ a) ∧ (∀ x ∈ b', x ∈ b) ∧
      trim (String.ofList (a ++ c :: (mid ++ d :: b))) =
        String.ofList (a' ++ c :: (mid ++ d :: b')) := by
  refine ⟨a.dropWhile isSpace, (b.reverse.dropWhile isSpace).reverse, ?_, ?_, ?_⟩
  · exact fun x hx => (List.dropWhile_sublist _).mem hx
  · exact fun x hx => List.mem_reverse.mp ((List.dropWhile_sublist _).mem (List.mem_reverse.mp hx))
  · have hrev : (a.dropWhile isSpace ++ c :: (mid ++ d :: b)).reverse =
        b.reverse ++ d :: (mid.reverse ++ c :: (a.dropWhile isSpace).reverse) := by simp
    rw [trim, String.toList_ofList, dropWhile_append_cons hc, hrev, dropWhile_append_cons hd]
    simp

/-- `xs.join(sep)`. -/
def join (sep : String) : List String → String
  | [] => ""
  | [x] => x
  | x :: y :: xs => x ++ sep ++ join sep (y :: xs)

theorem join_empty_cons (x : String) (xs : List String) :
    join "" (x :: xs) = x ++ join "" xs := by
  cases xs with
  | nil => simp [join]
  | cons y xs => simp [join]

/-- Put a character in front of the first part. -/
def consHead (c : Char) : List (List Char) → List (List Char)
  | [] => [[c]]
  | p :: ps => (c :: p) :: ps

/-! ## Words -/

/-- The words of a text, which have spaces between them. -/
def words : List Char → List (List Char)
  | [] => []
  | c :: cs =>
      if isSpace c then words cs
      else if cs.head?.any isSpace then [c] :: words cs
      else consHead c (words cs)

theorem words_spaces {s : List Char} (hs : ∀ c ∈ s, isSpace c = true) (y : List Char) :
    words (s ++ y) = words y := by
  induction s with
  | nil => rfl
  | cons c s ih =>
      rw [List.cons_append, words, if_pos (hs c (List.mem_cons_self ..)),
        ih fun d hd => hs d (List.mem_cons_of_mem _ hd)]

theorem words_ne_nil {c : Char} (hc : isSpace c = false) (x : List Char) : words (c :: x) ≠ [] := by
  rw [words, if_neg (by simp [hc])]
  split
  · exact List.cons_ne_nil _ _
  · cases words x with
    | nil => exact List.cons_ne_nil _ _
    | cons w ws => exact List.cons_ne_nil _ _

/-- Spaces separate words. -/
theorem words_append (x : List Char) {s : List Char} (hs : ∀ c ∈ s, isSpace c = true) (hne : s ≠ [])
    (y : List Char) : words (x ++ (s ++ y)) = words x ++ words y := by
  induction x with
  | nil => exact words_spaces hs y
  | cons c x ih =>
      rw [List.cons_append, words, words, ih]
      by_cases hc : isSpace c = true
      · rw [if_pos hc, if_pos hc]
      · rw [if_neg hc, if_neg hc]
        cases x with
        | nil =>
            cases s with
            | nil => exact absurd rfl hne
            | cons d s =>
                have hd := hs d (List.mem_cons_self ..)
                simp [words, consHead, hd]
        | cons d x =>
            by_cases hd : isSpace d = true
            · simp [hd]
            · -- the first word goes on
              cases hws : words (d :: x) with
              | nil => exact absurd hws (words_ne_nil (by simpa using hd) x)
              | cons w ws => simp [hd, consHead]

/-- A text without spaces is one word. -/
theorem words_single {x : List Char} (hx : ∀ c ∈ x, isSpace c = false) (hne : x ≠ []) :
    words x = [x] := by
  induction x with
  | nil => exact absurd rfl hne
  | cons c x ih =>
      rw [words, if_neg (by simp [hx c (List.mem_cons_self ..)])]
      cases x with
      | nil => rfl
      | cons d x =>
          rw [ih (fun e he => hx e (List.mem_cons_of_mem _ he)) (by simp), if_neg]
          · rfl
          · simp [hx d (by simp)]

theorem words_append_spaces (x : List Char) {s : List Char} (hs : ∀ c ∈ s, isSpace c = true) :
    words (x ++ s) = words x := by
  by_cases hne : s = []
  · rw [hne, List.append_nil]
  · have h := words_append x hs hne []
    rwa [List.append_nil, words, List.append_nil] at h

/-- What stands at the end of a text without spaces is the end of its last word. -/
theorem suffix_getLast_words {y : List Char} (hy : ∀ c ∈ y, isSpace c = false) (hne : y ≠ [])
    (x : List Char) : ∃ w ∈ (words (x ++ y)).getLast?, y <:+ w := by
  induction x with
  | nil => exact ⟨y, by rw [List.nil_append, words_single hy hne]; rfl, List.suffix_rfl⟩
  | cons c x ih =>
      obtain ⟨w, hw, hsuffix⟩ := ih
      rw [List.cons_append, words]
      cases hws : words (x ++ y) with
      | nil => simp [hws] at hw
      | cons v vs =>
          rw [hws] at hw
          split
          · exact ⟨w, hw, hsuffix⟩
          · split
            · exact ⟨w, by simpa using hw, hsuffix⟩
            · cases vs with
              | nil =>
                  cases hw
                  exact ⟨c :: v, rfl, hsuffix.trans (List.suffix_cons c v)⟩
              | cons u us => exact ⟨w, by simpa [consHead] using hw, hsuffix⟩

/-! ## Splitting -/

/-- Split at every occurrence of `sep`.  The counter skips the rest of an
occurrence that was found. -/
def splitFrom (sep : List Char) : Nat → List Char → List (List Char)
  | _, [] => [[]]
  | n + 1, _ :: cs => splitFrom sep n cs
  | 0, c :: cs =>
      if sep.isPrefixOf (c :: cs) then [] :: splitFrom sep (sep.length - 1) cs
      else consHead c (splitFrom sep 0 cs)

/-- `s.split(sep)`, for a separator that is not empty. -/
def split (sep s : String) : List String :=
  (splitFrom sep.toList 0 s.toList).map String.ofList

theorem splitFrom_skip (sep : List Char) : ∀ (xs ys : List Char),
    splitFrom sep xs.length (xs ++ ys) = splitFrom sep 0 ys
  | [], _ => rfl
  | _ :: xs, ys => by
      simp only [List.length_cons, List.cons_append, splitFrom]
      exact splitFrom_skip sep xs ys

/-- A part without the first character of the separator is cut off whole. -/
theorem splitFrom_append (a : Char) (sep : List Char) : ∀ (xs ys : List Char), a ∉ xs →
    splitFrom (a :: sep) 0 (xs ++ (a :: sep ++ ys)) = xs :: splitFrom (a :: sep) 0 ys
  | [], ys, _ => by
      have hp : (a :: sep).isPrefixOf (a :: (sep ++ ys)) = true := by simp
      simp only [List.nil_append, List.cons_append, splitFrom, hp, if_true, List.length_cons,
        Nat.add_sub_cancel, splitFrom_skip]
  | x :: xs, ys, h => by
      have hx : a ≠ x := fun he => h (he ▸ List.mem_cons_self ..)
      have hp : (a :: sep).isPrefixOf (x :: (xs ++ (a :: sep ++ ys))) = false := by
        simp [List.isPrefixOf, hx]
      have ih := splitFrom_append a sep xs ys (fun hm => h (List.mem_cons_of_mem _ hm))
      rw [List.cons_append, splitFrom, hp, ih]
      rfl

theorem splitFrom_of_notMem (a : Char) (sep : List Char) : ∀ xs : List Char, a ∉ xs →
    splitFrom (a :: sep) 0 xs = [xs]
  | [], _ => rfl
  | x :: xs, h => by
      have hx : a ≠ x := fun he => h (he ▸ List.mem_cons_self ..)
      have hp : (a :: sep).isPrefixOf (x :: xs) = false := by simp [List.isPrefixOf, hx]
      have ih := splitFrom_of_notMem a sep xs (fun hm => h (List.mem_cons_of_mem _ hm))
      rw [splitFrom, hp, ih]
      rfl

/-- A part without the first character of the separator is cut off whole. -/
theorem split_append {sep : String} {a : Char} {as : List Char} (hsep : sep.toList = a :: as)
    (x y : String) (hx : a ∉ x.toList) : split sep (x ++ (sep ++ y)) = x :: split sep y := by
  have h := splitFrom_append a as x.toList y.toList hx
  simp only [split, hsep, String.toList_append, h, List.map_cons, String.ofList_toList]

/-- A text without the first character of the separator is one part. -/
theorem split_of_notMem {sep : String} {a : Char} {as : List Char} (hsep : sep.toList = a :: as)
    (x : String) (hx : a ∉ x.toList) : split sep x = [x] := by
  simp only [split, hsep, splitFrom_of_notMem a as x.toList hx, List.map_cons, List.map_nil,
    String.ofList_toList]

example : split "::" "BTN::QBUY::x" = ["BTN", "QBUY", "x"] := by decide

end Text
