import Mathlib.Data.List.TakeWhile
import NexusErebus.Text.Strings

/-!
# Regular expressions

Patterns with captured groups, matched by backtracking and without regard to case, as
JavaScript matches them under the flag `i`.  A pattern takes a place in a text to the
places it can lead to, the one backtracking tries first in front (`Rx.places`).  A text
matches at the first place from which a pattern leads anywhere (`Rx.search`), and the
captured groups are those of the place tried first.
-/

namespace Text

/-- A place in a text. -/
structure Place where
  /-- The character in front. -/
  before : Option Char
  rest : List Char
  /-- The groups captured so far. -/
  groups : List (Nat × String)

namespace Place

/-- Go on by so many characters. -/
def advance : Nat → Place → Place
  | 0, pl => pl
  | n + 1, pl =>
      match pl.rest with
      | [] => pl
      | c :: cs => advance n { pl with before := some c, rest := cs }

/-- Capture what lies between two places. -/
def capture (n : Nat) (start stop : Place) : Place :=
  { stop with groups :=
      (n, String.ofList (start.rest.take (start.rest.length - stop.rest.length))) :: stop.groups }

@[simp] theorem advance_groups (n : Nat) (pl : Place) : (advance n pl).groups = pl.groups := by
  induction n generalizing pl with
  | zero => rfl
  | succ n ih =>
      rw [advance]
      split
      · rfl
      · exact ih _

@[simp] theorem advance_rest (n : Nat) (pl : Place) : (advance n pl).rest = pl.rest.drop n := by
  induction n generalizing pl with
  | zero => rfl
  | succ n ih =>
      rw [advance]
      split
      next h => simp [h]
      next c cs h => rw [ih, h, List.drop_succ_cons]

theorem advance_append : ∀ (x y : List Char) (b : Option Char) (g : List (Nat × String)),
    advance x.length ⟨b, x ++ y, g⟩ = ⟨x.getLast?.or b, y, g⟩
  | [], _, _, _ => rfl
  | c :: x, y, b, g => by
      rw [List.length_cons, List.cons_append, advance]
      refine (advance_append x y (some c) g).trans ?_
      rw [List.getLast?_cons]
      cases x.getLast? with
      | none => rfl
      | some d => rfl

theorem capture_append (n : Nat) (x : List Char) {start stop : Place}
    (h : start.rest = x ++ stop.rest) :
    capture n start stop = { stop with groups := (n, String.ofList x) :: stop.groups } := by
  simp [capture, h]

end Place

/-- A character of `\w`. -/
def isWord (c : Char) : Bool := c.isAlphanum || c = '_'

theorem isWord_of_toLower {c : Char} (h : isWord c.toLower = true) : isWord c = true := by
  unfold Char.toLower at h
  split at h
  next hup =>
    have hupper : c.isUpper = true := decide_eq_true hup
    have halpha : c.isAlpha = true := Bool.or_eq_true_iff.mpr (.inl hupper)
    have halnum : c.isAlphanum = true := Bool.or_eq_true_iff.mpr (.inl halpha)
    exact Bool.or_eq_true_iff.mpr (.inl halnum)
  next => exact h

theorem isWord_of_isSpace {c : Char} (h : isSpace c = true) : isWord c = false := by
  refine Bool.eq_false_iff.mpr fun hw => ?_
  rcases Bool.or_eq_true_iff.mp hw with halnum | hline
  · rw [isSpace_of_isAlphanum halnum] at h
    cases h
  · rw [of_decide_eq_true hline] at h
    exact absurd h (by decide)

/-- The texts agree up to case. -/
def sameText (a b : List Char) : Bool := a.map Char.toLower = b.map Char.toLower

theorem length_eq_of_sameText {a b : List Char} (h : sameText a b = true) : a.length = b.length := by
  simpa using congrArg List.length (of_decide_eq_true h)

theorem head_of_sameText {c : Char} {a b : List Char} (h : sameText (c :: a) b = true) :
    ∃ d ∈ b.head?, d.toLower = c.toLower := by
  have hmap : (c :: a).map Char.toLower = b.map Char.toLower := of_decide_eq_true h
  cases b with
  | nil => cases hmap
  | cons d b => exact ⟨d, rfl, (List.cons.inj hmap).1.symm⟩

theorem sameText_append {a b c : List Char} (h : sameText a (b ++ c) = true) :
    ∃ a₁ a₂, a = a₁ ++ a₂ ∧ sameText a₁ b = true ∧ sameText a₂ c = true := by
  have hmap : a.map Char.toLower = (b ++ c).map Char.toLower := of_decide_eq_true h
  rw [List.map_append, List.map_eq_append_iff] at hmap
  obtain ⟨a₁, a₂, rfl, h₁, h₂⟩ := hmap
  exact ⟨a₁, a₂, rfl, decide_eq_true h₁, decide_eq_true h₂⟩

theorem forall_of_sameText {p : Char → Prop} {a b : List Char} (h : sameText a b = true)
    (hb : ∀ c ∈ b, p c.toLower) : ∀ c ∈ a, p c.toLower := by
  intro c hc
  have hlow : a.map Char.toLower = b.map Char.toLower := of_decide_eq_true h
  obtain ⟨d, hd, heq⟩ := List.mem_map.mp (hlow ▸ List.mem_map_of_mem hc)
  exact heq ▸ hb d hd

/-- A pattern. -/
inductive Rx where
  | lit (s : String)
  /-- From `min` to `max` characters of a class, as many as possible. -/
  | many (p : Char → Bool) (min : Nat) (max : Option Nat)
  | seq (a b : Rx)
  | alt (a b : Rx)
  | opt (a : Rx)
  | group (n : Nat) (a : Rx)
  /-- `\b`. -/
  | boundary

namespace Rx

/-- The places a pattern leads to, in the order they are tried. -/
def places : Rx → Place → List Place
  | .lit s, pl =>
      let cs := s.toList
      if sameText (pl.rest.take cs.length) cs then [Place.advance cs.length pl] else []
  | .many p min max, pl =>
      let run := (pl.rest.takeWhile p).length
      let most := match max with
        | some m => Nat.min m run
        | none => run
      (((List.range (most + 1)).reverse).filter (min ≤ ·)).map fun n => Place.advance n pl
  | .seq a b, pl => (a.places pl).flatMap b.places
  | .alt a b, pl => a.places pl ++ b.places pl
  | .opt a, pl => a.places pl ++ [pl]
  | .group n a, pl => (a.places pl).map (Place.capture n pl)
  | .boundary, pl =>
      if pl.before.any isWord != pl.rest.head?.any isWord then [pl] else []

/-- The first match, from a place on. -/
def search (r : Rx) : Option Char → List Char → Option Place
  | before, [] => (r.places ⟨before, [], []⟩).head?
  | before, c :: cs => (r.places ⟨before, c :: cs, []⟩).head?.or (r.search (some c) cs)

/-- The groups of the first match in a text. -/
def exec (r : Rx) (s : String) : Option (List (Nat × String)) :=
  (r.search none s.toList).map Place.groups

/-- `r.test(s)`. -/
def test (r : Rx) (s : String) : Bool := (r.exec s).isSome

/-! ## What is captured -/

/-- The pattern captures nothing. -/
def silent : Rx → Bool
  | .seq a b => a.silent && b.silent
  | .alt a b => a.silent && b.silent
  | .opt a => a.silent
  | .group _ _ => false
  | _ => true

theorem eats_of_lit {s : String} {pl pl' : Place} (h : pl' ∈ (lit s).places pl) :
    ∃ x, pl.rest = x ++ pl'.rest ∧ sameText x s.toList = true ∧ pl'.groups = pl.groups := by
  simp only [places] at h
  split at h
  next hsame =>
    rw [List.mem_singleton.mp h]
    refine ⟨pl.rest.take s.toList.length, ?_, hsame, Place.advance_groups ..⟩
    rw [Place.advance_rest, List.take_append_drop]
  next => cases h

theorem eats_of_many {p : Char → Bool} {min : Nat} {max : Option Nat} {pl pl' : Place}
    (h : pl' ∈ (many p min max).places pl) :
    ∃ x, pl.rest = x ++ pl'.rest ∧ (∀ c ∈ x, p c = true) ∧ min ≤ x.length ∧
      (∀ m ∈ max, x.length ≤ m) ∧ pl'.groups = pl.groups := by
  simp only [places, List.mem_map, List.mem_filter, List.mem_reverse, List.mem_range,
    decide_eq_true_eq] at h
  obtain ⟨n, ⟨hn, hmin⟩, rfl⟩ := h
  have hmost : n ≤ (pl.rest.takeWhile p).length ∧ ∀ m ∈ max, n ≤ m := by
    cases max with
    | none => exact ⟨Nat.lt_succ_iff.mp hn, by simp⟩
    | some m =>
        have hle : n ≤ Nat.min m (pl.rest.takeWhile p).length := Nat.lt_succ_iff.mp hn
        refine ⟨Nat.le_trans hle (Nat.min_le_right ..), ?_⟩
        simpa using Nat.le_trans hle (Nat.min_le_left ..)
  have hlen : n ≤ pl.rest.length :=
    Nat.le_trans hmost.1 (List.takeWhile_prefix p).length_le
  have htake : pl.rest.take n = (pl.rest.takeWhile p).take n := by
    conv_lhs => rw [← List.takeWhile_append_dropWhile (p := p) (l := pl.rest)]
    exact List.take_append_of_le_length hmost.1
  refine ⟨pl.rest.take n, ?_, ?_, ?_, ?_, Place.advance_groups n pl⟩
  · rw [Place.advance_rest, List.take_append_drop]
  · intro c hc
    rw [htake] at hc
    exact List.mem_takeWhile_imp (List.mem_of_mem_take hc)
  · simpa [hlen] using hmin
  · simpa [hlen] using hmost.2

theorem mem_places_boundary {pl pl' : Place} (h : pl' ∈ boundary.places pl) : pl' = pl := by
  simp only [places] at h
  split at h
  · exact List.mem_singleton.mp h
  · cases h

theorem groups_of_silent : ∀ {r : Rx} {pl pl' : Place}, r.silent = true → pl' ∈ r.places pl →
    pl'.groups = pl.groups
  | .lit s, pl, pl', _, h => by
      obtain ⟨x, -, -, hg⟩ := eats_of_lit h
      exact hg
  | .many p min max, pl, pl', _, h => by
      obtain ⟨x, -, -, -, -, hg⟩ := eats_of_many h
      exact hg
  | .seq a b, pl, pl', hs, h => by
      simp only [silent, Bool.and_eq_true] at hs
      obtain ⟨q, hq, hb⟩ := List.mem_flatMap.mp h
      exact (groups_of_silent hs.2 hb).trans (groups_of_silent hs.1 hq)
  | .alt a b, pl, pl', hs, h => by
      simp only [silent, Bool.and_eq_true] at hs
      rcases List.mem_append.mp h with h | h
      · exact groups_of_silent hs.1 h
      · exact groups_of_silent hs.2 h
  | .opt a, pl, pl', hs, h => by
      rcases List.mem_append.mp h with h | h
      · exact groups_of_silent (r := a) hs h
      · rw [List.mem_singleton.mp h]
  | .group n a, _, _, hs, _ => by cases hs
  | .boundary, pl, pl', _, h => by rw [mem_places_boundary h]

/-- A group around characters of a class captures so many of them. -/
theorem groups_of_many {p : Char → Bool} {k min : Nat} {max : Option Nat} {pl pl' : Place}
    (h : pl' ∈ (group k (many p min max)).places pl) :
    ∃ x, pl.rest = x ++ pl'.rest ∧ pl'.groups = (k, String.ofList x) :: pl.groups ∧
      (∀ c ∈ x, p c = true) ∧ min ≤ x.length ∧ ∀ m ∈ max, x.length ≤ m := by
  obtain ⟨q, hq, rfl⟩ := List.mem_map.mp h
  obtain ⟨x, hx, hp, hmin, hmax, hg⟩ := eats_of_many hq
  rw [Place.capture_append k x hx, hg]
  exact ⟨x, hx, rfl, hp, hmin, hmax⟩

/-- A match starts somewhere in the text, with nothing captured. -/
theorem mem_places_of_search {r : Rx} {pl' : Place} : ∀ {cs : List Char} {before : Option Char},
    r.search before cs = some pl' →
      ∃ pl, pl.groups = [] ∧ pl.rest <:+ cs ∧ pl' ∈ r.places pl
  | [], before, h => ⟨_, rfl, List.suffix_rfl, List.mem_of_head? h⟩
  | c :: cs, before, h => by
      rw [search, Option.or_eq_some_iff] at h
      rcases h with h | ⟨-, h⟩
      · exact ⟨_, rfl, List.suffix_rfl, List.mem_of_head? h⟩
      · obtain ⟨pl, hpl, hsuffix, hmem⟩ := mem_places_of_search h
        exact ⟨pl, hpl, hsuffix.trans (List.suffix_cons c cs), hmem⟩

theorem mem_places_of_exec {r : Rx} {s : String} {groups : List (Nat × String)}
    (h : r.exec s = some groups) :
    ∃ pl pl', pl.groups = [] ∧ pl.rest <:+ s.toList ∧ pl' ∈ r.places pl ∧ pl'.groups = groups := by
  obtain ⟨pl', hsearch, rfl⟩ := Option.map_eq_some_iff.mp h
  obtain ⟨pl, hpl, hsuffix, hmem⟩ := mem_places_of_search hsearch
  exact ⟨pl, pl', hpl, hsuffix, hmem, rfl⟩

/-! ## Where a pattern does not match -/

/-- Whatever the pattern matches has a character that satisfies `q` when it is in lower case. -/
def Needs (q : Char → Prop) : Rx → Prop
  | .lit s => ∃ c ∈ s.toList, q c.toLower
  | .many p min _ => 0 < min ∧ ∀ c, p c = true → q c.toLower
  | .seq a b => a.Needs q ∨ b.Needs q
  | .alt a b => a.Needs q ∧ b.Needs q
  | .opt _ => False
  | .group _ a => a.Needs q
  | .boundary => False

/-- A pattern goes forward. -/
theorem suffix_of_mem_places : ∀ {r : Rx} {pl pl' : Place}, pl' ∈ r.places pl →
    pl'.rest <:+ pl.rest
  | .lit s, pl, pl', h => by
      obtain ⟨x, hx, -⟩ := eats_of_lit h
      exact ⟨x, hx.symm⟩
  | .many p min max, pl, pl', h => by
      obtain ⟨x, hx, -⟩ := eats_of_many h
      exact ⟨x, hx.symm⟩
  | .seq a b, pl, pl', h => by
      obtain ⟨q, hq, hb⟩ := List.mem_flatMap.mp h
      exact (suffix_of_mem_places hb).trans (suffix_of_mem_places hq)
  | .alt a b, pl, pl', h => by
      rcases List.mem_append.mp h with h | h
      · exact suffix_of_mem_places h
      · exact suffix_of_mem_places h
  | .opt a, pl, pl', h => by
      rcases List.mem_append.mp h with h | h
      · exact suffix_of_mem_places (r := a) h
      · exact List.mem_singleton.mp h ▸ List.suffix_rfl
  | .group n a, pl, pl', h => by
      obtain ⟨q, hq, rfl⟩ := List.mem_map.mp h
      exact (suffix_of_mem_places hq : q.rest <:+ pl.rest)
  | .boundary, pl, pl', h => mem_places_boundary h ▸ List.suffix_rfl

/-- What a pattern needs is in the text. -/
theorem exists_of_mem_places {q : Char → Prop} : ∀ {r : Rx} {pl pl' : Place}, r.Needs q →
    pl' ∈ r.places pl → ∃ c ∈ pl.rest, q c.toLower
  | .lit s, pl, pl', ⟨c, hc, hq⟩, h => by
      obtain ⟨x, hx, hsame, -⟩ := eats_of_lit h
      have hlow : x.map Char.toLower = s.toList.map Char.toLower := of_decide_eq_true hsame
      obtain ⟨d, hd, hdc⟩ := List.mem_map.mp (hlow ▸ List.mem_map_of_mem hc)
      exact ⟨d, hx ▸ List.mem_append_left _ hd, hdc ▸ hq⟩
  | .many p min max, pl, pl', ⟨hpos, hq⟩, h => by
      obtain ⟨x, hx, hp, hmin, -⟩ := eats_of_many h
      obtain ⟨c, hc⟩ := List.exists_mem_of_length_pos (by omega : 0 < x.length)
      exact ⟨c, hx ▸ List.mem_append_left _ hc, hq c (hp c hc)⟩
  | .seq a b, pl, pl', hn, h => by
      obtain ⟨pl₁, h₁, h₂⟩ := List.mem_flatMap.mp h
      rcases hn with ha | hb
      · exact exists_of_mem_places ha h₁
      · obtain ⟨c, hc, hq⟩ := exists_of_mem_places hb h₂
        exact ⟨c, (suffix_of_mem_places h₁).subset hc, hq⟩
  | .alt a b, pl, pl', ⟨ha, hb⟩, h => by
      rcases List.mem_append.mp h with h | h
      · exact exists_of_mem_places ha h
      · exact exists_of_mem_places hb h
  | .group n a, pl, pl', hn, h => by
      obtain ⟨pl₁, h₁, -⟩ := List.mem_map.mp h
      exact exists_of_mem_places (r := a) hn h₁

/-- Without what a pattern needs there is no match. -/
theorem exec_eq_none {q : Char → Prop} {r : Rx} (hr : r.Needs q) {s : String}
    (h : ∀ c ∈ s.toList, ¬ q c.toLower) : r.exec s = none := by
  by_contra hne
  obtain ⟨groups, hg⟩ := Option.ne_none_iff_exists'.mp hne
  obtain ⟨pl, pl', -, hsuffix, hmem, -⟩ := mem_places_of_exec hg
  obtain ⟨c, hc, hq⟩ := exists_of_mem_places hr hmem
  exact h c (hsuffix.subset hc) hq

/-- The pattern starts with a character that satisfies `q` when it is in lower case. -/
def Initial (q : Char → Prop) : Rx → Prop
  | .lit s => ∃ c ∈ s.toList.head?, q c.toLower
  | .many p min _ => 0 < min ∧ ∀ c, p c = true → q c.toLower
  | .seq a b => a.Initial q ∨ a = .boundary ∧ b.Initial q
  | .alt a b => a.Initial q ∧ b.Initial q
  | .opt _ => False
  | .group _ a => a.Initial q
  | .boundary => False

theorem head_of_mem_places {q : Char → Prop} : ∀ {r : Rx} {pl pl' : Place}, r.Initial q →
    pl' ∈ r.places pl → ∃ c ∈ pl.rest.head?, q c.toLower
  | .lit s, pl, pl', ⟨c, hc, hq⟩, h => by
      obtain ⟨x, hx, hsame, -⟩ := eats_of_lit h
      cases x with
      | nil =>
          cases hs : s.toList with
          | nil => simp [hs] at hc
          | cons d ds => simp [hs, sameText] at hsame
      | cons d x =>
          obtain ⟨c', hc', heq⟩ := head_of_sameText hsame
          cases Option.mem_unique hc hc'
          exact ⟨d, by rw [hx]; rfl, heq ▸ hq⟩
  | .many p min max, pl, pl', ⟨hpos, hq⟩, h => by
      obtain ⟨x, hx, hp, hmin, -⟩ := eats_of_many h
      cases x with
      | nil => simp at hmin; omega
      | cons d x => exact ⟨d, by rw [hx]; rfl, hq d (hp d (List.mem_cons_self ..))⟩
  | .seq a b, pl, pl', hn, h => by
      obtain ⟨pl₁, h₁, h₂⟩ := List.mem_flatMap.mp h
      rcases hn with ha | ⟨rfl, hb⟩
      · exact head_of_mem_places ha h₁
      · exact mem_places_boundary h₁ ▸ head_of_mem_places hb h₂
  | .alt a b, pl, pl', ⟨ha, hb⟩, h => by
      rcases List.mem_append.mp h with h | h
      · exact head_of_mem_places ha h
      · exact head_of_mem_places hb h
  | .group n a, pl, pl', hn, h => by
      obtain ⟨pl₁, h₁, -⟩ := List.mem_map.mp h
      exact head_of_mem_places (r := a) hn h₁

/-- A pattern leads nowhere from a place where it cannot start. -/
theorem places_eq_nil {q : Char → Prop} {r : Rx} (hr : r.Initial q) {before : Option Char} {c : Char}
    {cs : List Char} {g : List (Nat × String)} (hc : ¬ q c.toLower) :
    r.places ⟨before, c :: cs, g⟩ = [] := by
  by_contra hne
  obtain ⟨pl', hmem⟩ := List.exists_mem_of_ne_nil _ hne
  obtain ⟨d, hd, hq⟩ := head_of_mem_places hr hmem
  cases hd
  exact hc hq

/-- A literal that does not start the way the text does. -/
theorem places_lit_eq_nil {s : String} {x w y : List Char} {before : Option Char}
    {g : List (Nat × String)} (hx : sameText x w = true) (hlen : s.toList.length ≤ w.length)
    (hs : ¬ s.toList.map Char.toLower <+: w.map Char.toLower) :
    (lit s).places ⟨before, x ++ y, g⟩ = [] := by
  by_contra hne
  obtain ⟨pl', hmem⟩ := List.exists_mem_of_ne_nil _ hne
  obtain ⟨z, hz, hsame, -⟩ := eats_of_lit hmem
  have hprefix : z <+: x := by
    refine List.prefix_of_prefix_length_le ⟨pl'.rest, hz.symm⟩ (List.prefix_append x y) ?_
    rw [length_eq_of_sameText hsame, length_eq_of_sameText hx]
    exact hlen
  have hmap := hprefix.map Char.toLower
  rw [of_decide_eq_true hsame, of_decide_eq_true hx] at hmap
  exact hs hmap

/-! ## What is tried first -/

/-- The pattern leads from one place to another, which is the one tried first. -/
def First (r : Rx) (pl pl' : Place) : Prop := (r.places pl).head? = some pl'

section

variable {a b : Rx} {pl pl₁ pl₂ : Place} {x y : List Char} {before : Option Char}
  {g : List (Nat × String)}

theorem first_lit {s : String} (h : sameText x s.toList = true) :
    (lit s).First ⟨before, x ++ y, g⟩ ⟨x.getLast?.or before, y, g⟩ := by
  have hlen := length_eq_of_sameText h
  simp only [First, places, ← hlen, List.take_left, h, if_true, Place.advance_append,
    List.head?_cons]

theorem first_many {p : Char → Bool} {min : Nat} {max : Option Nat} (hx : ∀ c ∈ x, p c = true)
    (hy : ∀ c ∈ y.head?, p c = false) (hmin : min ≤ x.length) (hmax : ∀ m ∈ max, x.length ≤ m) :
    (many p min max).First ⟨before, x ++ y, g⟩ ⟨x.getLast?.or before, y, g⟩ := by
  have hrun : ((x ++ y).takeWhile p) = x := by
    rw [List.takeWhile_append_of_pos hx]
    cases y with
    | nil => simp
    | cons c y => simp [hy c rfl]
  have hlist : (((List.range (x.length + 1)).reverse.filter (min ≤ ·)).map fun n =>
      Place.advance n ⟨before, x ++ y, g⟩).head? = some ⟨x.getLast?.or before, y, g⟩ := by
    simp only [List.range_succ, List.reverse_append, List.reverse_singleton,
      List.singleton_append, List.filter_cons, hmin, decide_true, if_true, List.map_cons,
      List.head?_cons, Place.advance_append]
  cases max with
  | none =>
      simp only [First, places, hrun]
      exact hlist
  | some m =>
      simp only [First, places, hrun, Nat.min_eq_right (hmax m rfl)]
      exact hlist

theorem first_seq (ha : a.First pl pl₁) (hb : b.First pl₁ pl₂) : (seq a b).First pl pl₂ := by
  unfold First at ha
  cases hpl : a.places pl with
  | nil => simp [hpl] at ha
  | cons q qs =>
      rw [hpl] at ha
      cases ha
      simp only [First, places, hpl, List.flatMap_cons, List.head?_append, Option.or_eq_some_iff]
      exact .inl hb

theorem first_alt (ha : a.First pl pl₁) : (alt a b).First pl pl₁ := by
  simp only [First, places, List.head?_append, Option.or_eq_some_iff]
  exact .inl ha

theorem first_alt_right (ha : a.places pl = []) (hb : b.First pl pl₁) : (alt a b).First pl pl₁ := by
  simp only [First, places, ha, List.nil_append]
  exact hb

theorem first_opt (ha : a.First pl pl₁) : (opt a).First pl pl₁ := by
  simp only [First, places, List.head?_append, Option.or_eq_some_iff]
  exact .inl ha

theorem first_opt_none (ha : a.places pl = []) : (opt a).First pl pl := by
  simp [First, places, ha]

theorem first_group {n : Nat} {b' : Option Char} {g' : List (Nat × String)}
    (ha : a.First ⟨before, x ++ y, g⟩ ⟨b', y, g'⟩) :
    (group n a).First ⟨before, x ++ y, g⟩ ⟨b', y, (n, String.ofList x) :: g'⟩ := by
  unfold First at ha
  simp only [First, places, List.head?_map, ha, Option.map_some]
  exact congrArg some (Place.capture_append n x rfl)

theorem first_boundary (h : pl.before.any isWord ≠ pl.rest.head?.any isWord) :
    boundary.First pl pl := by
  simp [First, places, h]

/-- A match is found where the pattern leads somewhere. -/
theorem search_of_first {r : Rx} {cs : List Char} (h : r.First ⟨before, cs, []⟩ pl) :
    r.search before cs = some pl := by
  cases cs with
  | nil => exact h
  | cons c cs =>
      rw [search, show (r.places ⟨before, c :: cs, []⟩).head? = some pl from h]
      rfl

/-- Nothing is found where the pattern leads nowhere. -/
theorem search_append {r : Rx} : ∀ {xs ys : List Char} {before : Option Char},
    (∀ x₁ c x₂, xs = x₁ ++ c :: x₂ → ∀ b, r.places ⟨b, c :: (x₂ ++ ys), []⟩ = []) →
      r.search before (xs ++ ys) = r.search (xs.getLast?.or before) ys
  | [], _, _, _ => rfl
  | c :: xs, ys, before, h => by
      rw [List.cons_append, search, h [] c xs rfl, List.head?_nil, Option.none_or,
        search_append fun x₁ d x₂ hx => h (c :: x₁) d x₂ (by rw [hx]; rfl), List.getLast?_cons]
      cases xs.getLast? with
      | none => rfl
      | some d => rfl

/-- Spaces in front of a match are passed over. -/
theorem exec_of_first {r : Rx} (hx : ∀ c ∈ x, isSpace c = true)
    (hr : r.Initial fun c => isSpace c = false) (h : r.First ⟨x.getLast?, y, []⟩ pl) :
    r.exec (String.ofList (x ++ y)) = some pl.groups := by
  rw [exec, String.toList_ofList, search_append, Option.or_none, search_of_first h, Option.map_some]
  intro x₁ c x₂ hsplit b
  have hc : isSpace c = true := hx c (by simp [hsplit])
  exact places_eq_nil hr (by simp [toLower_of_isSpace hc, hc])

end

end Rx

/-- Leave out a text wherever it occurs.  The counter is how many characters of an
occurrence are still to be left out. -/
def removeFrom (pat : List Char) : Nat → List Char → List Char
  | _, [] => []
  | n + 1, _ :: cs => removeFrom pat n cs
  | 0, c :: cs =>
      if sameText ((c :: cs).take pat.length) pat then removeFrom pat (pat.length - 1) cs
      else c :: removeFrom pat 0 cs

/-- `s.replace(new RegExp(pat, 'ig'), '')`, where `pat` is not empty and has no special
characters. -/
def removeAll (pat s : String) : String := String.ofList (removeFrom pat.toList 0 s.toList)

theorem removeFrom_skip (pat : List Char) : ∀ xs ys : List Char,
    removeFrom pat xs.length (xs ++ ys) = removeFrom pat 0 ys
  | [], _ => rfl
  | _ :: xs, ys => by
      simp only [List.length_cons, List.cons_append, removeFrom]
      exact removeFrom_skip pat xs ys

/-- An occurrence is left out whole. -/
theorem removeFrom_occurrence {pat x : List Char} (h : sameText x pat = true) (hx : x ≠ [])
    (ys : List Char) : removeFrom pat 0 (x ++ ys) = removeFrom pat 0 ys := by
  cases x with
  | nil => exact absurd rfl hx
  | cons c x =>
      have hlen := length_eq_of_sameText h
      have htake : (c :: (x ++ ys)).take pat.length = c :: x := by
        rw [← hlen, ← List.cons_append, List.take_left]
      rw [List.cons_append, removeFrom, htake, if_pos h, ← hlen, List.length_cons,
        Nat.add_sub_cancel, removeFrom_skip]

/-- A text without the first character of the pattern stays. -/
theorem removeFrom_of_notMem {a : Char} {pat : List Char} : ∀ {xs : List Char},
    (∀ c ∈ xs, a.toLower ≠ c.toLower) → ∀ ys, removeFrom (a :: pat) 0 (xs ++ ys) =
      xs ++ removeFrom (a :: pat) 0 ys
  | [], _, _ => rfl
  | x :: xs, h, ys => by
      have hnot : ¬ sameText ((x :: (xs ++ ys)).take (a :: pat).length) (a :: pat) = true := by
        intro hsame
        obtain ⟨d, hd, heq⟩ := head_of_sameText hsame
        cases hd
        exact h x (List.mem_cons_self ..) heq
      rw [List.cons_append, removeFrom, if_neg hnot,
        removeFrom_of_notMem (fun c hc => h c (List.mem_cons_of_mem _ hc)), List.cons_append]

end Text
