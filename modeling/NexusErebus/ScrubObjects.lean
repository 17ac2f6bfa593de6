import NexusErebus.Data.Objects
import NexusErebus.Scrubbing

/-!
# Scrubbing in place (api-server.js)

The function `scrub` of the middleware returns nothing.  It goes through the properties of an
object or an array, assigns to those that are strings, and calls itself on those that are objects.
`typeof null` is an object as well, so it is also called on `null`, and returns at once.

The model works on objects in memory.  The recursion has fuel, since memory may hold a cycle.
`scrub_in_place` says that on a JSON value it ends, and that the value has then become the one
whose strings went through `xss`: every reference is where it was, and nothing else was touched.
`holds_scrub` says that this is the value that the middleware is said to leave in the body.
-/

namespace Nexus

open Objects

section

variable (xss : String → String)

/-- One turn of the loop, for the property under a key.  `again` is `scrub` itself. -/
def scrubProp (again : Val → Store → Option Store) (r : Ref) (h : Store) (k : String) :
    Option Store :=
  match h.get r k with
  | some (.str s) => some (h.set r k (.str (xss s)))
  | some .null => again .null h
  | some (.ref r') => again (.ref r') h
  | _ => some h

/-- The function `scrub` of the middleware. -/
def scrubObject : Nat → Val → Store → Option Store
  | 0, _, _ => none
  | n + 1, .ref r, h => (h.keys r).foldlM (scrubProp xss (scrubObject n) r) h
  | _ + 1, _, h => some h

/-- With enough fuel, `scrub` turns the value in place into the one whose strings went through
`xss`. -/
def Scrubs (j : Json) : Prop :=
  ∃ n, ∀ m ≥ n, ∀ h v fp, Holds h j v fp →
    ∃ h', scrubObject xss m v h = some h' ∧ Holds h' (j.mapStrings xss) v fp ∧
      ∀ r ∉ fp, h' r = h r

/-- With enough fuel, one turn of the loop does the same to the value of a property, and leaves
the other properties alone. -/
def Turns (x : Json) : Prop :=
  ∃ n, ∀ m ≥ n, ∀ (h : Store) (r : Ref) (a : Bool) (k : String) (v : Val)
    (done todo : List (String × Val)) (fp : List Ref),
    h r = some ⟨a, done ++ (k, v) :: todo⟩ → k ∉ Assoc.keys done → r ∉ fp → Holds h x v fp →
    ∃ h' v', scrubProp xss (scrubObject xss m) r h k = some h' ∧
      h' r = some ⟨a, done ++ (k, v') :: todo⟩ ∧ Holds h' (x.mapStrings xss) v' fp ∧
      ∀ q ∉ r :: fp, h' q = h q

variable {xss}

/-- A scalar that is no string is left alone. -/
theorem scrubs_scalar {j : Json} (hv : ∀ {h r fp}, ¬ Holds h j (.ref r) fp)
    (hmap : j.mapStrings xss = j) : Scrubs xss j := by
  refine ⟨1, fun m hm h v fp hh => ⟨h, ?_, hmap.symm ▸ hh, fun _ _ => rfl⟩⟩
  obtain ⟨m, rfl⟩ := Nat.exists_eq_add_of_le' hm
  cases v with
  | ref r => exact absurd hh hv
  | _ => rfl

/-! ## One turn -/

theorem turns_str (s : String) : Turns xss (.str s) := by
  refine ⟨0, fun m _ h r a k v done todo fp hr hk _ hh => ?_⟩
  obtain ⟨rfl, rfl⟩ := hh
  refine ⟨h.set r k (.str (xss s)), .str (xss s), ?_, ?_, ⟨rfl, rfl⟩, fun q hq => ?_⟩
  · rw [scrubProp, Store.get_of_split hr rfl hk]
  · rw [Store.set_of_split hr rfl hk, Function.update_self]
  · rw [Store.set_of_split hr rfl hk, Function.update_of_ne]
    exact fun h => hq (List.mem_singleton.mpr h)

theorem turns_scalar {x : Json} (hmap : x.mapStrings xss = x)
    (hkind : ∀ {h v fp}, Holds h x v fp → (∃ b, v = .bool b) ∨ ∃ q, v = .num q) :
    Turns xss x := by
  refine ⟨0, fun m _ h r a k v done todo fp hr hk _ hh => ⟨h, v, ?_, hr, hmap.symm ▸ hh,
    fun _ _ => rfl⟩⟩
  rw [scrubProp, Store.get_of_split hr rfl hk]
  rcases hkind hh with ⟨b, rfl⟩ | ⟨q, rfl⟩
  · rfl
  · rfl

/-- `scrub` is called on `null` and on what is an object. -/
theorem turns_object {x : Json} (hx : Scrubs xss x)
    (hkind : ∀ {h v fp}, Holds h x v fp → v = .null ∨ ∃ r, v = .ref r) : Turns xss x := by
  obtain ⟨n, hn⟩ := hx
  refine ⟨n, fun m hm h r a k v done todo fp hr hk hfp hh => ?_⟩
  obtain ⟨h', hrun, hholds, hother⟩ := hn m hm h v fp hh
  refine ⟨h', v, ?_, (hother r hfp).trans hr, hholds, fun q hq => hother q ?_⟩
  · rw [scrubProp, Store.get_of_split hr rfl hk]
    rcases hkind hh with rfl | ⟨r', rfl⟩
    · exact hrun
    · exact hrun
  · exact fun h => hq (List.mem_cons_of_mem _ h)

/-- A turn is right for every value, if `scrub` is right for the objects among them. -/
theorem turns_of_scrubs {x : Json} (hx : (∀ s, x ≠ .str s) → Scrubs xss x) : Turns xss x := by
  cases x with
  | str s => exact turns_str s
  | bool b => exact turns_scalar rfl fun h => .inl ⟨b, h.1⟩
  | num q => exact turns_scalar rfl fun h => .inr ⟨q, h.1⟩
  | null => exact turns_object (hx fun _ => Json.noConfusion) fun h => .inl h.1
  | arr xs =>
      refine turns_object (hx fun _ => Json.noConfusion) fun h => ?_
      obtain ⟨r, _, _, hv, _⟩ := h
      exact .inr ⟨r, hv⟩
  | obj kvs =>
      refine turns_object (hx fun _ => Json.noConfusion) fun h => ?_
      obtain ⟨r, _, _, hv, _⟩ := h
      exact .inr ⟨r, hv⟩

/-! ## The loop -/

theorem keys_of_holds {h : Store} {kvs : List (String × Json)} {props : List (String × Val)}
    {fp : List Ref} (hall : HoldsMembers h kvs props fp) : Assoc.keys props = Assoc.keys kvs := by
  induction kvs generalizing props fp with
  | nil => rw [hall.1]; rfl
  | cons kv kvs ih =>
      obtain ⟨v, props', fp₁, fp₂, rfl, -, -, -, hrest⟩ := hall
      exact congrArg (kv.1 :: ·) (ih hrest)

/-- The loop over the properties that are left, if those before them are done. -/
theorem loop_members {kvs : List (String × Json)} (hturn : ∀ kv ∈ kvs, Turns xss kv.2) :
    ∃ n, ∀ m ≥ n, ∀ (h : Store) (r : Ref) (a : Bool) (done props : List (String × Val))
      (fp : List Ref), h r = some ⟨a, done ++ props⟩ → HoldsMembers h kvs props fp → r ∉ fp →
      (Assoc.keys done ++ Assoc.keys kvs).Nodup →
      ∃ h' props', (Assoc.keys kvs).foldlM (scrubProp xss (scrubObject xss m) r) h = some h' ∧
        h' r = some ⟨a, done ++ props'⟩ ∧
        HoldsMembers h' (Json.mapStringsMembers xss kvs) props' fp ∧
        ∀ q ∉ r :: fp, h' q = h q := by
  induction kvs with
  | nil => exact ⟨0, fun m _ h r a done props fp hr hall _ _ => ⟨h, props, rfl, hr, hall,
      fun _ _ => rfl⟩⟩
  | cons kv kvs ih =>
      obtain ⟨k, x⟩ := kv
      obtain ⟨hkv, hkvs⟩ := List.forall_mem_cons.mp hturn
      obtain ⟨n₁, hn₁⟩ := hkv
      obtain ⟨n₂, hn₂⟩ := ih hkvs
      refine ⟨max n₁ n₂, fun m hm h r a done props fp hr hall hfp hnodup => ?_⟩
      obtain ⟨v, props, fp₁, fp₂, rfl, rfl, hdisj, hv, hrest⟩ := hall
      obtain ⟨hr₁, hr₂⟩ := not_or.mp (mt List.mem_append.mpr hfp)
      have hk : k ∉ Assoc.keys done := fun hmem =>
        (List.nodup_append.mp hnodup).2.2 k hmem k (List.mem_cons_self ..) rfl
      obtain ⟨h₁, v₁, hrun₁, hnode₁, hv₁, hother₁⟩ := hn₁ m (le_trans (le_max_left ..) hm) h r a k v
        done props fp₁ hr hk hr₁ hv
      have hrest₁ : HoldsMembers h₁ kvs props fp₂ := hrest.congr fun q hq => hother₁ q fun hmem =>
        (List.mem_cons.mp hmem).elim (fun he => hr₂ (he ▸ hq)) fun hq' => hdisj hq' hq
      obtain ⟨h₂, props₂, hrun₂, hnode₂, hall₂, hother₂⟩ := hn₂ m (le_trans (le_max_right ..) hm)
        h₁ r a (done ++ [(k, v₁)]) props fp₂ (by simpa using hnode₁) hrest₁ hr₂
        (by simpa [Assoc.keys] using hnodup)
      refine ⟨h₂, (k, v₁) :: props₂, ?_, by simpa using hnode₂, ?_, fun q hq => ?_⟩
      · change ((k :: Assoc.keys kvs).foldlM _ h) = some h₂
        rw [List.foldlM_cons, hrun₁]
        exact hrun₂
      · refine ⟨v₁, props₂, fp₁, fp₂, rfl, rfl, hdisj, hv₁.congr fun q hq => hother₂ q ?_, hall₂⟩
        exact fun hmem => (List.mem_cons.mp hmem).elim (fun he => hr₁ (he ▸ hq)) (hdisj hq)
      · obtain ⟨hqr, hq⟩ := not_or.mp (mt List.mem_cons.mpr hq)
        obtain ⟨hq₁, hq₂⟩ := not_or.mp (mt List.mem_append.mpr hq)
        rw [hother₂ q (List.not_mem_cons_of_ne_of_not_mem hqr hq₂),
          hother₁ q (List.not_mem_cons_of_ne_of_not_mem hqr hq₁)]

/-- `scrub` goes through the properties of an object or an array. -/
theorem scrub_members {kvs : List (String × Json)} (hturn : ∀ kv ∈ kvs, Turns xss kv.2) :
    ∃ n, ∀ m ≥ n, ∀ (h : Store) (r : Ref) (a : Bool) (props : List (String × Val))
      (fp : List Ref), (Assoc.keys kvs).Nodup → h r = some ⟨a, props⟩ →
      HoldsMembers h kvs props fp → r ∉ fp →
      ∃ h' props', scrubObject xss m (.ref r) h = some h' ∧ h' r = some ⟨a, props'⟩ ∧
        HoldsMembers h' (Json.mapStringsMembers xss kvs) props' fp ∧
        ∀ q ∉ r :: fp, h' q = h q := by
  obtain ⟨n, hn⟩ := loop_members hturn
  refine ⟨n + 1, fun m hm h r a props fp hnodup hr hall hfp => ?_⟩
  obtain ⟨m, rfl⟩ := Nat.exists_eq_add_of_le' (le_trans (Nat.le_add_left 1 n) hm)
  obtain ⟨h', props', hrun, hnode, hall', hother⟩ := hn m (Nat.le_of_succ_le_succ hm) h r a []
    props fp hr hall hfp hnodup
  refine ⟨h', props', ?_, hnode, hall', hother⟩
  have hkeys : h.keys r = Assoc.keys kvs := by
    rw [Store.keys, hr, ← keys_of_holds hall]
    rfl
  rw [scrubObject, hkeys]
  exact hrun

theorem keys_mapStringsMembers (kvs : List (String × Json)) :
    Assoc.keys (Json.mapStringsMembers xss kvs) = Assoc.keys kvs := by
  induction kvs with
  | nil => rfl
  | cons kv kvs ih => exact congrArg (kv.1 :: ·) ih

theorem indexed_mapStrings (i : Nat) (xs : List Json) :
    indexed i (Json.mapStringsElems xss xs) = Json.mapStringsMembers xss (indexed i xs) := by
  induction xs generalizing i with
  | nil => rfl
  | cons x xs ih => exact congrArg ((toString i, x.mapStrings xss) :: ·) (ih (i + 1))

/-- `scrub` is right for every value but a string. -/
theorem scrubs {j : Json} (hj : ∀ s, j ≠ .str s) : Scrubs xss j := by
  induction j using Json.induct with
  | null => exact scrubs_scalar (fun h => nomatch h.1) rfl
  | bool b => exact scrubs_scalar (fun h => nomatch h.1) rfl
  | num q => exact scrubs_scalar (fun h => nomatch h.1) rfl
  | str s => exact absurd rfl (hj s)
  | arr xs ih =>
      have hturn : ∀ kv ∈ indexed 0 xs, Turns xss kv.2 := fun kv hkv =>
        turns_of_scrubs (ih kv.2 (mem_of_mem_indexed hkv))
      obtain ⟨n, hn⟩ := scrub_members hturn
      refine ⟨n, fun m hm h v fp hh => ?_⟩
      obtain ⟨r, props, fp, rfl, rfl, hr, hnode, hall⟩ := hh
      obtain ⟨h', props', hrun, hnode', hall', hother⟩ := hn m hm h r true props fp
        (nodup_indexed 0 xs) hnode (holdsElems_iff.mp hall) hr
      refine ⟨h', hrun, ⟨r, props', fp, rfl, rfl, hr, hnode', ?_⟩, hother⟩
      rw [holdsElems_iff, indexed_mapStrings]
      exact hall'
  | obj kvs ih =>
      obtain ⟨n, hn⟩ := scrub_members fun kv hkv => turns_of_scrubs (ih kv hkv)
      refine ⟨n, fun m hm h v fp hh => ?_⟩
      obtain ⟨r, props, fp, rfl, rfl, hr, hnode, hnodup, hall⟩ := hh
      obtain ⟨h', props', hrun, hnode', hall', hother⟩ := hn m hm h r false props fp hnodup hnode
        hall hr
      exact ⟨h', hrun, ⟨r, props', fp, rfl, rfl, hr, hnode', (keys_mapStringsMembers kvs).symm ▸
        hnodup, hall'⟩, hother⟩

/-- What is left in memory is what `scrub` makes of the value. -/
theorem holds_scrub {j : Json} (hj : ∀ s, j ≠ .str s) :
    ∃ n, ∀ m ≥ n, ∀ h v fp, Holds h j v fp →
      ∃ h', scrubObject xss m v h = some h' ∧ Holds h' (scrub xss j) v fp := by
  obtain ⟨n, hn⟩ := scrubs hj
  refine ⟨n, fun m hm h v fp hh => ?_⟩
  obtain ⟨h', hrun, hholds, -⟩ := hn m hm h v fp hh
  rw [scrub_eq_mapStrings xss j hj]
  exact ⟨h', hrun, hholds⟩

end

/-- `scrub` ends on every JSON object and array, and turns it in place into the value in which
every string went through `xss`. -/
theorem scrub_in_place (xss : String → String) {j : Json}
    (hj : (∃ xs, j = .arr xs) ∨ ∃ kvs, j = .obj kvs) {h : Store} {v : Val} {fp : List Ref}
    (hh : Holds h j v fp) :
    ∃ n, ∀ m ≥ n, ∃ h', scrubObject xss m v h = some h' ∧ Holds h' (j.mapStrings xss) v fp ∧
      ∀ r ∉ fp, h' r = h r := by
  have hstr : ∀ s, j ≠ .str s := by
    rintro s rfl
    obtain ⟨xs, hxs⟩ | ⟨kvs, hkvs⟩ := hj
    · cases hxs
    · cases hkvs
  obtain ⟨n, hn⟩ := scrubs hstr
  exact ⟨n, fun m hm => hn m hm h v fp hh⟩

namespace Sample

/-- An object with an array in it. -/
def noted : Json := .obj [("tags", .arr [.str "<b>", .null, .num 1]), ("by", .str "alice")]

/-- The object at the reference 0, and the array at the reference 1. -/
def memory : Store
  | 0 => some ⟨false, [("tags", .ref 1), ("by", .str "alice")]⟩
  | 1 => some ⟨true, [("0", .str "<b>"), ("1", .null), ("2", .num 1)]⟩
  | _ => none

theorem memory_holds : Holds memory noted (.ref 0) [0, 1] := by
  refine ⟨0, _, [1], rfl, rfl, by decide, rfl, by decide, .ref 1, _, [1], [], rfl, rfl, by simp,
    ?_, .str "alice", [], [], [], rfl, rfl, by simp, ⟨rfl, rfl⟩, rfl, rfl⟩
  exact ⟨1, _, [], rfl, rfl, by simp, rfl, .str "<b>", _, [], [], rfl, rfl, by simp, ⟨rfl, rfl⟩,
    .null, _, [], [], rfl, rfl, by simp, ⟨rfl, rfl⟩, .num 1, _, [], [], rfl, rfl, by simp,
    ⟨rfl, rfl⟩, rfl, rfl⟩

/-- The tag in the array is escaped where it stands. -/
theorem noted_scrubbed : Holds memory noted (.ref 0) [0, 1] ∧
    ∃ n h', scrubObject escape n (.ref 0) memory = some h' ∧
      Holds h' (.obj [("tags", .arr [.str "&lt;b&gt;", .null, .num 1]), ("by", .str "alice")])
        (.ref 0) [0, 1] ∧ ∀ r ∉ [0, 1], h' r = memory r := by
  refine ⟨memory_holds, ?_⟩
  obtain ⟨n, hn⟩ := scrub_in_place escape (.inr ⟨_, rfl⟩) memory_holds
  obtain ⟨h', hrun, hholds, hother⟩ := hn n (le_refl n)
  exact ⟨n, h', hrun, hholds, hother⟩

end Sample

end Nexus
