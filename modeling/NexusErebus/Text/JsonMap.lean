import NexusErebus.Text.Json

/-!
# Functions over JSON values

`mapStrings` applies a function to every string value at any depth, and `dropKeys` removes the
members whose keys satisfy a predicate, at any depth.  Keys are not string values.  `strings` and
`keys` list what the two look at.

`mapStrings_dropKeys_eq_iff` says which values both leave as they are.
-/

namespace Json

variable (f : String → String) (bad : String → Bool)

mutual

/-- Apply a function to every string value. -/
def mapStrings : Json → Json
  | .str s => .str (f s)
  | .arr xs => .arr (mapStringsElems xs)
  | .obj kvs => .obj (mapStringsMembers kvs)
  | j => j

/-- `mapStrings`, of every element. -/
def mapStringsElems : List Json → List Json
  | [] => []
  | x :: xs => x.mapStrings :: mapStringsElems xs

/-- `mapStrings`, of every member. -/
def mapStringsMembers : List (String × Json) → List (String × Json)
  | [] => []
  | (k, v) :: kvs => (k, v.mapStrings) :: mapStringsMembers kvs

end

mutual

/-- Remove the members with bad keys. -/
def dropKeys : Json → Json
  | .arr xs => .arr (dropKeysElems xs)
  | .obj kvs => .obj (dropKeysMembers kvs)
  | j => j

/-- `dropKeys`, of every element. -/
def dropKeysElems : List Json → List Json
  | [] => []
  | x :: xs => x.dropKeys :: dropKeysElems xs

/-- `dropKeys`, of every member that stays. -/
def dropKeysMembers : List (String × Json) → List (String × Json)
  | [] => []
  | (k, v) :: kvs =>
      if bad k then dropKeysMembers kvs else (k, v.dropKeys) :: dropKeysMembers kvs

end

mutual

/-- The string values, at any depth. -/
def strings : Json → List String
  | .str s => [s]
  | .arr xs => stringsElems xs
  | .obj kvs => stringsMembers kvs
  | _ => []

/-- The string values of the elements. -/
def stringsElems : List Json → List String
  | [] => []
  | x :: xs => x.strings ++ stringsElems xs

/-- The string values of the members. -/
def stringsMembers : List (String × Json) → List String
  | [] => []
  | (_, v) :: kvs => v.strings ++ stringsMembers kvs

end

mutual

/-- The keys, at any depth. -/
def keys : Json → List String
  | .arr xs => keysElems xs
  | .obj kvs => keysMembers kvs
  | _ => []

/-- The keys of the elements. -/
def keysElems : List Json → List String
  | [] => []
  | x :: xs => x.keys ++ keysElems xs

/-- The keys of the members, and their own. -/
def keysMembers : List (String × Json) → List String
  | [] => []
  | (k, v) :: kvs => k :: v.keys ++ keysMembers kvs

end

/-! ## What the functions do to strings and keys -/

mutual

theorem strings_mapStrings : ∀ j : Json, (j.mapStrings f).strings = j.strings.map f
  | .null | .bool _ | .num _ | .str _ => rfl
  | .arr xs => stringsElems_mapStrings xs
  | .obj kvs => stringsMembers_mapStrings kvs

theorem stringsElems_mapStrings : ∀ xs : List Json,
    stringsElems (mapStringsElems f xs) = (stringsElems xs).map f
  | [] => rfl
  | x :: xs => by
      simp only [mapStringsElems, stringsElems, List.map_append, strings_mapStrings x,
        stringsElems_mapStrings xs]

theorem stringsMembers_mapStrings : ∀ kvs : List (String × Json),
    stringsMembers (mapStringsMembers f kvs) = (stringsMembers kvs).map f
  | [] => rfl
  | (k, v) :: kvs => by
      simp only [mapStringsMembers, stringsMembers, List.map_append, strings_mapStrings v,
        stringsMembers_mapStrings kvs]

end

mutual

theorem keys_mapStrings : ∀ j : Json, (j.mapStrings f).keys = j.keys
  | .null | .bool _ | .num _ | .str _ => rfl
  | .arr xs => keysElems_mapStrings xs
  | .obj kvs => keysMembers_mapStrings kvs

theorem keysElems_mapStrings : ∀ xs : List Json, keysElems (mapStringsElems f xs) = keysElems xs
  | [] => rfl
  | x :: xs => by
      simp only [mapStringsElems, keysElems, keys_mapStrings x, keysElems_mapStrings xs]

theorem keysMembers_mapStrings : ∀ kvs : List (String × Json),
    keysMembers (mapStringsMembers f kvs) = keysMembers kvs
  | [] => rfl
  | (k, v) :: kvs => by
      simp only [mapStringsMembers, keysMembers, keys_mapStrings v, keysMembers_mapStrings kvs]

end

mutual

/-- No bad key is left. -/
theorem keys_dropKeys : ∀ j : Json, ∀ k ∈ (j.dropKeys bad).keys, bad k = false
  | .null | .bool _ | .num _ | .str _ => nofun
  | .arr xs => keysElems_dropKeys xs
  | .obj kvs => keysMembers_dropKeys kvs

theorem keysElems_dropKeys : ∀ xs : List Json, ∀ k ∈ keysElems (dropKeysElems bad xs), bad k = false
  | [] => nofun
  | x :: xs => by
      intro k hk
      rcases List.mem_append.mp hk with hk | hk
      · exact keys_dropKeys x k hk
      · exact keysElems_dropKeys xs k hk

theorem keysMembers_dropKeys : ∀ kvs : List (String × Json),
    ∀ k ∈ keysMembers (dropKeysMembers bad kvs), bad k = false
  | [] => nofun
  | (k', v) :: kvs => by
      intro k hk
      rw [dropKeysMembers] at hk
      split at hk
      next => exact keysMembers_dropKeys kvs k hk
      next hgood =>
        rcases List.mem_cons.mp hk with rfl | hk
        · simpa using hgood
        · rcases List.mem_append.mp hk with hk | hk
          · exact keys_dropKeys v k hk
          · exact keysMembers_dropKeys kvs k hk

end

/-! ## What stays as it is -/

section

variable {f bad}

mutual

theorem mapStrings_eq_self : ∀ {j : Json}, (∀ s ∈ j.strings, f s = s) → j.mapStrings f = j
  | .null, _ | .bool _, _ | .num _, _ => rfl
  | .str s, h => congrArg Json.str (h s (List.mem_singleton_self s))
  | .arr _, h => congrArg Json.arr (mapStringsElems_eq_self h)
  | .obj _, h => congrArg Json.obj (mapStringsMembers_eq_self h)

theorem mapStringsElems_eq_self : ∀ {xs : List Json}, (∀ s ∈ stringsElems xs, f s = s) →
    mapStringsElems f xs = xs
  | [], _ => rfl
  | x :: xs, h => by
      rw [mapStringsElems, mapStrings_eq_self fun s hs => h s (List.mem_append_left _ hs),
        mapStringsElems_eq_self fun s hs => h s (List.mem_append_right _ hs)]

theorem mapStringsMembers_eq_self : ∀ {kvs : List (String × Json)},
    (∀ s ∈ stringsMembers kvs, f s = s) → mapStringsMembers f kvs = kvs
  | [], _ => rfl
  | (k, v) :: kvs, h => by
      rw [mapStringsMembers, mapStrings_eq_self fun s hs => h s (List.mem_append_left _ hs),
        mapStringsMembers_eq_self fun s hs => h s (List.mem_append_right _ hs)]

end

mutual

theorem dropKeys_eq_self : ∀ {j : Json}, (∀ k ∈ j.keys, bad k = false) → j.dropKeys bad = j
  | .null, _ | .bool _, _ | .num _, _ | .str _, _ => rfl
  | .arr _, h => congrArg Json.arr (dropKeysElems_eq_self h)
  | .obj _, h => congrArg Json.obj (dropKeysMembers_eq_self h)

theorem dropKeysElems_eq_self : ∀ {xs : List Json}, (∀ k ∈ keysElems xs, bad k = false) →
    dropKeysElems bad xs = xs
  | [], _ => rfl
  | x :: xs, h => by
      rw [dropKeysElems, dropKeys_eq_self fun k hk => h k (List.mem_append_left _ hk),
        dropKeysElems_eq_self fun k hk => h k (List.mem_append_right _ hk)]

theorem dropKeysMembers_eq_self : ∀ {kvs : List (String × Json)},
    (∀ k ∈ keysMembers kvs, bad k = false) → dropKeysMembers bad kvs = kvs
  | [], _ => rfl
  | (k, v) :: kvs, h => by
      have hk : bad k = false := h k (List.mem_cons_self ..)
      rw [dropKeysMembers, if_neg (by simp [hk]),
        dropKeys_eq_self fun k hk => h k (List.mem_cons_of_mem _ (List.mem_append_left _ hk)),
        dropKeysMembers_eq_self fun k hk => h k (List.mem_cons_of_mem _ (List.mem_append_right _ hk))]

end

/-- A value is left as it is if and only if it has no bad keys and the function fixes its
strings. -/
theorem mapStrings_dropKeys_eq_iff {j : Json} : (j.dropKeys bad).mapStrings f = j ↔
    (∀ s ∈ j.strings, f s = s) ∧ ∀ k ∈ j.keys, bad k = false := by
  constructor
  · intro h
    have hkeys : (j.dropKeys bad).keys = j.keys := by
      rw [← keys_mapStrings f, h]
    have hgood : ∀ k ∈ j.keys, bad k = false := hkeys ▸ keys_dropKeys bad j
    rw [dropKeys_eq_self hgood] at h
    have hmap : j.strings.map f = j.strings.map id := by
      rw [← strings_mapStrings, h, List.map_id]
    exact ⟨List.map_inj_left.mp hmap, hgood⟩
  · rintro ⟨hfix, hgood⟩
    rw [dropKeys_eq_self hgood, mapStrings_eq_self hfix]

end

end Json
