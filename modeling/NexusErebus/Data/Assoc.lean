import Mathlib.Data.List.Basic

/-!
# Association lists that keep their order

A script's `Map`, a plain object and a Redis hash are all finite maps that remember
the order in which their keys were first set.  Here such a map is a list of pairs.
It is read with `List.lookup`.  `set` replaces the value of a key where it stands,
and puts a new key at the end.  `erase` removes a key.

Each operation has one lemma that says what a lookup finds afterwards.
-/

namespace Assoc

variable {κ β : Type} [DecidableEq κ]

/-- Set the value of a key. -/
def set (k : κ) (v : β) : List (κ × β) → List (κ × β)
  | [] => [(k, v)]
  | (k', v') :: l => if k' = k then (k, v) :: l else (k', v') :: set k v l

/-- Set the values of several keys, one after the other. -/
def setAll (l : List (κ × β)) (kvs : List (κ × β)) : List (κ × β) :=
  kvs.foldl (fun l kv => set kv.1 kv.2 l) l

/-- Remove a key. -/
def erase (k : κ) (l : List (κ × β)) : List (κ × β) := l.filter fun kv => kv.1 ≠ k

/-- Change the value of a key, if it has one. -/
def modify (k : κ) (f : β → β) (l : List (κ × β)) : List (κ × β) :=
  l.map fun kv => if kv.1 = k then (kv.1, f kv.2) else kv

theorem set_ne_nil (k : κ) (v : β) (l : List (κ × β)) : set k v l ≠ [] := by
  cases l with
  | nil => simp [set]
  | cons kv l =>
      simp only [set]
      split <;> simp

theorem setAll_cons (l : List (κ × β)) (kv : κ × β) (kvs : List (κ × β)) :
    setAll l (kv :: kvs) = setAll (set kv.1 kv.2 l) kvs := rfl

theorem setAll_ne_nil : ∀ {kvs l : List (κ × β)}, l ≠ [] → setAll l kvs ≠ []
  | [], _, h => h
  | kv :: kvs, l, _ => (setAll_ne_nil (set_ne_nil kv.1 kv.2 l) : setAll _ kvs ≠ [])

/-- The keys, in order. -/
def keys (l : List (κ × β)) : List κ := l.map Prod.fst

theorem keys_set_of_mem {k : κ} (v : β) : ∀ {l : List (κ × β)}, k ∈ keys l →
    keys (set k v l) = keys l
  | [], h => by simp [keys] at h
  | (j, w) :: l, h => by
      by_cases hj : j = k
      · simp [set, keys, hj]
      · have hk : k ∈ keys l := (List.mem_cons.mp h).resolve_left fun he => hj he.symm
        have ih := keys_set_of_mem v hk
        simp only [set, hj, if_false]
        simp only [keys, List.map_cons] at ih ⊢
        rw [ih]

theorem keys_set_of_not_mem {k : κ} (v : β) : ∀ {l : List (κ × β)}, k ∉ keys l →
    keys (set k v l) = keys l ++ [k]
  | [], _ => rfl
  | (j, w) :: l, h => by
      have hj : j ≠ k := fun he => h (he ▸ List.mem_cons_self ..)
      have ih := keys_set_of_not_mem v fun hk => h (List.mem_cons_of_mem _ hk)
      simp only [keys, set, if_neg hj, List.map_cons, List.cons_append] at ih ⊢
      rw [ih]

theorem set_append {k : κ} {l : List (κ × β)} (h : k ∉ keys l) (v v' : β) (l' : List (κ × β)) :
    set k v' (l ++ (k, v) :: l') = l ++ (k, v') :: l' := by
  induction l with
  | nil => simp [set]
  | cons kv l ih =>
      obtain ⟨hne, hl⟩ := not_or.mp (mt List.mem_cons.mpr h)
      rw [List.cons_append, set, if_neg (Ne.symm hne), ih hl]
      rfl

theorem nodup_keys_set {l : List (κ × β)} (h : (keys l).Nodup) (k : κ) (v : β) :
    (keys (set k v l)).Nodup := by
  by_cases hk : k ∈ keys l
  · rwa [keys_set_of_mem v hk]
  · rw [keys_set_of_not_mem v hk]
    refine List.nodup_append.mpr ⟨h, List.pairwise_singleton .., fun a ha b hb he => hk ?_⟩
    rwa [← List.mem_singleton.mp hb, ← he]

theorem mem_set {k : κ} {v : β} {kv : κ × β} : ∀ {l : List (κ × β)}, kv ∈ set k v l →
    kv = (k, v) ∨ kv ∈ l
  | [], h => .inl (List.mem_singleton.mp h)
  | (j, w) :: l, h => by
      rw [set] at h
      split at h
      · exact (List.mem_cons.mp h).imp_right (List.mem_cons_of_mem _)
      · rcases List.mem_cons.mp h with rfl | h
        · exact .inr (List.mem_cons_self ..)
        · exact (mem_set h).imp_right (List.mem_cons_of_mem _)

theorem nodup_keys_erase {l : List (κ × β)} (h : (keys l).Nodup) (k : κ) :
    (keys (erase k l)).Nodup :=
  h.sublist (List.Sublist.map _ List.filter_sublist)

omit [DecidableEq κ] in
theorem keys_map {γ : Type} (f : β → γ) (l : List (κ × β)) :
    keys (l.map fun kv => (kv.1, f kv.2)) = keys l := by
  simp [keys, Function.comp_def]

/-! ## Lookups -/

variable [BEq κ] [LawfulBEq κ]

theorem lookup_cons (k k' : κ) (v : β) (l : List (κ × β)) :
    ((k', v) :: l).lookup k = if k' = k then some v else l.lookup k := by
  by_cases h : k' = k
  · simp [h]
  · have hne : (k == k') = false := by simpa using fun he => h he.symm
    simp [List.lookup_cons, hne, h]

theorem lookup_set (k k' : κ) (v : β) : ∀ l : List (κ × β),
    (set k v l).lookup k' = if k = k' then some v else l.lookup k'
  | [] => by simp [set, lookup_cons]
  | (j, w) :: l => by
      have ih := lookup_set k k' v l
      by_cases hj : j = k
      · subst hj
        simp only [set, if_true, lookup_cons]
        split <;> rfl
      · simp only [set, hj, if_false, lookup_cons, ih]
        by_cases hk : k = k'
        · subst hk
          simp [hj]
        · simp [hk]

@[simp] theorem lookup_set_self (k : κ) (v : β) (l : List (κ × β)) :
    (set k v l).lookup k = some v := by
  simp [lookup_set]

theorem lookup_set_ne {k k' : κ} (h : k ≠ k') (v : β) (l : List (κ × β)) :
    (set k v l).lookup k' = l.lookup k' := by
  simp [lookup_set, h]

/-- The last value a list of settings gives a key, or the one from before. -/
theorem lookup_setAll (k : κ) : ∀ (kvs l : List (κ × β)),
    (setAll l kvs).lookup k = (kvs.reverse.lookup k).or (l.lookup k)
  | [], l => by simp [setAll]
  | (j, v) :: kvs, l => by
      rw [setAll_cons, lookup_setAll k kvs, lookup_set, List.reverse_cons, List.lookup_append]
      by_cases h : j = k
      · subst h
        simp
      · have hne : (k == j) = false := by simpa using fun he => h he.symm
        simp [h, hne, List.lookup_cons]

theorem lookup_erase (k k' : κ) : ∀ l : List (κ × β),
    (erase k l).lookup k' = if k = k' then none else l.lookup k'
  | [] => by simp [erase]
  | (j, w) :: l => by
      have ih := lookup_erase k k' l
      by_cases hj : j = k
      · subst hj
        have he : erase j ((j, w) :: l) = erase j l := by simp [erase]
        rw [he, ih, lookup_cons]
        split <;> rfl
      · have he : erase k ((j, w) :: l) = (j, w) :: erase k l := by simp [erase, hj]
        rw [he, lookup_cons, ih, lookup_cons]
        by_cases hk : k = k'
        · subst hk
          simp [hj]
        · simp [hk]

theorem lookup_modify (k k' : κ) (f : β → β) : ∀ l : List (κ × β),
    (modify k f l).lookup k' = if k = k' then (l.lookup k').map f else l.lookup k'
  | [] => by simp [modify]
  | (j, w) :: l => by
      have ih := lookup_modify k k' f l
      have he : modify k f ((j, w) :: l) =
          (if j = k then (j, f w) else (j, w)) :: modify k f l := rfl
      rw [he]
      by_cases hj : j = k
      · subst hj
        simp only [if_true, lookup_cons, ih]
        split <;> simp_all
      · simp only [hj, if_false, lookup_cons, ih]
        by_cases hk : k = k'
        · subst hk
          simp [hj]
        · simp [hk]

/-! ## Lists without repeated keys -/

omit [DecidableEq κ] in
theorem lookup_eq_none {k : κ} {l : List (κ × β)} : l.lookup k = none ↔ k ∉ keys l := by
  rw [List.lookup_eq_none_iff]
  simp only [keys, List.mem_map, not_exists, not_and, bne_iff_ne, ne_eq]
  constructor
  · intro h kv hkv he
    exact absurd he.symm (by simpa using h kv hkv)
  · intro h kv hkv
    simpa using fun he => h kv hkv he.symm

/-- Without repeated keys, a lookup finds what is in the list. -/
theorem lookup_eq_some_iff {k : κ} {v : β} : ∀ {l : List (κ × β)}, (keys l).Nodup →
    (l.lookup k = some v ↔ (k, v) ∈ l)
  | [], _ => iff_of_false nofun List.not_mem_nil
  | (j, w) :: l, h => by
      obtain ⟨hj, hl⟩ := List.nodup_cons.mp h
      have hmem : ∀ v', (j, v') ∉ l := fun v' hv => hj (List.mem_map.mpr ⟨_, hv, rfl⟩)
      rw [lookup_cons, List.mem_cons, Prod.mk.injEq]
      by_cases he : j = k
      · subst he
        simp [hmem, eq_comm]
      · simp [he, Ne.symm he, lookup_eq_some_iff hl]

theorem lookup_reverse (k : κ) : ∀ {l : List (κ × β)}, (keys l).Nodup →
    l.reverse.lookup k = l.lookup k
  | [], _ => rfl
  | (j, v) :: l, h => by
      obtain ⟨hj, hl⟩ := List.nodup_cons.mp h
      rw [List.reverse_cons, List.lookup_append, lookup_reverse k hl, lookup_cons, lookup_cons]
      by_cases he : j = k
      · subst he
        simp [lookup_eq_none.mpr hj]
      · simp [he]

/-- What a lookup finds after several settings of different keys. -/
theorem lookup_setAll_of_nodup (k : κ) {kvs : List (κ × β)} (h : (keys kvs).Nodup)
    (l : List (κ × β)) : (setAll l kvs).lookup k = (kvs.lookup k).or (l.lookup k) := by
  rw [lookup_setAll, lookup_reverse k h]

theorem lookup_map {γ : Type} (f : β → γ) (k : κ) : ∀ l : List (κ × β),
    (l.map fun kv => (kv.1, f kv.2)).lookup k = (l.lookup k).map f
  | [] => rfl
  | (j, v) :: l => by
      rw [List.map_cons, lookup_cons, lookup_cons, lookup_map f k l]
      split <;> rfl

end Assoc
