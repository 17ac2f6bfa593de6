import Mathlib.Data.List.Nodup
import NexusErebus.Data.Assoc
import NexusErebus.Text.Json

/-!
# JSON values as objects in memory

A script holds an array or an object by reference.  A `Store` says what the references stand for,
and a value in it is a scalar or a reference.  The properties of an array are its indices.

`Holds` says that a value in the store is a JSON value.  It lists the references of the value, the
outermost first, and no reference is used twice: `JSON.parse` makes every array and every object
anew.  Whatever is stored at other references makes no difference (`Holds.congr`).
-/

namespace Json

/-- Induction over a value, with the hypothesis for every element and every member. -/
@[elab_as_elim]
theorem induct {P : Json → Prop} (null : P .null) (bool : ∀ b, P (.bool b)) (num : ∀ q, P (.num q))
    (str : ∀ s, P (.str s)) (arr : ∀ xs, (∀ x ∈ xs, P x) → P (.arr xs))
    (obj : ∀ kvs, (∀ kv ∈ kvs, P kv.2) → P (.obj kvs)) : ∀ j, P j
  | .null => null
  | .bool b => bool b
  | .num q => num q
  | .str s => str s
  | .arr xs => arr xs fun x _ => induct null bool num str arr obj x
  | .obj kvs => obj kvs fun kv _ => induct null bool num str arr obj kv.2
decreasing_by
  · rename_i hx
    have := List.sizeOf_lt_of_mem hx
    simp only [Json.arr.sizeOf_spec]
    omega
  · rename_i hkv
    have := List.sizeOf_lt_of_mem hkv
    have hkv : sizeOf kv = 1 + sizeOf kv.1 + sizeOf kv.2 := by cases kv; rfl
    simp only [Json.obj.sizeOf_spec]
    omega

end Json

namespace Objects

abbrev Ref := Nat

/-- What a variable or a property holds. -/
inductive Val where
  | null
  | bool (b : Bool)
  | num (q : ℚ)
  | str (s : String)
  | ref (r : Ref)
  deriving DecidableEq

/-- An array or an object, with its properties in order. -/
structure Node where
  isArray : Bool
  props : List (String × Val)

/-- What the references stand for. -/
abbrev Store := Ref → Option Node

namespace Store

/-- `Object.keys(obj)`. -/
def keys (h : Store) (r : Ref) : List String := ((h r).map fun o => Assoc.keys o.props).getD []

/-- `obj[k]`. -/
def get (h : Store) (r : Ref) (k : String) : Option Val := (h r).bind fun o => o.props.lookup k

/-- `obj[k] = v`. -/
def set (h : Store) (r : Ref) (k : String) (v : Val) : Store :=
  Function.update h r ((h r).map fun o => { o with props := Assoc.set k v o.props })

variable {h : Store} {r : Ref} {o : Node} {k : String} {done todo : List (String × Val)} {v : Val}

theorem get_of_split (hr : h r = some o) (ho : o.props = done ++ (k, v) :: todo)
    (hk : k ∉ Assoc.keys done) : h.get r k = some v := by
  rw [get, hr, Option.bind_some, ho, List.lookup_append, Assoc.lookup_eq_none.mpr hk]
  simp

theorem set_of_split (hr : h r = some o) (ho : o.props = done ++ (k, v) :: todo)
    (hk : k ∉ Assoc.keys done) (v' : Val) :
    h.set r k v' = Function.update h r (some { o with props := done ++ (k, v') :: todo }) := by
  rw [set, hr, Option.map_some, ho, Assoc.set_append hk]

end Store

/-! ## JSON values -/

/-- The elements of an array as properties, of which the first has the given index. -/
def indexed : Nat → List Json → List (String × Json)
  | _, [] => []
  | i, x :: xs => (toString i, x) :: indexed (i + 1) xs

theorem keys_indexed (i : Nat) (xs : List Json) :
    Assoc.keys (indexed i xs) = (List.range' i xs.length).map toString := by
  induction xs generalizing i with
  | nil => rfl
  | cons x xs ih => exact congrArg (toString i :: ·) (ih (i + 1))

theorem nodup_indexed (i : Nat) (xs : List Json) : (Assoc.keys (indexed i xs)).Nodup := by
  rw [keys_indexed]
  refine List.Nodup.map (fun m n h => ?_) List.nodup_range'
  have hdigits : Nat.toDigits 10 m = Nat.toDigits 10 n := String.ofList_inj.mp h
  have hval := congrArg (Nat.ofDigitChars 10 · 0) hdigits
  simpa only [Nat.ofDigitChars_ten_toDigits] using hval

mutual

/-- The value is a JSON value, and these are its references. -/
def Holds (h : Store) : Json → Val → List Ref → Prop
  | .null, v, fp => v = .null ∧ fp = []
  | .bool b, v, fp => v = .bool b ∧ fp = []
  | .num q, v, fp => v = .num q ∧ fp = []
  | .str s, v, fp => v = .str s ∧ fp = []
  | .arr xs, v, fp => ∃ r props fp', v = .ref r ∧ fp = r :: fp' ∧ r ∉ fp' ∧
      h r = some ⟨true, props⟩ ∧ HoldsElems h 0 xs props fp'
  | .obj kvs, v, fp => ∃ r props fp', v = .ref r ∧ fp = r :: fp' ∧ r ∉ fp' ∧
      h r = some ⟨false, props⟩ ∧ (Assoc.keys kvs).Nodup ∧ HoldsMembers h kvs props fp'

/-- The properties are the elements of an array, of which the first has the given index. -/
def HoldsElems (h : Store) : Nat → List Json → List (String × Val) → List Ref → Prop
  | _, [], props, fp => props = [] ∧ fp = []
  | i, x :: xs, props, fp => ∃ v props' fp₁ fp₂, props = (toString i, v) :: props' ∧
      fp = fp₁ ++ fp₂ ∧ fp₁.Disjoint fp₂ ∧ Holds h x v fp₁ ∧ HoldsElems h (i + 1) xs props' fp₂

/-- The properties are the members of an object. -/
def HoldsMembers (h : Store) : List (String × Json) → List (String × Val) → List Ref → Prop
  | [], props, fp => props = [] ∧ fp = []
  | (k, x) :: kvs, props, fp => ∃ v props' fp₁ fp₂, props = (k, v) :: props' ∧
      fp = fp₁ ++ fp₂ ∧ fp₁.Disjoint fp₂ ∧ Holds h x v fp₁ ∧ HoldsMembers h kvs props' fp₂

end

/-- The elements of an array are its members. -/
theorem holdsElems_iff {h : Store} {i : Nat} {xs : List Json} {props : List (String × Val)}
    {fp : List Ref} : HoldsElems h i xs props fp ↔ HoldsMembers h (indexed i xs) props fp := by
  induction xs generalizing i props fp with
  | nil => exact Iff.rfl
  | cons x xs ih => simp only [HoldsElems, indexed, HoldsMembers, ih]

theorem mem_of_mem_indexed {i : Nat} {xs : List Json} {kv : String × Json}
    (h : kv ∈ indexed i xs) : kv.2 ∈ xs := by
  induction xs generalizing i with
  | nil => cases h
  | cons x xs ih =>
      rcases List.mem_cons.mp h with rfl | h
      · exact List.mem_cons_self ..
      · exact List.mem_cons_of_mem _ (ih h)

/-! ## Other references make no difference -/

section

variable {h h' : Store}

theorem HoldsMembers.congr_of {kvs : List (String × Json)} {props : List (String × Val)}
    {fp : List Ref} (hmem : ∀ kv ∈ kvs, ∀ v fp, Holds h kv.2 v fp → (∀ r ∈ fp, h' r = h r) →
      Holds h' kv.2 v fp) (hall : HoldsMembers h kvs props fp) (heq : ∀ r ∈ fp, h' r = h r) :
    HoldsMembers h' kvs props fp := by
  induction kvs generalizing props fp with
  | nil => exact hall
  | cons kv kvs ih =>
      obtain ⟨v, props', fp₁, fp₂, rfl, rfl, hdisj, hv, hrest⟩ := hall
      obtain ⟨heq₁, heq₂⟩ := List.forall_mem_append.mp heq
      obtain ⟨hkv, hkvs⟩ := List.forall_mem_cons.mp hmem
      exact ⟨v, props', fp₁, fp₂, rfl, rfl, hdisj, hkv v fp₁ hv heq₁, ih hkvs hrest heq₂⟩

theorem Holds.congr {j : Json} {v : Val} {fp : List Ref} (hj : Holds h j v fp)
    (heq : ∀ r ∈ fp, h' r = h r) : Holds h' j v fp := by
  induction j using Json.induct generalizing v fp with
  | null => exact hj
  | bool b => exact hj
  | num q => exact hj
  | str s => exact hj
  | arr xs ih =>
      obtain ⟨r, props, fp', rfl, rfl, hr, hnode, hall⟩ := hj
      obtain ⟨heqr, heq⟩ := List.forall_mem_cons.mp heq
      refine ⟨r, props, fp', rfl, rfl, hr, heqr.trans hnode, ?_⟩
      rw [holdsElems_iff] at hall ⊢
      exact hall.congr_of (fun kv hkv v fp => ih kv.2 (mem_of_mem_indexed hkv)) heq
  | obj kvs ih =>
      obtain ⟨r, props, fp', rfl, rfl, hr, hnode, hnodup, hall⟩ := hj
      obtain ⟨heqr, heq⟩ := List.forall_mem_cons.mp heq
      exact ⟨r, props, fp', rfl, rfl, hr, heqr.trans hnode, hnodup,
        hall.congr_of (fun kv hkv v fp => ih kv hkv) heq⟩

theorem HoldsMembers.congr {kvs : List (String × Json)} {props : List (String × Val)}
    {fp : List Ref} (hall : HoldsMembers h kvs props fp) (heq : ∀ r ∈ fp, h' r = h r) :
    HoldsMembers h' kvs props fp :=
  hall.congr_of (fun _ _ _ _ => Holds.congr) heq

end

end Objects
