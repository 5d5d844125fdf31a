import Mathlib

/-!
# JSON values

`serde_json::Value` as a tree. An object is a list of members in which `Map::insert` replaces the
member of the same key, so that a key occurs at most once; the order of the members is not
modelled (serde_json keeps them ordered by key, and equality of maps ignores how they were built).
Numbers are integers: nothing modelled here computes with them.

* `get_insert`: a lookup after an insert sees the inserted value at its key and the old map
  elsewhere.
* `insert_insert_of_ne`: a member that is inserted again later keeps only the later value, whatever
  was inserted in between.

Reading and writing a value by key, `v["k"]` and `v["k"] = x`, is serde_json's and not part of
the repository: `KeyAccess` carries the two functions with what serde_json documents of them as
fields (`null` where there is no member; `null` made an empty object first; a panic on any other
value that is not an object), and `KeyAccess.index_modifyKey_const` follows from those alone. A
struct reads its fields from an object's members (`field`, `fieldD`).
-/

namespace Json

/-- `serde_json::Value`. -/
inductive Value where
  | null
  | bool (b : Bool)
  | number (n : Int)
  | string (s : String)
  | array (elems : List Value)
  | object (members : List (String × Value))

/-- `Map::insert`: the member replaces any member of the same key. -/
def insert (m : List (String × Value)) (k : String) (v : Value) : List (String × Value) :=
  (k, v) :: m.filter (fun p => p.1 != k)

/-- `Map::get`. -/
def get (m : List (String × Value)) (k : String) : Option Value :=
  m.lookup k

theorem get_filter_of_ne {m : List (String × Value)} {k k' : String} (h : k' ≠ k) :
    get (m.filter (fun p => p.1 != k)) k' = get m k' := by
  induction m with
  | nil => rfl
  | cons p m ih =>
    obtain ⟨j, v⟩ := p
    by_cases hj : j = k
    · subst hj
      simp only [get, List.filter_cons, bne_self_eq_false, Bool.false_eq_true, ↓reduceIte, List.lookup_cons,
        beq_false_of_ne h] at ih ⊢
      exact ih
    · simp only [get, List.filter_cons, bne_iff_ne, ne_eq, hj, not_false_eq_true, ↓reduceIte,
        List.lookup_cons] at ih ⊢
      rw [ih]

theorem get_insert (m : List (String × Value)) (k k' : String) (v : Value) :
    get (insert m k v) k' = if k' = k then some v else get m k' := by
  by_cases h : k' = k
  · subst h
    simp [get, insert]
  · have hcons : get (insert m k v) k' = get (m.filter (fun p => p.1 != k)) k' := by
      simp [get, insert, List.lookup_cons, beq_false_of_ne h]
    rw [if_neg h, hcons, get_filter_of_ne h]

@[simp] theorem get_insert_self (m : List (String × Value)) (k : String) (v : Value) :
    get (insert m k v) k = some v := by
  rw [get_insert, if_pos rfl]

theorem get_insert_of_ne {m : List (String × Value)} {k k' : String} (v : Value) (h : k' ≠ k) :
    get (insert m k v) k' = get m k' := by
  rw [get_insert, if_neg h]

theorem get_filter_self (m : List (String × Value)) (k : String) :
    get (m.filter fun p => p.1 != k) k = none := by
  induction m with
  | nil => rfl
  | cons p m ih =>
    obtain ⟨j, v⟩ := p
    by_cases hj : j = k
    · subst hj
      simpa [List.filter_cons] using ih
    · have hne : (k == j) = false := beq_false_of_ne (Ne.symm hj)
      simp only [get, List.filter_cons, bne_iff_ne, ne_eq, hj, not_false_eq_true, ↓reduceIte,
        List.lookup_cons, hne] at ih ⊢
      exact ih

theorem filter_filter_comm (m : List (String × Value)) (k k' : String) :
    (m.filter (fun p => p.1 != k)).filter (fun p => p.1 != k') =
      (m.filter (fun p => p.1 != k')).filter (fun p => p.1 != k) := by
  simp only [List.filter_filter, Bool.and_comm]

theorem insert_insert_of_ne (m : List (String × Value)) {k k' : String} (v v' v'' : Value) (h : k' ≠ k) :
    insert (insert (insert m k v) k' v') k v'' = insert (insert m k' v') k v'' := by
  have hk : (k != k') = true := bne_iff_ne.2 (Ne.symm h)
  simp only [insert, List.filter_cons, bne_self_eq_false, hk, ↓reduceIte, Bool.false_eq_true]
  rw [filter_filter_comm m k k', List.filter_filter]
  simp only [Bool.and_self]

/-! ## Values by key -/

namespace Value

/-- `Value::as_str`. -/
def asStr : Value → Option String
  | .string s => some s
  | _ => none

/-- `Value::is_null`. -/
def isNull : Value → Bool
  | .null => true
  | _ => false

/-- `as_object_mut().unwrap().remove(k)`: `none` is the panic of the `unwrap` on a value that is
not an object. -/
def removeKey : Value → String → Option Value
  | .object m, k => some (.object (m.filter fun p => p.1 != k))
  | _, _ => none

@[simp] theorem removeKey_object (m : List (String × Value)) (k : String) :
    (Value.object m).removeKey k = some (.object (m.filter fun p => p.1 != k)) := rfl

end Value

/-- `Index` and `IndexMut` of a value by a key, with the behaviour serde_json documents for them.
`index v k` is `v["k"]`: the member, or `null` for a missing key or a value that is not an object.
`modifyKey v k f` is `v["k"]` with `f` applied to the member (`null` where it is missing), so that
`v["k"] = x` is `f := fun _ => some x`: a `null` value is made an empty object first, and on any
other value that is not an object it panics (`none`), as it does where `f` does. -/
structure KeyAccess where
  index : Value → String → Value
  modifyKey : Value → String → (Value → Option Value) → Option Value
  index_object : ∀ m k, index (.object m) k = (get m k).getD .null
  index_of_not_object : ∀ v k, (∀ m, v ≠ .object m) → index v k = .null
  modifyKey_null : ∀ k f, modifyKey .null k f = (f .null).map fun new => .object (insert [] k new)
  modifyKey_object : ∀ m k f,
    modifyKey (.object m) k f = (f ((get m k).getD .null)).map fun new => .object (insert m k new)
  modifyKey_panics : ∀ v k f, v ≠ .null → (∀ m, v ≠ .object m) → modifyKey v k f = none

namespace KeyAccess

variable (json : KeyAccess)

/-- After `v["k"] = x`, `v["k"]` is `x`. -/
theorem index_modifyKey_const {v v' : Value} {k : String} {x : Value}
    (h : json.modifyKey v k (fun _ => some x) = some v') : json.index v' k = x := by
  -- only `null` and an object take the member; every other value panics
  cases v with
  | null =>
    rw [json.modifyKey_null, Option.map_some, Option.some.injEq] at h
    rw [← h, json.index_object, get_insert_self]
    rfl
  | object m =>
    rw [json.modifyKey_object, Option.map_some, Option.some.injEq] at h
    rw [← h, json.index_object, get_insert_self]
    rfl
  | _ => simp [json.modifyKey_panics] at h

end KeyAccess

/-- Removing two keys from a map into which both were inserted last gives what removing them
from the map before gives. -/
theorem filter_insert_insert (m : List (String × Value)) {k k' : String} (v v' : Value)
    (h : k ≠ k') :
    ((insert (insert m k v) k' v').filter fun p => p.1 != k').filter (fun p => p.1 != k) =
      (m.filter fun p => p.1 != k').filter fun p => p.1 != k := by
  have hk : (k != k') = true := bne_iff_ne.2 h
  simp only [insert, List.filter_cons, bne_self_eq_false, hk, ↓reduceIte, Bool.false_eq_true,
    List.filter_filter]
  congr 1
  funext p
  cases p.1 != k <;> cases p.1 != k' <;> rfl

/-- A required field of a struct, read by `read` from the member of its name. -/
def field {α : Type} (m : List (String × Value)) (k : String) (read : Value → Except String α) :
    Except String α :=
  match get m k with
  | some v => read v
  | none => .error ("missing field `" ++ k ++ "`")

/-- A field with a default (`#[serde(default)]`, and `Option` fields). -/
def fieldD {α : Type} (m : List (String × Value)) (k : String) (default : α)
    (read : Value → Except String α) : Except String α :=
  match get m k with
  | some v => read v
  | none => .ok default

theorem field_of_get {α : Type} {m : List (String × Value)} {k : String} {v : Value}
    {read : Value → Except String α} (h : get m k = some v) : field m k read = read v := by
  simp [field, h]

theorem fieldD_of_get {α : Type} {m : List (String × Value)} {k : String} {v : Value} {default : α}
    {read : Value → Except String α} (h : get m k = some v) : fieldD m k default read = read v := by
  simp [fieldD, h]

end Json
