import RavBot.Lib.Text
import Mathlib.Data.Rat.Defs
import Mathlib.Data.List.Forall2

/-!
# JSON values

A model of `nlohmann::json`.  An object is the list of its fields in the order of their
keys, as `std::map` keeps them; integers are exact, and a number with a fraction or an
exponent is a rational.  An access that throws returns `none`.
-/

open List

namespace RavBot.Lib

/-- A JSON value. -/
inductive Json where
  | null
  | bool (b : Bool)
  | int (n : Int)
  | real (q : Rat)
  | str (s : String)
  | arr (items : List Json)
  | obj (fields : List (String × Json))
  deriving Inhabited, Repr, BEq

namespace Json

/-- Set a field in a list of fields, keeping the order of the keys. -/
def insertField (key : String) (value : Json) : List (String × Json) → List (String × Json)
  | [] => [(key, value)]
  | (k, v) :: fields =>
    if key < k then (key, value) :: (k, v) :: fields
    else if key = k then (key, value) :: fields
    else (k, v) :: insertField key value fields

/-- `j[key] = value`.  A null becomes an object; any other value that is no object makes
`operator[]` throw. -/
def set (j : Json) (key : String) (value : Json) : Option Json :=
  match j with
  | null => some (obj [(key, value)])
  | obj fields => some (obj (insertField key value fields))
  | _ => none

/-- `find`: the value of a field.  A value that is no object has no fields. -/
def find? (j : Json) (key : String) : Option Json :=
  match j with
  | obj fields => fields.lookup key
  | _ => none

def isObject : Json → Bool
  | obj _ => true
  | _ => false

def isNull : Json → Bool
  | null => true
  | _ => false

/-- `empty`. -/
def isEmpty : Json → Bool
  | null => true
  | arr items => items.isEmpty
  | obj fields => fields.isEmpty
  | _ => false

/-- `get<std::string>`. -/
def getString : Json → Option String
  | str s => some s
  | _ => none

def getBool : Json → Option Bool
  | bool b => some b
  | _ => none

/-- The 32-bit signed integer with the low bits of `n`. -/
def toInt32 (n : Int) : Int := n.bmod (2 ^ 32)

/-- `get<int>`: any number, or a boolean, converted to `int`. -/
def getInt : Json → Option Int
  | int n => some (toInt32 n)
  | real q => some (toInt32 (q.num.tdiv q.den))
  | bool b => some (if b then 1 else 0)
  | _ => none

/-- The 64-bit signed integer with the low bits of `n`. -/
def toInt64 (n : Int) : Int := n.bmod (2 ^ 64)

/-- `get<int64_t>`: any number, or a boolean, converted to `int64_t`. -/
def getInt64 : Json → Option Int
  | int n => some (toInt64 n)
  | real q => some (toInt64 (q.num.tdiv q.den))
  | bool b => some (if b then 1 else 0)
  | _ => none

/-- `get<std::vector<std::string>>`. -/
def getStrings : Json → Option (List String)
  | arr items => items.mapM getString
  | _ => none

/-- `value`: the field, converted by `get`, or the default where there is no such field.
Throws when `j` is no object or the field has the wrong type. -/
def value {α : Type} (get : Json → Option α) (j : Json) (key : String) (default : α) :
    Option α :=
  match j with
  | obj _ =>
    match j.find? key with
    | some v => get v
    | none => some default
  | _ => none

/-- The object that results when fields are set one after the other. -/
def object (fields : List (String × Json)) : Json :=
  obj (fields.foldl (fun acc f => insertField f.1 f.2 acc) [])

def contains (j : Json) (key : String) : Bool := (j.find? key).isSome

/-- `items`: the fields of an object in the order of their keys, or the items of an array under
their positions; a value that is neither is one item, and null is none. -/
def items : Json → List (String × Json)
  | obj fields => fields
  | arr items => items.zipIdx.map fun (j, i) => (toString i, j)
  | null => []
  | j => [("", j)]

/-! ## Serializing

The text that `dump` returns is not modelled as bytes: it stands for the value that `parse`
reads back from it, which is the dumped one. -/

mutual

/-- Whether all strings in a value are UTF-8, the keys of objects included. -/
def isUtf8 : Json → Bool
  | str s => Text.validUtf8 s
  | arr items => allUtf8 items
  | obj fields => fieldsUtf8 fields
  | _ => true

/-- Whether all strings in the items of an array are UTF-8. -/
def allUtf8 : List Json → Bool
  | [] => true
  | j :: items => isUtf8 j && allUtf8 items

/-- Whether all strings in the fields of an object are UTF-8. -/
def fieldsUtf8 : List (String × Json) → Bool
  | [] => true
  | (key, j) :: fields => Text.validUtf8 key && isUtf8 j && fieldsUtf8 fields

end

/-- `dump`: throws when a string is not UTF-8. -/
def dump (j : Json) : Option Json := if j.isUtf8 then some j else none

/-! ## Depth -/

mutual

/-- How deep arrays and objects are nested in a value. -/
def depth : Json → Nat
  | arr items => itemsDepth items + 1
  | obj fields => fieldsDepth fields + 1
  | _ => 0

/-- The depth of the deepest item of an array. -/
def itemsDepth : List Json → Nat
  | [] => 0
  | j :: items => max (depth j) (itemsDepth items)

/-- The depth of the deepest field of an object. -/
def fieldsDepth : List (String × Json) → Nat
  | [] => 0
  | (_, j) :: fields => max (depth j) (fieldsDepth fields)

end

theorem depth_lt_of_mem {j : Json} {items : List Json} (h : j ∈ items) : j.depth < (arr items).depth := by
  have hle : j.depth ≤ itemsDepth items := by
    induction items with
    | nil => cases h
    | cons item items ih =>
      rw [itemsDepth]
      rcases mem_cons.1 h with rfl | h
      · exact le_max_left _ _
      · exact (ih h).trans (le_max_right _ _)
  rw [depth]
  exact Nat.lt_succ_of_le hle

theorem depth_lt_of_find? {j v : Json} {key : String} (h : j.find? key = some v) : v.depth < j.depth := by
  cases j with
  | obj fields =>
    have hle : v.depth ≤ fieldsDepth fields := by
      change fields.lookup key = some v at h
      induction fields with
      | nil => cases h
      | cons field fields ih =>
        obtain ⟨key', j'⟩ := field
        rw [fieldsDepth]
        rw [lookup_cons] at h
        split at h
        · cases h
          exact le_max_left _ _
        · exact (ih h).trans (le_max_right _ _)
    rw [depth]
    exact Nat.lt_succ_of_le hle
  | _ => cases h

/-! ## Fields -/

theorem lookup_insertField (k k' : String) (v : Json) (fields : List (String × Json)) :
    (insertField k v fields).lookup k' = if k' = k then some v else fields.lookup k' := by
  induction fields with
  | nil =>
    rw [insertField, lookup_cons]
    split <;> simp_all
  | cons hd fields ih =>
    obtain ⟨key, value⟩ := hd
    rw [insertField]
    by_cases h : k' = k
    · subst h
      rw [if_pos rfl] at ih ⊢
      split_ifs with hlt hkey
      · simp
      · simp
      · have hne : (k' == key) = false := beq_eq_false_iff_ne.2 hkey
        simp [lookup_cons, hne, ih]
    · have hne : (k' == k) = false := beq_eq_false_iff_ne.2 h
      rw [if_neg h] at ih ⊢
      split_ifs with hlt hkey
      · simp [lookup_cons, hne]
      · subst hkey
        simp [lookup_cons, hne]
      · simp [lookup_cons, ih]

@[simp] theorem find?_object (fields : List (String × Json)) (key : String) :
    (object fields).find? key = fields.reverse.lookup key := by
  rw [object, find?]
  induction fields using List.reverseRecOn with
  | nil => rfl
  | append_singleton fields f ih =>
    obtain ⟨k, v⟩ := f
    rw [foldl_append, foldl_cons, foldl_nil, lookup_insertField, ih,
      reverse_append, reverse_singleton, singleton_append, lookup_cons]
    by_cases h : key = k
    · simp [h]
    · have hne : (key == k) = false := beq_eq_false_iff_ne.2 h
      simp [h, hne]

@[simp] theorem value_object {α : Type} (get : Json → Option α) (fields : List (String × Json))
    (key : String) (default : α) :
    (object fields).value get key default =
      match fields.reverse.lookup key with
      | some v => get v
      | none => some default := by
  rw [← find?_object]
  rfl

@[simp] theorem contains_object (fields : List (String × Json)) (key : String) :
    (object fields).contains key = (fields.reverse.lookup key).isSome := by
  rw [contains, find?_object]

theorem fieldsUtf8_insertField {key : String} {fields : List (String × Json)}
    (h : fields.lookup key = none) (v : Json) :
    fieldsUtf8 (insertField key v fields) =
      (Text.validUtf8 key && v.isUtf8 && fieldsUtf8 fields) := by
  induction fields with
  | nil => rfl
  | cons hd fields ih =>
    obtain ⟨k, w⟩ := hd
    have hne : (key == k) = false := by
      rw [lookup_cons] at h
      revert h
      cases key == k <;> simp
    rw [lookup_cons, hne] at h
    rw [insertField]
    split_ifs with hlt hkey
    · rfl
    · exact absurd hkey (beq_eq_false_iff_ne.1 hne)
    · rw [fieldsUtf8, ih h, fieldsUtf8]
      ac_rfl

theorem allUtf8_iff {items : List Json} : allUtf8 items = true ↔ ∀ j ∈ items, j.isUtf8 = true := by
  induction items with
  | nil => exact iff_of_true rfl nofun
  | cons j items ih => rw [allUtf8, Bool.and_eq_true, ih, forall_mem_cons]

theorem isUtf8_object {fields : List (String × Json)} (hnodup : (fields.map Prod.fst).Nodup) :
    (object fields).isUtf8 = fields.all fun f => Text.validUtf8 f.1 && f.2.isUtf8 := by
  rw [object, isUtf8]
  induction fields using List.reverseRecOn with
  | nil => rfl
  | append_singleton fields f ih =>
    rw [map_append, nodup_append] at hnodup
    have hnew : (fields.foldl (fun acc f => insertField f.1 f.2 acc) []).lookup f.1 = none := by
      have := find?_object fields f.1
      rw [object, find?] at this
      rw [this, lookup_eq_none_iff]
      intro g hg
      have hmem : g.1 ∈ fields.map Prod.fst := mem_map_of_mem (mem_reverse.1 hg)
      simpa using (hnodup.2.2 g.1 hmem f.1 (by simp)).symm
    rw [foldl_append, foldl_cons, foldl_nil, fieldsUtf8_insertField hnew,
      ih hnodup.1, all_append, Bool.and_comm]
    simp

end Json

/-! ## Reading lists item by item -/

theorem mapM_eq_some_iff {α β : Type} {f : α → Option β} {l : List α} {r : List β} :
    l.mapM f = some r ↔ List.Forall₂ (fun a b => f a = some b) l r := by
  induction l generalizing r with
  | nil => simp [eq_comm]
  | cons a l ih =>
    rw [mapM_cons, forall₂_cons_left_iff]
    simp only [Option.bind_eq_bind, Option.bind_eq_some_iff, Option.pure_def, Option.some.injEq, ih]
    exact ⟨fun ⟨b, hb, r', hr', h⟩ => ⟨b, r', hb, hr', h.symm⟩,
      fun ⟨b, r', hb, hr', h⟩ => ⟨b, hb, r', hr', h.symm⟩⟩

theorem exists_forall₂ {α β : Type} {R : α → β → Prop} {l : List α} (h : ∀ a ∈ l, ∃ b, R a b) :
    ∃ r, List.Forall₂ R l r := by
  induction l with
  | nil => exact ⟨[], .nil⟩
  | cons a l ih =>
    rw [forall_mem_cons] at h
    obtain ⟨b, hb⟩ := h.1
    obtain ⟨r, hr⟩ := ih h.2
    exact ⟨b :: r, .cons hb hr⟩

theorem exists_of_forall₂ {α β : Type} {R : α → β → Prop} {l : List α} {r : List β}
    (h : List.Forall₂ R l r) : ∀ a ∈ l, ∃ b ∈ r, R a b := by
  induction h with
  | nil => simp
  | cons hab _ ih =>
    rw [forall_mem_cons]
    exact ⟨⟨_, mem_cons_self, hab⟩, fun a ha => (ih a ha).imp fun b hb =>
      ⟨mem_cons_of_mem _ hb.1, hb.2⟩⟩

theorem forall₂_and {α β : Type} {R S : α → β → Prop} {l : List α} {r : List β}
    (hR : List.Forall₂ R l r) (hS : List.Forall₂ S l r) :
    List.Forall₂ (fun a b => R a b ∧ S a b) l r := by
  induction hR with
  | nil => exact .nil
  | cons hab _ ih =>
    cases hS with
    | cons hab' htail => exact .cons ⟨hab, hab'⟩ (ih htail)

end RavBot.Lib
