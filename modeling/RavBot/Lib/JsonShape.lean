import RavBot.Lib.Json

/-!
# Shapes of JSON values

A shape says which types the fields of an object have that are there, down to the fields of the objects within.
A reader that takes the fields of an object one after the other, each with a default, succeeds exactly on the
values of a shape (`isSome_bind_iff`, `isSome_value_iff`); and changing the texts in a value leaves its shape
(`fits_map_iff`).
-/

namespace RavBot.Lib

/-- A type that a value is read as. -/
inductive JsonType where
  | int
  | double
  | bool
  | string
  | strings
  deriving DecidableEq, Repr

namespace Json

/-- `get<double>`: a number, and no boolean. -/
def getDouble : Json → Option Rat
  | int n => some n
  | real q => some q
  | _ => none

def objectFields : Json → List (String × Json)
  | obj fields => fields
  | _ => []

def arrayItems : Json → List Json
  | arr items => items
  | _ => []

end Json

/-- A value can be read as a type. -/
def JsonType.holds : JsonType → Json → Bool
  | int, j => j.getInt.isSome
  | double, j => j.getDouble.isSome
  | bool, j => j.getBool.isSome
  | string, j => j.getString.isSome
  | strings, j => j.getStrings.isSome

/-- A shape: a type, an object with fields of some shapes, a value that has such fields if it is an object, or
one whose fields, or items, all have a shape if it is an object, or an array. -/
inductive JsonShape where
  | type (t : JsonType)
  | object (fields : List (String × JsonShape))
  | ifObject (fields : List (String × JsonShape))
  | values (shape : JsonShape)
  | items (shape : JsonShape)

namespace JsonShape

mutual

/-- A value has a shape. -/
def Fits : JsonShape → Json → Prop
  | type t, j => t.holds j = true
  | object fields, j => j.isObject = true ∧ FieldsFit fields j
  | ifObject fields, j => j.isObject = true → FieldsFit fields j
  | values shape, j => ∀ f ∈ j.objectFields, Fits shape f.2
  | items shape, j => ∀ item ∈ j.arrayItems, Fits shape item

/-- The fields that are there have their shapes. -/
def FieldsFit : List (String × JsonShape) → Json → Prop
  | [], _ => True
  | (key, shape) :: fields, j => (∀ v, j.find? key = some v → Fits shape v) ∧ FieldsFit fields j

end

theorem fieldsFit_append {fields fields' : List (String × JsonShape)} {j : Json} :
    FieldsFit (fields ++ fields') j ↔ FieldsFit fields j ∧ FieldsFit fields' j := by
  induction fields with
  | nil => exact (and_iff_right trivial).symm
  | cons f fields ih =>
    obtain ⟨key, shape⟩ := f
    rw [List.cons_append, FieldsFit, FieldsFit, ih, and_assoc]

/-! ## Reading -/

theorem isSome_bind_iff {α β : Type} {x : Option α} {f : α → Option β} {p q : Prop} (hx : x.isSome ↔ p)
    (hf : ∀ a, (f a).isSome ↔ q) : (x >>= f).isSome ↔ p ∧ q := by
  rw [← hx]
  cases x with
  | none => exact iff_of_false (by rintro ⟨⟩) (by rintro ⟨⟨⟩, -⟩)
  | some a => exact (hf a).trans (and_iff_right rfl).symm

theorem isSome_value_iff {α : Type} {get : Json → Option α} {j : Json} (hj : j.isObject = true) {key : String}
    {default : α} : (j.value get key default).isSome ↔ ∀ v, j.find? key = some v → (get v).isSome := by
  cases j with
  | obj fields =>
    rw [Json.value]
    cases hfind : (Json.obj fields).find? key with
    | none => exact iff_of_true rfl (by rintro _ ⟨⟩)
    | some v =>
      constructor
      · rintro h _ ⟨⟩
        exact h
      · intro h
        exact h v rfl
  | _ => cases hj

theorem value_of_not_object {α : Type} {get : Json → Option α} {j : Json} (hj : j.isObject = false) {key : String}
    {default : α} : j.value get key default = none := by
  cases j with
  | obj fields => cases hj
  | _ => rfl

theorem isSome_mapM_iff {α β : Type} {f : α → Option β} {l : List α} :
    (l.mapM f).isSome ↔ ∀ a ∈ l, (f a).isSome := by
  induction l with
  | nil => exact iff_of_true rfl (List.forall_mem_nil _)
  | cons a l ih =>
    rw [List.mapM_cons, List.forall_mem_cons]
    refine isSome_bind_iff Iff.rfl fun b => ?_
    rw [← ih, ← and_true ((l.mapM f).isSome = true)]
    exact isSome_bind_iff Iff.rfl fun _ => iff_of_true rfl trivial

/-! ## Texts that are changed -/

/-- A function that changes texts, at most. -/
structure KeepsShape (g : Json → Json) : Prop where
  obj (fields : List (String × Json)) : g (.obj fields) = .obj (fields.map fun f => (f.1, g f.2))
  arr (items : List Json) : g (.arr items) = .arr (items.map g)
  str (s : String) : ∃ t, g (.str s) = .str t
  other (j : Json) (hobject : j.isObject = false) (harray : ∀ items, j ≠ .arr items) (hstr : ∀ s, j ≠ .str s) :
    g j = j

namespace KeepsShape

variable {g : Json → Json} (h : KeepsShape g)

include h

theorem isObject_eq (j : Json) : (g j).isObject = j.isObject := by
  cases j with
  | obj fields => rw [h.obj]; rfl
  | arr items => rw [h.arr]; rfl
  | str s =>
    obtain ⟨t, ht⟩ := h.str s
    rw [ht]
    rfl
  | _ => rw [h.other _ rfl (by rintro _ ⟨⟩) (by rintro _ ⟨⟩)]

theorem find?_eq (j : Json) (key : String) : (g j).find? key = (j.find? key).map g := by
  cases j with
  | obj fields =>
    rw [h.obj]
    show (fields.map fun f => (f.1, g f.2)).lookup key = (fields.lookup key).map g
    induction fields with
    | nil => rfl
    | cons f fields ih =>
      rw [List.map_cons, List.lookup_cons, List.lookup_cons]
      cases key == f.1 with
      | true => rfl
      | false => exact ih
  | arr items => rw [h.arr]; rfl
  | str s =>
    obtain ⟨t, ht⟩ := h.str s
    rw [ht]
    rfl
  | _ =>
    rw [h.other _ rfl (by rintro _ ⟨⟩) (by rintro _ ⟨⟩)]
    rfl

theorem objectFields_eq (j : Json) : (g j).objectFields = j.objectFields.map fun f => (f.1, g f.2) := by
  cases j with
  | obj fields => rw [h.obj]; rfl
  | arr items => rw [h.arr]; rfl
  | str s =>
    obtain ⟨t, ht⟩ := h.str s
    rw [ht]
    rfl
  | _ =>
    rw [h.other _ rfl (by rintro _ ⟨⟩) (by rintro _ ⟨⟩)]
    rfl

theorem arrayItems_eq (j : Json) : (g j).arrayItems = j.arrayItems.map g := by
  cases j with
  | obj fields => rw [h.obj]; rfl
  | arr items => rw [h.arr]; rfl
  | str s =>
    obtain ⟨t, ht⟩ := h.str s
    rw [ht]
    rfl
  | _ =>
    rw [h.other _ rfl (by rintro _ ⟨⟩) (by rintro _ ⟨⟩)]
    rfl

theorem isSome_getString (j : Json) : (g j).getString.isSome = j.getString.isSome := by
  cases j with
  | obj fields => rw [h.obj]; rfl
  | arr items => rw [h.arr]; rfl
  | str s =>
    obtain ⟨t, ht⟩ := h.str s
    rw [ht]
    rfl
  | _ => rw [h.other _ rfl (by rintro _ ⟨⟩) (by rintro _ ⟨⟩)]

theorem holds_eq (t : JsonType) (j : Json) : t.holds (g j) = t.holds j := by
  cases j with
  | obj fields =>
    rw [h.obj]
    cases t <;> rfl
  | arr items =>
    rw [h.arr]
    cases t with
    | strings =>
      rw [Bool.eq_iff_iff]
      show ((items.map g).mapM Json.getString).isSome ↔ (items.mapM Json.getString).isSome
      rw [isSome_mapM_iff, isSome_mapM_iff, List.forall_mem_map]
      exact forall₂_congr fun item _ => by rw [h.isSome_getString]
    | _ => rfl
  | str s =>
    obtain ⟨text, htext⟩ := h.str s
    rw [htext]
    cases t <;> rfl
  | _ => rw [h.other _ rfl (by rintro _ ⟨⟩) (by rintro _ ⟨⟩)]

mutual

theorem fits_map_iff : ∀ (shape : JsonShape) (j : Json), shape.Fits (g j) ↔ shape.Fits j
  | type t, j => by rw [Fits, Fits, h.holds_eq]
  | object fields, j => by rw [Fits, Fits, h.isObject_eq, fieldsFit_map_iff fields j]
  | ifObject fields, j => by rw [Fits, Fits, h.isObject_eq, fieldsFit_map_iff fields j]
  | values shape, j => by
      rw [Fits, Fits, h.objectFields_eq, List.forall_mem_map]
      exact forall₂_congr fun f _ => fits_map_iff shape f.2
  | items shape, j => by
      rw [Fits, Fits, h.arrayItems_eq, List.forall_mem_map]
      exact forall₂_congr fun item _ => fits_map_iff shape item

theorem fieldsFit_map_iff : ∀ (fields : List (String × JsonShape)) (j : Json),
    FieldsFit fields (g j) ↔ FieldsFit fields j
  | [], j => Iff.rfl
  | (key, shape) :: fields, j => by
      rw [FieldsFit, FieldsFit, h.find?_eq, fieldsFit_map_iff fields j]
      refine and_congr_left' ?_
      constructor
      · intro hfits v hv
        rw [← fits_map_iff shape v]
        exact hfits (g v) (by rw [hv]; rfl)
      · intro hfits w hw
        obtain ⟨v, hv, rfl⟩ := Option.map_eq_some_iff.1 hw
        exact (fits_map_iff shape v).2 (hfits v hv)

end

end KeepsShape

end JsonShape

end RavBot.Lib
