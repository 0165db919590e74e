import Mathlib.Data.String.Basic
import RavBot.Lib.Json
import RavBot.Lib.Table

/-!
# Tables as JSON objects

A table is written as an object with one field for each key, and read back item by item.  The items are read in
their order, and where one cannot be read, those in front of it are in the table already (`lookup_fill`).  What was
written is read back (`latest_ofTable`).
-/

open List

namespace RavBot.Lib.JsonTable

open Json

variable {κ α : Type} [DecidableEq κ]

/-! ## Writing -/

/-- The object with a field for each key of a table. -/
def ofTable (name : κ → String) (write : α → Json) (t : Table κ α) : Json :=
  Json.object (t.entries.map fun e => (name e.1, write e.2))

theorem sorted_insertField (key : String) (value : Json) {fields : List (String × Json)}
    (h : (fields.map Prod.fst).Pairwise (· < ·)) :
    ((insertField key value fields).map Prod.fst).Pairwise (· < ·) ∧
      ∀ k ∈ (insertField key value fields).map Prod.fst, k = key ∨ k ∈ fields.map Prod.fst := by
  induction fields with
  | nil => exact ⟨pairwise_singleton _ _, fun k hk => .inl (mem_singleton.1 hk)⟩
  | cons field fields ih =>
    obtain ⟨k', v⟩ := field
    rw [map_cons, pairwise_cons] at h
    obtain ⟨hfirst, hrest⟩ := h
    rw [insertField]
    split_ifs with hlt heq
    · refine ⟨pairwise_cons.2 ⟨?_, pairwise_cons.2 ⟨hfirst, hrest⟩⟩, fun k hk => mem_cons.1 hk⟩
      intro k hk
      rcases mem_cons.1 hk with rfl | hk
      · exact hlt
      · exact hlt.trans (hfirst k hk)
    · subst heq
      exact ⟨pairwise_cons.2 ⟨hfirst, hrest⟩, fun k hk => .inr hk⟩
    · obtain ⟨hsorted, hkeys⟩ := ih hrest
      refine ⟨pairwise_cons.2 ⟨fun k hk => ?_, hsorted⟩, fun k hk => ?_⟩
      · rcases hkeys k hk with rfl | hk
        · exact lt_of_le_of_ne (not_lt.1 hlt) (Ne.symm heq)
        · exact hfirst k hk
      · rcases mem_cons.1 hk with rfl | hk
        · exact .inr mem_cons_self
        · exact (hkeys k hk).imp_right (mem_cons_of_mem _)

theorem sorted_object (fields : List (String × Json)) :
    ((Json.object fields).items.map Prod.fst).Pairwise (· < ·) := by
  rw [Json.object, items]
  induction fields using List.reverseRecOn with
  | nil => exact List.Pairwise.nil
  | append_singleton fields field ih =>
    rw [foldl_append]
    exact (sorted_insertField field.1 field.2 ih).1

theorem lookup_eq_some_iff {fields : List (String × Json)} (hkeys : (fields.map Prod.fst).Nodup)
    {key : String} {value : Json} : fields.lookup key = some value ↔ (key, value) ∈ fields := by
  induction fields with
  | nil => simp
  | cons field fields ih =>
    obtain ⟨k, v⟩ := field
    rw [map_cons, nodup_cons] at hkeys
    rw [lookup_cons, mem_cons]
    by_cases heq : key = k
    · subst heq
      rw [beq_self_eq_true]
      dsimp only
      rw [Option.some.injEq, or_iff_left, Prod.mk.injEq, and_iff_right rfl, eq_comm]
      exact fun hmem => hkeys.1 (mem_map.2 ⟨_, hmem, rfl⟩)
    · rw [beq_eq_false_iff_ne.2 heq]
      dsimp only
      rw [ih hkeys.2, or_iff_right]
      exact fun h => heq (Prod.mk.inj h).1

section Writing

variable {name : κ → String} (hname : Function.Injective name) (write : α → Json) (t : Table κ α)

include hname

omit [DecidableEq κ] in
theorem nodup_keys : ((t.entries.map fun e => (name e.1, write e.2)).map Prod.fst).Nodup := by
  have hkeys : (t.entries.map fun e => (name e.1, write e.2)).map Prod.fst = t.entries.keys.map name := by
    rw [List.keys, map_map, map_map]
    rfl
  rw [hkeys]
  exact t.nodupKeys.map hname

theorem mem_items_ofTable {key : String} {value : Json} :
    (key, value) ∈ (ofTable name write t).items ↔ ∃ k a, t.lookup k = some a ∧ name k = key ∧ write a = value := by
  have hsorted : ((ofTable name write t).items.map Prod.fst).Pairwise (· < ·) := sorted_object _
  have hkeys : ((t.entries.map fun e => (name e.1, write e.2)).reverse.map Prod.fst).Nodup := by
    rw [map_reverse, nodup_reverse]
    exact nodup_keys hname write t
  rw [← lookup_eq_some_iff (hsorted.imp ne_of_lt)]
  refine Iff.trans (b := (ofTable name write t).find? key = some value) Iff.rfl ?_
  rw [ofTable, Json.find?_object, lookup_eq_some_iff hkeys, mem_reverse, mem_map]
  constructor
  · rintro ⟨⟨k, a⟩, hmem, heq⟩
    cases heq
    exact ⟨k, a, AList.mem_lookup_iff.2 hmem, rfl, rfl⟩
  · rintro ⟨k, a, hlookup, rfl, rfl⟩
    exact ⟨⟨k, a⟩, AList.mem_lookup_iff.1 hlookup, rfl⟩

theorem isUtf8_ofTable :
    (ofTable name write t).isUtf8 = true ↔
      ∀ k a, t.lookup k = some a → Text.validUtf8 (name k) = true ∧ (write a).isUtf8 = true := by
  rw [ofTable, Json.isUtf8_object (nodup_keys hname write t), all_eq_true]
  constructor
  · intro h k a hlookup
    have hmem : (name k, write a) ∈ t.entries.map fun e => (name e.1, write e.2) :=
      mem_map.2 ⟨⟨k, a⟩, AList.mem_lookup_iff.1 hlookup, rfl⟩
    exact (Bool.and_eq_true _ _).mp (h _ hmem)
  · intro h field hmem
    obtain ⟨⟨k, a⟩, hentry, rfl⟩ := mem_map.1 hmem
    exact (Bool.and_eq_true _ _).mpr (h k a (AList.mem_lookup_iff.2 hentry))

end Writing

/-! ## Reading -/

variable (read : String × Json → Option (κ × α))

/-- Read items into a table, up to one that cannot be read, and say whether all could be. -/
def fill : List (String × Json) → Table κ α → Table κ α × Bool
  | [], t => (t, true)
  | item :: items, t =>
    match read item with
    | some entry => fill items (t.insert entry.1 entry.2)
    | none => (t, false)

/-- What is read of the items in front of the first that cannot be read. -/
def front : List (String × Json) → List (κ × α)
  | [] => []
  | item :: items =>
    match read item with
    | some entry => entry :: front items
    | none => []

/-- The last value that is read for a key. -/
def latest (entries : List (κ × α)) (k : κ) : Option α := (entries.reverse.find? (·.1 = k)).map (·.2)

theorem fill_eq (items : List (String × Json)) (t : Table κ α) :
    fill read items t = ((front read items).foldl (fun t entry => AList.insert entry.1 entry.2 t) t,
      items.all fun item => (read item).isSome) := by
  induction items generalizing t with
  | nil => rfl
  | cons item items ih =>
    rw [fill, front, all_cons]
    cases read item with
    | none => rfl
    | some entry => exact ih _

theorem lookup_fill (items : List (String × Json)) (t : Table κ α) (k : κ) :
    (fill read items t).1.lookup k = (latest (front read items) k).or (t.lookup k) := by
  rw [fill_eq]
  exact Table.lookup_foldl_insert_last Prod.fst Prod.snd _ t k

theorem fill_snd_iff (items : List (String × Json)) (t : Table κ α) :
    (fill read items t).2 = true ↔ ∀ item ∈ items, (read item).isSome := by
  rw [fill_eq]
  exact all_eq_true

variable {read}

omit [DecidableEq κ] in
theorem mem_front {items : List (String × Json)} (h : ∀ item ∈ items, (read item).isSome) {entry : κ × α} :
    entry ∈ front read items ↔ ∃ item ∈ items, read item = some entry := by
  induction items with
  | nil => simp [front]
  | cons item items ih =>
    rw [forall_mem_cons] at h
    obtain ⟨entry', hread⟩ := Option.isSome_iff_exists.1 h.1
    rw [front, hread]
    simp [ih h.2, hread, eq_comm]

theorem latest_eq {entries : List (κ × α)} {value : κ → Option α}
    (h : ∀ k a, (k, a) ∈ entries ↔ value k = some a) (k : κ) : latest entries k = value k := by
  rw [latest]
  cases hfound : entries.reverse.find? (·.1 = k) with
  | none =>
    rw [find?_eq_none] at hfound
    refine (Option.eq_none_iff_forall_ne_some.2 fun a ha => ?_).symm
    exact hfound (k, a) (mem_reverse.2 ((h k a).2 ha)) (decide_eq_true rfl)
  | some entry =>
    obtain ⟨k', a⟩ := entry
    have hkey : k' = k := by
      have hfst := find?_some hfound
      exact of_decide_eq_true hfst
    subst hkey
    exact ((h k' a).1 (mem_reverse.1 (mem_of_find?_eq_some hfound))).symm

/-! ## Writing and reading -/

section RoundTrip

variable {β : Type} {name : κ → String} (hname : Function.Injective name) {write : α → Json} {t : Table κ α}
  {read : String × Json → Option (κ × β)} {f : α → β} (hread : ∀ k a, read (name k, write a) = some (k, f a))

include hname hread

theorem readable_ofTable : ∀ item ∈ (ofTable name write t).items, (read item).isSome := by
  rintro ⟨key, value⟩ hitem
  obtain ⟨k, a, -, rfl, rfl⟩ := (mem_items_ofTable hname write t).1 hitem
  rw [hread]
  rfl

theorem latest_ofTable (k : κ) : latest (front read (ofTable name write t).items) k = (t.lookup k).map f := by
  have hfront (k : κ) (b : β) : (k, b) ∈ front read (ofTable name write t).items ↔ (t.lookup k).map f = some b := by
    rw [mem_front (readable_ofTable hname hread), Option.map_eq_some_iff]
    constructor
    · rintro ⟨⟨key, value⟩, hitem, heq⟩
      obtain ⟨k', a, hlookup, rfl, rfl⟩ := (mem_items_ofTable hname write t).1 hitem
      cases (hread k' a).symm.trans heq
      exact ⟨a, hlookup, rfl⟩
    · rintro ⟨a, hlookup, rfl⟩
      exact ⟨_, (mem_items_ofTable hname write t).2 ⟨k, a, hlookup, rfl, rfl⟩, hread k a⟩
  exact latest_eq hfront k

end RoundTrip

end RavBot.Lib.JsonTable
