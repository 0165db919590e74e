import RavBot.Core.ConfigFile
import RavBot.Lib.JsonText
import RavBot.Lib.MergePatch

/-!
# Edits of the configuration file

`SetValue` and `UnsetValue` read the file, walk along the path and write the document.  The walk itself is a lens
(`valueAt_setAt_self`, `setAt_setAt`, `eq_of_valueAt`).  The file is not: it is emptied before the document is
turned into a text, which throws when a string is not UTF-8, and what was written loses commas of its strings when
it is read again.  `lens_iff` says when neither happens.
-/

open List

namespace RavBot.Core

open RavBot.Lib RavBot.Lib.JsonTokens RavBot.Lib.OrderedMap
open RavBot.Lib.JsonTokens.Token
open RavBot.Lib.Json (escapeChar escape unescape)

/-! ## Documents -/

section Documents

variable {v v' root root' : Json} {key : String} {path : List String}

theorem set_set (h : root.set key v = some root') (v' : Json) : root'.set key v' = root.set key v' := by
  have htwice (fields : List (String × Json)) :
      Json.insertField key v' (Json.insertField key v fields) = Json.insertField key v' fields := by
    induction fields with
    | nil => simp [Json.insertField]
    | cons field fields ih =>
      obtain ⟨k, w⟩ := field
      rw [Json.insertField, Json.insertField]
      split_ifs with hlt heq
      · simp [Json.insertField]
      · simp [Json.insertField]
      · rw [Json.insertField, if_neg hlt, if_neg heq, ih]
  cases root with
  | null =>
    cases h
    exact congrArg (some ∘ Json.obj) (htwice [])
  | obj fields =>
    cases h
    exact congrArg (some ∘ Json.obj) (htwice fields)
  | _ => cases h

theorem exists_fields_of_set (h : root.set key v = some root') : ∃ fields, root' = .obj fields := by
  cases root with
  | null =>
    cases h
    exact ⟨_, rfl⟩
  | obj fields =>
    cases h
    exact ⟨_, rfl⟩
  | _ => cases h

theorem exists_fields_of_setAt (h : setAt v path root = some root') : ∃ fields, root' = .obj fields := by
  cases path with
  | nil => cases h
  | cons key parts =>
    cases parts with
    | nil => exact exists_fields_of_set h
    | cons part parts =>
      obtain ⟨child, -, hset⟩ := Option.bind_eq_some_iff.1 h
      exact exists_fields_of_set hset

theorem objectAt_eq {fields : List (String × Json)} (h : root.find? key = some (.obj fields)) :
    objectAt root key = .obj fields := by
  rw [objectAt, h]

theorem isSome_setAt_iff (hpath : path ≠ []) (v root : Json) :
    (setAt v path root).isSome ↔ root.isObject = true ∨ root.isNull = true := by
  have hset (root : Json) (key : String) (v : Json) :
      (root.set key v).isSome ↔ root.isObject = true ∨ root.isNull = true := by
    cases root <;> simp [Json.set, Json.isObject, Json.isNull]
  induction path generalizing root with
  | nil => exact absurd rfl hpath
  | cons key parts ih =>
    cases parts with
    | nil => exact hset root key v
    | cons part parts =>
      have hobject : (objectAt root key).isObject = true := by
        rw [objectAt]
        split <;> rfl
      obtain ⟨child, hchild⟩ := Option.isSome_iff_exists.1 ((ih (cons_ne_nil _ _) _).2 (.inl hobject))
      rw [← hset root key child]
      show ((setAt v (part :: parts) (objectAt root key)).bind _).isSome ↔ _
      rw [hchild]
      rfl

theorem valueAt_setAt_self (h : setAt v path root = some root') : valueAt root' path = some v := by
  induction path generalizing root root' with
  | nil => cases h
  | cons key parts ih =>
    cases parts with
    | nil =>
      rw [valueAt, find?_set h, if_pos rfl]
      rfl
    | cons part parts =>
      obtain ⟨child, hchild, hset⟩ := Option.bind_eq_some_iff.1 h
      rw [valueAt, find?_set hset, if_pos rfl]
      exact ih hchild

theorem setAt_setAt (h : setAt v path root = some root') (v' : Json) : setAt v' path root' = setAt v' path root := by
  induction path generalizing root root' with
  | nil => cases h
  | cons key parts ih =>
    cases parts with
    | nil => exact set_set h v'
    | cons part parts =>
      obtain ⟨child, hchild, hset⟩ := Option.bind_eq_some_iff.1 h
      obtain ⟨fields, rfl⟩ := exists_fields_of_setAt hchild
      have hfind : root'.find? key = some (.obj fields) := by rw [find?_set hset, if_pos rfl]
      show (setAt v' (part :: parts) (objectAt root' key)).bind _ = (setAt v' (part :: parts) _).bind _
      rw [objectAt_eq hfind, ih hchild]
      congr 1
      funext child'
      exact set_set hset child'

theorem Unrelated.cons {path path' : List String} (h : Unrelated path path') (key : String) :
    Unrelated (key :: path) (key :: path') :=
  ⟨fun hpre => h.1 (cons_prefix_cons.1 hpre).2, fun hpre => h.2 (cons_prefix_cons.1 hpre).2⟩

/-- **The laws of the lens leave no choice**: a document with the new value at the path, and with the old values at
the paths that have nothing to do with it, is the one that the walk makes. -/
theorem eq_of_valueAt {doc : Json} (h : setAt v path root = some root') (hroot' : Ordered root') (hdoc : Ordered doc)
    (hself : valueAt doc path = some v) (hrest : ∀ path', Unrelated path path' → valueAt doc path' = valueAt root path') :
    doc = root' := by
  induction path generalizing root root' doc with
  | nil => cases h
  | cons key parts ih =>
    obtain ⟨value, hvalue, hinner⟩ := Option.bind_eq_some_iff.1 hself
    obtain ⟨fields', rfl⟩ := exists_fields_of_setAt h
    -- the other fields are those of the document before
    have hother (k : String) (hk : k ≠ key) : doc.find? k = root.find? k := by
      have hun : Unrelated (key :: parts) [k] :=
        ⟨fun hpre => hk (cons_prefix_cons.1 hpre).1.symm, fun hpre => hk (cons_prefix_cons.1 hpre).1⟩
      have heq := hrest [k] hun
      rw [valueAt, valueAt] at heq
      simpa [valueAt] using heq
    have hsame (k : String) : doc.find? k = (Json.obj fields').find? k := by
      cases parts with
      | nil =>
        rw [find?_set h]
        split_ifs with hk
        · rw [hk, hvalue]
          exact hinner
        · exact hother k hk
      | cons part parts =>
        obtain ⟨child, hchild, hset⟩ := Option.bind_eq_some_iff.1 h
        rw [find?_set hset]
        split_ifs with hk
        · subst hk
          have hfind : (Json.obj fields').find? k = some child := by rw [find?_set hset, if_pos rfl]
          rw [hvalue, ih hchild (hroot'.find? hfind) (hdoc.find? hvalue) hinner fun path' hun => ?_]
          have hne : path' ≠ [] := by
            rintro rfl
            exact hun.2 nil_prefix
          rw [valueAt_objectAt root k hne, ← hrest _ (hun.cons k), valueAt, hvalue]
          rfl
        · exact hother k hk
    cases hdoc with
    | obj hsorted _ =>
      cases hroot' with
      | obj hsorted' _ => rw [Json.eq_of_lookup hsorted hsorted' hsame]
    | _ => cases hvalue

theorem valueAt_unsetAt_self (h : unsetAt path root = some (some root')) : valueAt root' path = none := by
  induction path generalizing root root' with
  | nil => cases h
  | cons key parts ih =>
    cases parts with
    | nil =>
      obtain ⟨j, herase, hj⟩ := Option.map_eq_some_iff.1 h
      cases hj
      cases root with
      | obj fields =>
        cases herase
        have hnone : (fields.filter (·.1 ≠ key)).lookup key = none := by
          refine Json.lookup_eq_none fun field hfield => ?_
          simpa using (mem_filter.1 hfield).2
        rw [valueAt, Json.find?, hnone]
        rfl
      | _ => cases herase
    | cons part parts =>
      rw [unsetAt] at h
      split at h
      next fields hfield =>
        obtain ⟨r, hr, hset⟩ := Option.bind_eq_some_iff.1 h
        cases r with
        | none => cases hset
        | some child =>
          obtain ⟨j, hset, hj⟩ := Option.map_eq_some_iff.1 hset
          cases hj
          rw [valueAt, find?_set hset, if_pos rfl]
          exact ih hr
      next => cases h
      next => exact cons_ne_nil _ _

theorem exists_unsetAt (h : setAt v path root = some root') : ∃ doc, unsetAt path root' = some (some doc) := by
  induction path generalizing root root' with
  | nil => cases h
  | cons key parts ih =>
    obtain ⟨fields', rfl⟩ := exists_fields_of_setAt h
    cases parts with
    | nil => exact ⟨_, rfl⟩
    | cons part parts =>
      obtain ⟨child, hchild, hset⟩ := Option.bind_eq_some_iff.1 h
      obtain ⟨fields, rfl⟩ := exists_fields_of_setAt hchild
      obtain ⟨doc, hdoc⟩ := ih hchild
      have hfind : (Json.obj fields').find? key = some (.obj fields) := by rw [find?_set hset, if_pos rfl]
      refine ⟨.obj (Json.insertField key doc fields'), ?_⟩
      rw [unsetAt, hfind]
      · show (unsetAt (part :: parts) (.obj fields)).bind _ = _
        rw [hdoc]
        rfl
      · exact cons_ne_nil _ _

end Documents

/-! ## The strings of a document -/

/-- A string of the document that an edit at a path leaves. -/
def Beside : List String → Json → String → Prop
  | [], _, _ => False
  | key :: parts, node, s =>
    (∃ k v, k ≠ key ∧ node.find? k = some v ∧ (s = k ∨ s ∈ v.strings)) ∨ Beside parts (objectAt node key) s

section Strings

variable {v root root' : Json} {path : List String} {s : String}

theorem mem_strings_iff {j : Json} (hj : Ordered j) (hobject : j.isObject = true) :
    s ∈ j.strings ↔ ∃ k v, j.find? k = some v ∧ (s = k ∨ s ∈ v.strings) := by
  cases hj with
  | obj hsorted hfields =>
    rw [Json.strings, Json.mem_fieldStrings]
    constructor
    · rintro ⟨⟨k, v⟩, hmem, hs⟩
      exact ⟨k, v, Json.lookup_of_mem hsorted hmem, hs⟩
    · rintro ⟨k, v, hfind, hs⟩
      exact ⟨(k, v), Json.mem_of_lookup hfind, hs⟩
  | _ => cases hobject

theorem mem_strings_setAt (h : setAt v path root = some root') (hroot' : Ordered root') :
    s ∈ root'.strings ↔ s ∈ path ∨ s ∈ v.strings ∨ Beside path root s := by
  induction path generalizing root root' with
  | nil => cases h
  | cons key parts ih =>
    obtain ⟨fields', rfl⟩ := exists_fields_of_setAt h
    -- one field is new, and the others are those of the document before
    have hsplit {child : Json} (hset : root.set key child = some (.obj fields')) :
        s ∈ (Json.obj fields').strings ↔ (s = key ∨ s ∈ child.strings) ∨
          ∃ k w, k ≠ key ∧ root.find? k = some w ∧ (s = k ∨ s ∈ w.strings) := by
      rw [mem_strings_iff hroot' rfl]
      constructor
      · rintro ⟨k, w, hfind, hs⟩
        rw [find?_set hset] at hfind
        split_ifs at hfind with hk
        · cases hfind
          subst hk
          exact .inl hs
        · exact .inr ⟨k, w, hk, hfind, hs⟩
      · rintro (hs | ⟨k, w, hk, hfind, hs⟩)
        · exact ⟨key, child, by rw [find?_set hset, if_pos rfl], hs⟩
        · exact ⟨k, w, by rw [find?_set hset, if_neg hk, hfind], hs⟩
    rw [Beside, mem_cons]
    cases parts with
    | nil =>
      rw [hsplit h, Beside]
      simp only [not_mem_nil, or_false, or_assoc]
    | cons part parts =>
      obtain ⟨child, hchild, hset⟩ := Option.bind_eq_some_iff.1 h
      have hfind : (Json.obj fields').find? key = some child := by rw [find?_set hset, if_pos rfl]
      rw [hsplit hset, ih hchild (hroot'.find? hfind)]
      exact iff_of_eq (by ac_rfl)

theorem strings_unsetAt (h : unsetAt path root = some (some root')) : root'.strings ⊆ root.strings := by
  induction path generalizing root root' with
  | nil => cases h
  | cons key parts ih =>
    cases parts with
    | nil =>
      obtain ⟨j, herase, hj⟩ := Option.map_eq_some_iff.1 h
      cases hj
      cases root with
      | obj fields =>
        cases herase
        intro s hs
        obtain ⟨field, hfield, hs⟩ := Json.mem_fieldStrings.1 hs
        exact Json.mem_fieldStrings.2 ⟨field, (mem_filter.1 hfield).1, hs⟩
      | _ => cases herase
    | cons part parts =>
      rw [unsetAt] at h
      split at h
      next fields hfield =>
        obtain ⟨r, hr, hset⟩ := Option.bind_eq_some_iff.1 h
        cases r with
        | none => cases hset
        | some child =>
          obtain ⟨j, hset, hj⟩ := Option.map_eq_some_iff.1 hset
          cases hj
          cases root with
          | obj fields' =>
            cases hset
            intro s hs
            obtain ⟨field, hmem, hs⟩ := Json.mem_fieldStrings.1 hs
            rw [insertField_eq] at hmem
            have hkey := Json.mem_of_lookup hfield
            rcases mem_insert hmem with rfl | hmem
            · refine Json.mem_fieldStrings.2 ⟨_, hkey, hs.imp_right fun hs => ih hr hs⟩
            · exact Json.mem_fieldStrings.2 ⟨field, hmem, hs⟩
          | _ => cases hfield
      next => cases h
      next => exact cons_ne_nil _ _

end Strings

/-! ## Reading back -/

/-- A way to read and to write documents: `nlohmann::json::parse` and `dump(2)`. -/
structure JsonFormat where
  parse : List Char → Option Json
  dump : Json → Option (List Char)
  /-- The documents that there are. -/
  IsValue : Json → Prop
  ordered : ∀ {j}, IsValue j → Ordered j
  parse_nil : parse [] = none
  isUtf8_of_parse : ∀ {s j}, parse s = some j → IsValue j ∧ j.isUtf8 = true
  isSome_dump : ∀ {j}, IsValue j → ((dump j).isSome ↔ j.isUtf8 = true)
  parse_dump : ∀ {j s}, IsValue j → dump j = some s → parse s = some j
  /-- The text is that of the tokens of the document, between which there is white space. -/
  tokens_dump : ∀ {j s}, IsValue j → dump j = some s →
    ∃ ts, Derives .value ts ∧ Spaced ts s ∧ ∀ raw, str raw ∈ ts ↔ ∃ t ∈ j.strings, raw = escape t
  /-- White space between tokens means nothing. -/
  parse_spaced : ∀ {ts s s'}, Derives .value ts → Spaced ts s → Spaced ts s' → parse s = parse s'
  /-- The strings of a document that is read are in its text. -/
  strings_parse : ∀ {ts s j}, (∀ t ∈ ts, t.Valid) → Spaced ts s → parse s = some j →
    ∀ t ∈ j.strings, ∃ raw, str raw ∈ ts ∧ unescape raw = some t.toList

theorem dropCommas_append_of_not_mem {cs : List Char} (h : ',' ∉ cs) (s : List Char) :
    dropCommas (cs ++ s) = cs ++ dropCommas s := by
  induction cs with
  | nil => rfl
  | cons c cs ih =>
    rw [mem_cons, not_or] at h
    rw [cons_append, dropCommas, if_neg fun hc => h.1 hc.1.symm, ih h.2]
    rfl

theorem comma_not_mem_escapeChar {c : Char} (h : c ≠ ',') : ',' ∉ escapeChar c := by
  have hdigit : ∀ d < 16, Nat.digitChar d ≠ ',' := by decide
  rw [escapeChar]
  split_ifs with _ _ _ _ _ _ _ hcontrol
  · decide
  · decide
  · decide
  · decide
  · decide
  · decide
  · decide
  · have hhigh := hdigit (c.toNat / 16) (by omega)
    have hlow := hdigit (c.toNat % 16) (by omega)
    simp [hhigh.symm, hlow.symm]
  · rw [mem_singleton]
    exact h.symm

theorem exists_escape_dropCommas (s : String) : ∃ t, dropCommas (escape s) = escape t := by
  suffices h : ∀ l : List Char, ∃ l' : List Char, dropCommas (l.flatMap escapeChar) = l'.flatMap escapeChar by
    obtain ⟨l, hl⟩ := h s.toList
    exact ⟨String.ofList l, by rw [escape, escape, String.toList_ofList, hl]⟩
  intro l
  induction l with
  | nil => exact ⟨[], rfl⟩
  | cons c l ih =>
    obtain ⟨l', hl'⟩ := ih
    by_cases hc : c = ','
    · subst hc
      have hcomma : escapeChar ',' = [','] := by decide
      rw [flatMap_cons, hcomma, singleton_append, dropCommas, hl']
      split_ifs
      · exact ⟨l', rfl⟩
      · exact ⟨',' :: l', by rw [flatMap_cons, hcomma, singleton_append]⟩
    · refine ⟨c :: l', ?_⟩
      rw [flatMap_cons, dropCommas_append_of_not_mem (comma_not_mem_escapeChar hc), hl', flatMap_cons]

theorem rawString_escape (s : String) : RawString (escape s) := by
  rw [escape]
  induction s.toList with
  | nil => exact .nil
  | cons c l ih =>
    rw [flatMap_cons, escapeChar]
    split_ifs with hquote hback _ _ _ _ _ hcontrol
    · exact .escape ih
    · exact .escape ih
    · exact .escape ih
    · exact .escape ih
    · exact .escape ih
    · exact .escape ih
    · exact .escape ih
    · have hdigit : ∀ d < 16, Nat.digitChar d ≠ '"' ∧ Nat.digitChar d ≠ '\\' := by decide
      obtain ⟨hhigh, hhigh'⟩ := hdigit (c.toNat / 16) (by omega)
      obtain ⟨hlow, hlow'⟩ := hdigit (c.toNat % 16) (by omega)
      refine .escape (.char (by decide) (by decide) (.char (by decide) (by decide) ?_))
      exact .char hhigh hhigh' (.char hlow hlow' ih)
    · exact .char hquote hback ih

/-- Strings that all come from strings of theirs by dropping commas have no commas to drop: else there were strings
with more and more commas. -/
theorem not_hasTrailing_of_dropped {strings : List String}
    (h : ∀ s ∈ strings, ∃ t ∈ strings, escape s = dropCommas (escape t)) :
    ∀ s ∈ strings, ¬ HasTrailing (escape s) := by
  intro s hs htrailing
  have hmore (n : Nat) : ∃ t ∈ strings, HasTrailing (escape t) ∧ n ≤ (escape t).count ',' := by
    induction n with
    | zero => exact ⟨s, hs, htrailing, Nat.zero_le _⟩
    | succ n ih =>
      obtain ⟨t, ht, hhas, hn⟩ := ih
      obtain ⟨u, hu, heq⟩ := h t ht
      rcases dropCommas_cases (escape u) with ⟨hsame, hnot⟩ | ⟨hless, hhas'⟩
      · rw [heq, hsame] at hhas
        exact absurd hhas hnot
      · rw [← heq] at hless
        exact ⟨u, hu, hhas', Nat.lt_of_le_of_lt hn hless⟩
  obtain ⟨t, ht, -, hlarge⟩ := hmore ((strings.map fun t => (escape t).count ',').sum + 1)
  have hle := single_le_sum (fun _ _ => Nat.zero_le _) _ (mem_map_of_mem (f := fun t => (escape t).count ',') ht)
  exact absurd (Nat.lt_of_lt_of_le hlarge hle) (Nat.lt_irrefl _)

theorem Spaced.lineEnd {ts : List Token} {s : List Char} (h : Spaced ts s) : Spaced ts (s ++ ['\n']) := by
  induction h with
  | nil => exact .blank rfl .nil
  | blank hc _ ih => exact .blank hc ih
  | token _ ih =>
    rw [append_assoc]
    exact .token ih

/-- **What was written is read back if and only if in no string of it a comma is followed by blanks and a brace or a
bracket that closes.** -/
theorem parse_stripJson5_iff (F : JsonFormat) {j : Json} (hj : F.IsValue j) {s : List Char} (hs : F.dump j = some s) :
    F.parse (stripJson5 (s ++ ['\n'])) = some j ↔ ∀ t ∈ j.strings, ¬ HasTrailing (escape t) := by
  obtain ⟨ts, hts, hspaced, hraw⟩ := F.tokens_dump hj hs
  have hcommented := (Spaced.lineEnd hspaced).commented
  constructor
  · intro hparse
    refine not_hasTrailing_of_dropped fun t ht => ?_
    have hvalid : ∀ u ∈ ts.map dropInside, u.Valid := by
      intro u hu
      obtain ⟨w, hw, rfl⟩ := mem_map.1 hu
      cases w with
      | str raw =>
        obtain ⟨r, -, rfl⟩ := (hraw raw).1 hw
        obtain ⟨r', hr'⟩ := exists_escape_dropCommas r
        rw [dropInside, hr']
        exact rawString_escape r'
      | _ => exact hts.valid _ hw
    obtain ⟨raw, hmem, hread⟩ :=
      F.strings_parse hvalid (spaced_stripJson5 hts (.refl ts) hcommented) hparse t ht
    obtain ⟨w, hw, heq⟩ := mem_map.1 hmem
    cases w with
    | str raw' =>
      cases heq
      obtain ⟨u, hu, rfl⟩ := (hraw raw').1 hw
      obtain ⟨r, hr⟩ := exists_escape_dropCommas u
      rw [hr, Json.unescape_escape, Option.some.injEq, String.toList_inj] at hread
      exact ⟨u, hu, by rw [hr, hread]⟩
    | _ => cases heq
  · intro hnone
    have hsame := (spaced_stripJson5_iff hts (.refl ts) hcommented).2 fun raw hmem => by
      obtain ⟨t, ht, rfl⟩ := (hraw raw).1 hmem
      exact hnone t ht
    rw [F.parse_spaced hts hsame hspaced]
    exact F.parse_dump hj hs

/-! ## The file -/

/-- What the file system lets a writer do: make the directory and the copy of the old file, and open the file. -/
structure FileAccess where
  copies : Bool
  opens : Bool

def FileAccess.IsWritable (access : FileAccess) : Prop := access.copies = true ∧ access.opens = true

/-- A call that returns or throws, and the content of the file behind it. -/
structure Edited where
  returns : Bool
  file : Option (List Char)

section Files

variable (F : JsonFormat) (access : FileAccess) (file : Option (List Char)) (dotPath : List Char)

/-- `write_json_file`.  Opening the file empties it, and then the text is made. -/
def writeJsonFile (j : Json) : Edited :=
  if access.copies = false then ⟨false, file⟩
  else if access.opens = false then ⟨false, file⟩
  else match F.dump j with
    | none => ⟨false, some []⟩
    | some text => ⟨true, some (text ++ ['\n'])⟩

/-- `RavBotConfig::SetValue`. -/
def setValueFile (value : Json) : Edited :=
  match setValue F.parse file dotPath value with
  | none => ⟨false, file⟩
  | some root => writeJsonFile F access file root

/-- `RavBotConfig::UnsetValue`. -/
def unsetValueFile : Edited :=
  match unsetValue F.parse file dotPath with
  | none => ⟨false, file⟩
  | some none => ⟨true, file⟩
  | some (some root) => writeJsonFile F access file root

/-- The laws of a lens, for a path and two values. -/
structure Lens (value value' : Json) : Prop where
  /-- A call that throws leaves the file. -/
  set_throws : (setValueFile F access file dotPath value).returns = false →
    (setValueFile F access file dotPath value).file = file
  unset_throws : (unsetValueFile F access file dotPath).returns = false →
    (unsetValueFile F access file dotPath).file = file
  /-- The value is there, and the others are as they were. -/
  get : (setValueFile F access file dotPath value).returns = true →
    ∃ doc, readJsonFile F.parse (setValueFile F access file dotPath value).file = some doc ∧
      valueAt doc (splitDotPath dotPath) = some value ∧
      ∀ root, readJsonFile F.parse file = some root →
        ∀ path, Unrelated (splitDotPath dotPath) path → valueAt doc path = valueAt root path
  /-- The last value counts. -/
  set_set : (setValueFile F access file dotPath value).returns = true →
    setValueFile F access (setValueFile F access file dotPath value).file dotPath value' =
      setValueFile F access file dotPath value'
  /-- What is unset is gone. -/
  unset_set : (setValueFile F access file dotPath value).returns = true →
    (unsetValueFile F access (setValueFile F access file dotPath value).file dotPath).returns = true ∧
      ∃ doc, readJsonFile F.parse
          (unsetValueFile F access (setValueFile F access file dotPath value).file dotPath).file = some doc ∧
        valueAt doc (splitDotPath dotPath) = none

end Files

/-- The documents that the edits of a document make. -/
structure EditsAreValues (F : JsonFormat) (root : Json) (path : List String) (value : Json) : Prop where
  set : ∀ doc, setAt value path root = some doc → F.IsValue doc
  unset : ∀ doc, unsetAt path root = some (some doc) → F.IsValue doc
  unset_set : ∀ doc doc', setAt value path root = some doc → unsetAt path doc = some (some doc') → F.IsValue doc'

/-- The strings of the path, of the value and of what is beside it can be written and are read as they are. -/
def KeepsStrings (path : List String) (value root : Json) : Prop :=
  ∀ s, s ∈ path ∨ s ∈ value.strings ∨ Beside path root s →
    Text.validUtf8 s = true ∧ ¬ HasTrailing (escape s)

section Writing

variable {F : JsonFormat} {access : FileAccess} {file : Option (List Char)} {dotPath : List Char} {j : Json}

theorem writeJsonFile_of_dump (hopen : access.IsWritable) {text : List Char} (h : F.dump j = some text)
    (file : Option (List Char)) : writeJsonFile F access file j = ⟨true, some (text ++ ['\n'])⟩ := by
  rw [writeJsonFile, hopen.1, hopen.2, h]
  rfl

theorem writeJsonFile_of_dump_eq_none (hopen : access.IsWritable) (h : F.dump j = none)
    (file : Option (List Char)) : writeJsonFile F access file j = ⟨false, some []⟩ := by
  rw [writeJsonFile, hopen.1, hopen.2, h]
  rfl

theorem writeJsonFile_of_not_writable (hopen : ¬ access.IsWritable) (file : Option (List Char)) (j : Json) :
    writeJsonFile F access file j = ⟨false, file⟩ := by
  rw [writeJsonFile]
  split_ifs with hcopies hopens
  · rfl
  · rfl
  · exact absurd ⟨Bool.eq_true_of_not_eq_false hcopies, Bool.eq_true_of_not_eq_false hopens⟩ hopen

theorem setValueFile_of_read {root : Json} (h : readJsonFile F.parse file = some root) (value : Json) :
    setValueFile F access file dotPath value =
      match setAt value (splitDotPath dotPath) root with
      | none => ⟨false, file⟩
      | some doc => writeJsonFile F access file doc := by
  rw [setValueFile, setValue, h]
  rfl

theorem unsetValueFile_of_read {root : Json} (h : readJsonFile F.parse file = some root) :
    unsetValueFile F access file dotPath =
      match unsetAt (splitDotPath dotPath) root with
      | none => ⟨false, file⟩
      | some none => ⟨true, file⟩
      | some (some doc) => writeJsonFile F access file doc := by
  rw [unsetValueFile, unsetValue, h]
  rfl

theorem isUtf8_of_read {root : Json} (h : readJsonFile F.parse file = some root) : root.isUtf8 = true := by
  cases file with
  | none =>
    cases h
    rfl
  | some content => exact (F.isUtf8_of_parse h).2

theorem isSome_dump_of_subset {root doc : Json} (hroot : root.isUtf8 = true) (hdoc : F.IsValue doc)
    (hsub : doc.strings ⊆ root.strings) : (F.dump doc).isSome := by
  rw [F.isSome_dump hdoc, Json.isUtf8_iff]
  exact fun s hs => (Json.isUtf8_iff root).1 hroot s (hsub hs)

theorem unset_throws {root : Json} (hroot : readJsonFile F.parse file = some root)
    (hvalues : ∀ doc, unsetAt (splitDotPath dotPath) root = some (some doc) → F.IsValue doc)
    (h : (unsetValueFile F access file dotPath).returns = false) :
    (unsetValueFile F access file dotPath).file = file := by
  rw [unsetValueFile_of_read hroot] at h ⊢
  cases hunset : unsetAt (splitDotPath dotPath) root with
  | none => rfl
  | some result =>
    cases result with
    | none => rfl
    | some doc =>
      by_cases hopen : access.IsWritable
      · obtain ⟨text, htext⟩ := Option.isSome_iff_exists.1
          (isSome_dump_of_subset (isUtf8_of_read hroot) (hvalues doc hunset) (strings_unsetAt hunset))
        rw [hunset] at h
        dsimp only at h
        rw [writeJsonFile_of_dump hopen htext] at h
        cases h
      · dsimp only
        rw [writeJsonFile_of_not_writable hopen]

theorem keepsStrings_iff {path : List String} {value root doc : Json} (hset : setAt value path root = some doc)
    (hdoc : F.IsValue doc) :
    KeepsStrings path value root ↔ doc.isUtf8 = true ∧ ∀ s ∈ doc.strings, ¬ HasTrailing (escape s) := by
  rw [Json.isUtf8_iff]
  constructor
  · intro h
    exact ⟨fun s hs => (h s ((mem_strings_setAt hset (F.ordered hdoc)).1 hs)).1,
      fun s hs => (h s ((mem_strings_setAt hset (F.ordered hdoc)).1 hs)).2⟩
  · rintro ⟨hutf8, hnone⟩ s hs
    have hmem := (mem_strings_setAt hset (F.ordered hdoc)).2 hs
    exact ⟨hutf8 s hmem, hnone s hmem⟩

theorem lens_of_read {root doc value : Json} {text : List Char} (hroot : readJsonFile F.parse file = some root)
    (hopen : access.IsWritable) (hset : setAt value (splitDotPath dotPath) root = some doc)
    (htext : F.dump doc = some text) (hdoc : readJsonFile F.parse (some (text ++ ['\n'])) = some doc)
    (hvalues : EditsAreValues F root (splitDotPath dotPath) value) (value' : Json) :
    Lens F access file dotPath value value' := by
  have hfile : setValueFile F access file dotPath value = ⟨true, some (text ++ ['\n'])⟩ := by
    rw [setValueFile_of_read hroot, hset]
    exact writeJsonFile_of_dump hopen htext file
  refine ⟨fun h => ?_, unset_throws hroot hvalues.unset, fun _ => ?_, fun _ => ?_, fun _ => ?_⟩
  · rw [hfile] at h
    cases h
  · rw [hfile]
    refine ⟨doc, hdoc, valueAt_setAt_self hset, fun root' hroot' path hun => ?_⟩
    rw [hroot] at hroot'
    cases hroot'
    exact valueAt_setAt hset hun
  · rw [hfile, setValueFile_of_read hdoc, setValueFile_of_read hroot, setAt_setAt hset]
    cases hset' : setAt value' (splitDotPath dotPath) root with
    | none =>
      have hnone := (@isSome_setAt_iff (splitDotPath dotPath) ?_ value root).1 (by rw [hset]; rfl)
      · rw [← @isSome_setAt_iff (splitDotPath dotPath) ?_ value' root, hset'] at hnone
        · cases hnone
        · intro hnil
          rw [hnil] at hset
          cases hset
      · intro hnil
        rw [hnil] at hset
        cases hset
    | some doc' =>
      dsimp only
      cases htext' : F.dump doc' with
      | none => rw [writeJsonFile_of_dump_eq_none hopen htext', writeJsonFile_of_dump_eq_none hopen htext']
      | some text' => rw [writeJsonFile_of_dump hopen htext', writeJsonFile_of_dump hopen htext']
  · rw [hfile, unsetValueFile_of_read hdoc]
    obtain ⟨doc', hunset⟩ := exists_unsetAt hset
    have hdoc' := hvalues.unset_set doc doc' hset hunset
    have hsub := strings_unsetAt hunset
    obtain ⟨text', htext'⟩ := Option.isSome_iff_exists.1
      (isSome_dump_of_subset (isUtf8_of_read hdoc) hdoc' hsub)
    have hclean := (parse_stripJson5_iff F (hvalues.set doc hset) htext).1 hdoc
    rw [hunset]
    dsimp only
    rw [writeJsonFile_of_dump hopen htext']
    refine ⟨rfl, doc', ?_, valueAt_unsetAt_self hunset⟩
    exact (parse_stripJson5_iff F hdoc' htext').2 fun s hs => hclean s (hsub hs)

end Writing

/-- Edits of a configuration file that can be read obey the laws of a lens if and only if `SetValue` throws before
it writes, or the strings of the path, of the value and of what is beside it are UTF-8 and in none of them, as it is
written, a comma is followed by blanks and a brace or a bracket that closes. -/
theorem lens_iff (F : JsonFormat) (access : FileAccess) {file : Option (List Char)} {root : Json}
    (hroot : readJsonFile F.parse file = some root) {dotPath : List Char} (hpath : dotPath ≠ [])
    {value : Json} (hvalues : EditsAreValues F root (splitDotPath dotPath) value) (value' : Json) :
    Lens F access file dotPath value value' ↔
      ¬ access.IsWritable ∨ ¬ (root.isObject = true ∨ root.isNull = true) ∨
        KeepsStrings (splitDotPath dotPath) value root := by
  have hparts : splitDotPath dotPath ≠ [] := by
    obtain ⟨c, s, rfl⟩ := exists_cons_of_ne_nil hpath
    intro hnil
    have hpieces : Text.pieces '.' (c :: s) = [] := map_eq_nil_iff.1 hnil
    rw [Text.pieces] at hpieces
    split_ifs at hpieces
    split at hpieces <;> cases hpieces
  -- a call that throws before it writes leaves nothing to show
  have hthrows (h : setValueFile F access file dotPath value = ⟨false, file⟩) : Lens F access file dotPath value value' := by
    have hnot {P : Prop} (hreturns : (setValueFile F access file dotPath value).returns = true) : P := by
      rw [h] at hreturns
      cases hreturns
    exact ⟨fun _ => by rw [h], unset_throws hroot hvalues.unset, fun hr => hnot hr, fun hr => hnot hr, fun hr => hnot hr⟩
  cases hset : setAt value (splitDotPath dotPath) root with
  | none =>
    refine iff_of_true (hthrows ?_) (.inr (.inl ?_))
    · rw [setValueFile_of_read hroot, hset]
    · rw [← isSome_setAt_iff hparts value root, hset]
      exact Bool.false_ne_true
  | some doc =>
    have hdoc := hvalues.set doc hset
    by_cases hopen : access.IsWritable
    · have hobject := (isSome_setAt_iff hparts value root).1 (by rw [hset]; rfl)
      rw [or_iff_right (not_not.2 hopen), or_iff_right (not_not.2 hobject), keepsStrings_iff hset hdoc]
      cases htext : F.dump doc with
      | none =>
        -- the file was emptied, and an empty file cannot be read
        have hutf8 : ¬ doc.isUtf8 = true := by
          rw [← F.isSome_dump hdoc, htext]
          exact Bool.false_ne_true
        refine iff_of_false (fun h => ?_) fun h => hutf8 h.1
        have hfile := h.set_throws
        rw [setValueFile_of_read hroot, hset] at hfile
        dsimp only at hfile
        rw [writeJsonFile_of_dump_eq_none hopen htext] at hfile
        have hempty := hroot
        rw [← hfile rfl] at hempty
        change F.parse [] = some root at hempty
        rw [F.parse_nil] at hempty
        cases hempty
      | some text =>
        have hutf8 : doc.isUtf8 = true := by
          rw [← F.isSome_dump hdoc, htext]
          rfl
        rw [and_iff_right hutf8, ← parse_stripJson5_iff F hdoc htext]
        constructor
        · intro h
          have hget := h.get
          rw [setValueFile_of_read hroot, hset] at hget
          dsimp only at hget
          rw [writeJsonFile_of_dump hopen htext] at hget
          obtain ⟨doc', hread, hself, hrest⟩ := hget rfl
          have hordered := F.ordered (F.isUtf8_of_parse hread).1
          rw [← eq_of_valueAt hset (F.ordered hdoc) hordered hself (hrest root hroot)]
          exact hread
        · intro hread
          exact lens_of_read hroot hopen hset htext hread hvalues value'
    · refine iff_of_true (hthrows ?_) (.inl hopen)
      rw [setValueFile_of_read hroot, hset]
      exact writeJsonFile_of_not_writable hopen file doc

/-! ## Documents with at most one string -/

namespace OneString

mutual

def lex : List Char → List Token
  | [] => []
  | '"' :: s => lexString [] s
  | c :: s => if isBlank c then lex s else if isPunct c then punct c :: lex s else scalar [c] :: lex s

/-- The tokens behind a quotation mark, with the letters of the string before. -/
def lexString (raw : List Char) : List Char → List Token
  | [] => []
  | '"' :: s => str raw.reverse :: lex s
  | '\\' :: c :: s => lexString (c :: '\\' :: raw) s
  | c :: s => lexString (c :: raw) s

end

def pieces : Token → List Token
  | scalar s => s.map fun c => scalar [c]
  | t => [t]

variable {ts : List Token}

theorem str_mem_of_mem_pieces {raw : List Char} (h : str raw ∈ ts.flatMap pieces) : str raw ∈ ts := by
  obtain ⟨t, ht, hpiece⟩ := mem_flatMap.1 h
  cases t with
  | punct c => cases mem_singleton.1 hpiece
  | str raw' =>
    cases mem_singleton.1 hpiece
    exact ht
  | scalar s =>
    obtain ⟨c, -, heq⟩ := mem_map.1 hpiece
    cases heq

theorem lexString_append {raw : List Char} (h : RawString raw) (before s : List Char) :
    lexString before (raw ++ '"' :: s) = str (before.reverse ++ raw) :: lex s := by
  induction h generalizing before with
  | nil => rw [nil_append, lexString, append_nil]
  | char hquote hescape _ ih =>
    rw [cons_append, lexString, ih, reverse_cons, append_assoc, singleton_append]
    · exact hquote
    · rintro _ _ rfl
      exact absurd rfl hescape
  | escape _ ih =>
    rw [cons_append, cons_append, lexString, ih, reverse_cons, reverse_cons, append_assoc,
      append_assoc]
    rfl

theorem lex_of_spaced {s : List Char} (h : Spaced ts s) (hts : ∀ t ∈ ts, t.Valid) :
    lex s = ts.flatMap pieces := by
  have hletter {c : Char} (hquote : c ≠ '"') (s : List Char) : lex (c :: s) =
      if isBlank c then lex s else if isPunct c then punct c :: lex s else scalar [c] :: lex s := by
    rw [lex]
    exact hquote
  induction h with
  | nil => rfl
  | @blank c ts s hc _ ih =>
    have hquote : c ≠ '"' := by
      rintro rfl
      exact absurd hc (by decide)
    rw [hletter hquote, if_pos hc, ih hts]
  | @token t ts s _ ih =>
    rw [forall_mem_cons] at hts
    rw [flatMap_cons, ← ih hts.2]
    have ht := hts.1
    cases t with
    | punct c =>
      change isPunct c = true at ht
      have hpunct := ht
      simp only [isPunct, Bool.or_eq_true, beq_iff_eq] at hpunct
      rcases hpunct with ((((rfl | rfl) | rfl) | rfl) | rfl) | rfl <;> rfl
    | str raw =>
      rw [chars, cons_append, append_assoc, lex]
      exact lexString_append ht [] s
    | scalar cs =>
      have hall := ht.2
      clear ht hts
      induction cs with
      | nil => rfl
      | cons c cs ih =>
        rw [forall_mem_cons] at hall
        have hc := hall.1
        rw [isScalarChar] at hc
        simp only [Bool.and_eq_true, Bool.not_eq_true', bne_iff_ne, ne_eq] at hc
        rw [chars, cons_append, hletter hc.1.2, if_neg (by rw [hc.1.1.1]; exact Bool.false_ne_true),
          if_neg (by rw [hc.1.1.2]; exact Bool.false_ne_true)]
        exact congrArg (scalar [c] :: ·) (ih hall.2)

def document (s : String) : Json := .obj [("a", .str s)]

def tokens (s : String) : List Token :=
  [punct '\x7b', str ['a'], punct ':', str (escape s), punct '\x7d']

/-- Read a document. -/
def parse (s : List Char) : Option Json :=
  match lex s with
  | [punct '\x7b', punct '\x7d'] => some (.obj [])
  | [punct '\x7b', str ['a'], punct ':', str raw, punct '\x7d'] =>
    (unescape raw).bind fun t =>
      if Text.validUtf8 (String.ofList t) then some (document (String.ofList t)) else none
  | _ => none

/-- Write a document. -/
def dump : Json → Option (List Char)
  | .obj [] => some ['\x7b', '\x7d']
  | .obj [("a", .str s)] =>
    if Text.validUtf8 s then
      some ('\x7b' :: '\n' :: ' ' :: ' ' :: ((str ['a']).chars ++ ':' :: ' ' :: ((str (escape s)).chars ++ ['\n', '\x7d'])))
    else none
  | _ => none

theorem dump_document (s : String) : dump (document s) =
    if Text.validUtf8 s then
      some ('\x7b' :: '\n' :: ' ' :: ' ' :: ((str ['a']).chars ++ ':' :: ' ' :: ((str (escape s)).chars ++ ['\n', '\x7d'])))
    else none := rfl

theorem derives_tokens (s : String) : Derives .value (tokens s) :=
  .object (.member (.char (by decide) (by decide) .nil) (.str (rawString_escape s)))

theorem spaced_dump {s : String} {text : List Char} (h : dump (document s) = some text) : Spaced (tokens s) text := by
  rw [dump_document] at h
  split_ifs at h
  cases h
  exact .token (.blank rfl (.blank rfl (.blank rfl (.token (.token (.blank rfl (.token (.blank rfl (.token .nil)))))))))

theorem parse_eq_some {s : List Char} {j : Json} (hts : ∀ t ∈ ts, t.Valid) (hs : Spaced ts s)
    (h : parse s = some j) : j = .obj [] ∨ ∃ raw t, str ['a'] ∈ ts ∧ str raw ∈ ts ∧ unescape raw = some t ∧
      Text.validUtf8 (String.ofList t) = true ∧ j = document (String.ofList t) := by
  rw [parse] at h
  split at h
  · cases h
    exact .inl rfl
  · next raw heq =>
    rw [lex_of_spaced hs hts] at heq
    obtain ⟨t, ht, hj⟩ := Option.bind_eq_some_iff.1 h
    split_ifs at hj with hutf8
    cases hj
    refine .inr ⟨raw, t, ?_, ?_, ht, hutf8, rfl⟩
    · apply str_mem_of_mem_pieces
      rw [heq]
      simp
    · apply str_mem_of_mem_pieces
      rw [heq]
      simp
  · cases h

/-- Documents that are empty or have one field, a string. -/
def format : JsonFormat where
  parse := parse
  dump := dump
  IsValue j := j = .obj [] ∨ ∃ s, j = document s
  ordered := by
    rintro j (rfl | ⟨s, rfl⟩)
    · exact .obj sorted_nil (forall_mem_nil _)
    · exact .obj (pairwise_singleton _ _) (forall_mem_singleton.2 (.str s))
  parse_nil := rfl
  isUtf8_of_parse := by
    intro s j h
    rw [parse] at h
    split at h
    · cases h
      exact ⟨.inl rfl, rfl⟩
    · obtain ⟨t, -, hj⟩ := Option.bind_eq_some_iff.1 h
      split_ifs at hj with hutf8
      cases hj
      refine ⟨.inr ⟨_, rfl⟩, ?_⟩
      simp [document, Json.isUtf8, Json.fieldsUtf8, hutf8]
      decide
    · cases h
  isSome_dump := by
    rintro j (rfl | ⟨s, rfl⟩)
    · exact iff_of_true rfl rfl
    · rw [dump_document]
      have ha : Text.validUtf8 "a" = true := by decide
      simp [document, Json.isUtf8, Json.fieldsUtf8, ha]
  parse_dump := by
    rintro j s (rfl | ⟨t, rfl⟩) h
    · cases h
      rfl
    · have hspaced := spaced_dump h
      rw [parse, lex_of_spaced hspaced (derives_tokens t).valid]
      show (unescape (escape t)).bind _ = _
      rw [dump_document] at h
      split_ifs at h with hutf8
      rw [Json.unescape_escape, Option.bind_some, String.ofList_toList, if_pos hutf8]
  tokens_dump := by
    rintro j s (rfl | ⟨t, rfl⟩) h
    · cases h
      refine ⟨_, .emptyObject, .token (.token .nil), fun raw => ?_⟩
      simp [Json.strings, Json.fieldStrings]
    · refine ⟨tokens t, derives_tokens t, spaced_dump h, fun raw => ?_⟩
      have ha : escape "a" = ['a'] := by decide
      simp [tokens, document, Json.strings, Json.fieldStrings, ha]
  parse_spaced := by
    intro ts s s' hts hs hs'
    rw [parse, parse, lex_of_spaced hs hts.valid, lex_of_spaced hs' hts.valid]
  strings_parse := by
    intro ts s j hts hs h
    rcases parse_eq_some hts hs h with rfl | ⟨raw, t, ha, hraw, ht, -, rfl⟩
    · exact forall_mem_nil _
    · intro u hu
      simp only [document, Json.strings, Json.fieldStrings, append_nil, mem_cons, not_mem_nil,
        or_false] at hu
      rcases hu with rfl | rfl
      · exact ⟨['a'], ha, by simp [unescape]⟩
      · exact ⟨raw, hraw, by rw [ht, String.toList_ofList]⟩

theorem editsAreValues (s : String) : EditsAreValues format (.obj []) ["a"] (.str s) where
  set := by
    rintro _ ⟨⟩
    exact .inr ⟨s, rfl⟩
  unset := by
    rintro _ ⟨⟩
    exact .inl rfl
  unset_set := by
    rintro _ _ ⟨⟩ ⟨⟩
    exact .inl rfl

end OneString

open OneString

/-- A comma in front of a brace is not read again, and a string that is not UTF-8 empties the file. -/
theorem not_lens :
    ¬ Lens format ⟨true, true⟩ (some ['\x7b', '\x7d']) ['a'] (.str ",\x7d") .null ∧
      ¬ Lens format ⟨true, true⟩ (some ['\x7b', '\x7d']) ['a'] (.str "\xff") .null := by
  constructor
  · intro h
    obtain ⟨doc, hread, hvalue, -⟩ := h.get rfl
    have htokens : OneString.lex (stripJson5 "\x7b\n  \"a\": \",\x7d\"\n\x7d\n".toList) = tokens "\x7d" := by decide
    change OneString.parse (stripJson5 "\x7b\n  \"a\": \",\x7d\"\n\x7d\n".toList) = some doc at hread
    rw [OneString.parse, htokens] at hread
    change (unescape (escape "\x7d")).bind _ = some doc at hread
    rw [Json.unescape_escape, Option.bind_some, String.ofList_toList, if_pos (by decide)] at hread
    cases hread
    have hsame : some (Json.str "\x7d") = some (Json.str ",\x7d") := hvalue
    exact absurd (Json.str.inj (Option.some.inj hsame)) (by decide)
  · intro h
    have hthrows := h.set_throws rfl
    revert hthrows
    decide

/-- Setting a field of an empty document. -/
theorem lens_iff_field : Lens format ⟨true, true⟩ (some ['\x7b', '\x7d']) ['a'] (.str "b") .null := by
  have hclean {s : String} (hs : ',' ∉ escape s) : ¬ HasTrailing (escape s) := by
    rintro ⟨before, blanks, c, after, heq, -⟩
    rw [heq] at hs
    exact hs (mem_append_right _ mem_cons_self)
  have hread : readJsonFile format.parse (some ['\x7b', '\x7d']) = some (.obj []) := rfl
  refine (lens_iff format ⟨true, true⟩ hread (cons_ne_nil 'a' []) (editsAreValues "b") .null).2 (.inr (.inr ?_))
  rintro s (hs | hs | hs)
  · cases mem_singleton.1 hs
    exact ⟨by decide, hclean (by decide)⟩
  · cases mem_singleton.1 hs
    exact ⟨by decide, hclean (by decide)⟩
  · rcases hs with ⟨k, v, -, hfind, -⟩ | hs
    · cases hfind
    · exact hs.elim

end RavBot.Core
