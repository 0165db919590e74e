import Mathlib.Algebra.Order.BigOperators.Group.List
import RavBot.Lib.Json
import RavBot.Lib.JsonTokens

/-!
# The configuration file

The configuration is JSON in which comments and trailing commas are allowed.  They are taken out before the
text is parsed, in two passes; only the first one knows about strings.  What is left of a text has the tokens of
the text, except that strings lose the commas that stand before a brace or a bracket that closes
(`spaced_stripJson5`).
-/

open List

namespace RavBot.Core

open RavBot.Lib RavBot.Lib.JsonTokens
open RavBot.Lib.JsonTokens.Token

/-! ## Comments and commas -/

mutual

/-- `strip_json5`, first pass. -/
def stripComments : List Char → List Char
  | [] => []
  | '"' :: s => '"' :: copyString s
  | '/' :: '/' :: s => skipLine s
  | '/' :: '*' :: s => skipBlock s
  | c :: s => c :: stripComments s

/-- `strip_json5`: within a string. -/
def copyString : List Char → List Char
  | [] => []
  | '"' :: s => '"' :: stripComments s
  | '\\' :: c :: s => '\\' :: c :: copyString s
  | c :: s => c :: copyString s

/-- `strip_json5`: within a comment up to the end of the line, which stays. -/
def skipLine : List Char → List Char
  | [] => []
  | '\n' :: s => '\n' :: stripComments s
  | _ :: s => skipLine s

/-- `strip_json5`: within a comment that has an end mark.  Without one the last character stays. -/
def skipBlock : List Char → List Char
  | [] => []
  | [c] => [c]
  | '*' :: '/' :: s => stripComments s
  | _ :: s => skipBlock s

end

def closesNext (s : List Char) : Bool :=
  match s.dropWhile isBlank with
  | c :: _ => isClosing c
  | [] => false

/-- `strip_json5`, second pass. -/
def dropCommas : List Char → List Char
  | [] => []
  | c :: s => if c = ',' ∧ closesNext s then dropCommas s else c :: dropCommas s

def stripJson5 (input : List Char) : List Char := dropCommas (stripComments input)

/-! ## The first pass -/

theorem stripComments_cons {c : Char} (hquote : c ≠ '"') (hslash : c ≠ '/') (s : List Char) :
    stripComments (c :: s) = c :: stripComments s := by
  rw [stripComments]
  · exact hquote
  · rintro _ rfl
    exact absurd rfl hslash
  · rintro _ rfl
    exact absurd rfl hslash

theorem copyString_append {raw : List Char} (h : RawString raw) (s : List Char) :
    copyString (raw ++ '"' :: s) = raw ++ '"' :: stripComments s := by
  induction h with
  | nil => rw [nil_append, nil_append, copyString]
  | char hquote hescape _ ih =>
    rw [cons_append, cons_append, copyString, ih]
    · exact hquote
    · rintro _ _ rfl
      exact absurd rfl hescape
  | escape _ ih =>
    rw [cons_append, cons_append, cons_append, cons_append, copyString, ih]

variable {body s input : List Char}

theorem skipLine_append (h : '\n' ∉ body) (s : List Char) :
    skipLine (body ++ '\n' :: s) = '\n' :: stripComments s := by
  induction body with
  | nil => rw [nil_append, skipLine]
  | cons c body ih =>
    rw [mem_cons, not_or] at h
    rw [cons_append, skipLine, ih h.2]
    exact Ne.symm h.1

theorem skipLine_eq_nil (h : '\n' ∉ body) : skipLine body = [] := by
  induction body with
  | nil => rw [skipLine]
  | cons c body ih =>
    rw [mem_cons, not_or] at h
    rw [skipLine, ih h.2]
    exact Ne.symm h.1

theorem skipBlock_append (h : ¬['*', '/'] <:+: body) (s : List Char) :
    skipBlock (body ++ '*' :: '/' :: s) = stripComments s := by
  induction body with
  | nil => rw [nil_append, skipBlock]
  | cons c body ih =>
    have hbody : ¬['*', '/'] <:+: body := fun hin => h (infix_cons hin)
    rw [cons_append, skipBlock, ih hbody]
    · exact fun hnil => append_ne_nil_of_right_ne_nil _ (cons_ne_nil _ _) hnil
    · rintro t rfl heq
      -- the end mark would stand within the comment
      cases body with
      | nil => cases heq
      | cons d body =>
        cases heq
        exact h ⟨[], body, rfl⟩

theorem stripComments_token {t : Token} (ht : t.Valid) (s : List Char) :
    stripComments (t.chars ++ s) = t.chars ++ stripComments s := by
  cases t with
  | punct c =>
    change isPunct c = true at ht
    refine stripComments_cons ?_ ?_ s
    · rintro rfl
      exact absurd ht (by decide)
    · rintro rfl
      exact absurd ht (by decide)
  | str raw =>
    rw [chars, cons_append, cons_append, append_assoc, append_assoc, stripComments]
    exact congrArg ('"' :: ·) (copyString_append ht s)
  | scalar cs =>
    have hall := ht.2
    clear ht
    induction cs with
    | nil => rfl
    | cons c cs ih =>
      rw [forall_mem_cons] at hall
      have hquote : c ≠ '"' := by
        rintro rfl
        exact absurd hall.1 (by decide)
      have hslash : c ≠ '/' := by
        rintro rfl
        exact absurd hall.1 (by decide)
      rw [chars, cons_append, stripComments_cons hquote hslash]
      exact congrArg (c :: ·) (ih hall.2)

variable {ts : List Token}

theorem spaced_stripComments (h : Commented ts s)
    (hts : ∀ t ∈ ts, t.Valid) : Spaced ts (stripComments s) := by
  induction h with
  | nil => exact .nil
  | @blank c _ s hc _ ih =>
    have hquote : c ≠ '"' := by
      rintro rfl
      exact absurd hc (by decide)
    have hslash : c ≠ '/' := by
      rintro rfl
      exact absurd hc (by decide)
    rw [stripComments_cons hquote hslash]
    exact .blank hc (ih hts)
  | @comment c _ s hc _ ih =>
    cases hc with
    | line hbody =>
      rw [cons_append, cons_append, append_assoc, stripComments]
      change Spaced _ (skipLine (_ ++ '\n' :: s))
      rw [skipLine_append hbody]
      exact .blank rfl (ih hts)
    | block hbody =>
      rw [cons_append, cons_append, append_assoc, stripComments]
      change Spaced _ (skipBlock (_ ++ '*' :: '/' :: s))
      rw [skipBlock_append hbody]
      exact ih hts
  | last hbody =>
    rw [stripComments, skipLine_eq_nil hbody]
    exact .nil
  | token _ ih =>
    rw [forall_mem_cons] at hts
    rw [stripComments_token hts.1]
    exact .token (ih hts.2)

/-! ## The second pass -/

/-- A comma that is followed by a brace or a bracket that closes. -/
def HasTrailing (raw : List Char) : Prop :=
  ∃ before blanks c after, raw = before ++ ',' :: (blanks ++ c :: after) ∧
    (∀ b ∈ blanks, isBlank b) ∧ isClosing c

theorem closesNext_iff (s : List Char) :
    closesNext s ↔ ∃ blanks c after, s = blanks ++ c :: after ∧ (∀ b ∈ blanks, isBlank b) ∧
      isClosing c := by
  constructor
  · intro h
    rw [closesNext] at h
    cases hdrop : s.dropWhile isBlank with
    | nil =>
      rw [hdrop] at h
      cases h
    | cons c after =>
      rw [hdrop] at h
      refine ⟨s.takeWhile isBlank, c, after, ?_, fun b hb => mem_takeWhile_imp hb, h⟩
      rw [← hdrop, takeWhile_append_dropWhile]
  · rintro ⟨blanks, c, after, rfl, hblanks, hc⟩
    have hblank : isBlank c = false := by
      rw [isClosing, Bool.or_eq_true, beq_iff_eq, beq_iff_eq] at hc
      rcases hc with rfl | rfl <;> rfl
    rw [closesNext, dropWhile_append_of_pos hblanks, dropWhile_cons_of_neg (by rw [hblank]; exact nofun)]
    exact hc

/-- The second pass changes strings in which a comma is followed by a brace or a bracket that closes; then there
are less commas. -/
theorem dropCommas_cases (raw : List Char) :
    dropCommas raw = raw ∧ ¬HasTrailing raw ∨
      (dropCommas raw).count ',' < raw.count ',' ∧ HasTrailing raw := by
  induction raw with
  | nil =>
    refine .inl ⟨rfl, ?_⟩
    rintro ⟨before, blanks, c, after, h, -⟩
    cases before <;> cases h
  | cons c s ih =>
    have hcons : HasTrailing (c :: s) ↔ (c = ',' ∧ closesNext s) ∨ HasTrailing s := by
      constructor
      · rintro ⟨before, blanks, d, after, h, hblanks, hd⟩
        cases before with
        | nil =>
          cases h
          exact .inl ⟨rfl, (closesNext_iff _).2 ⟨blanks, d, after, rfl, hblanks, hd⟩⟩
        | cons b before =>
          cases h
          exact .inr ⟨before, blanks, d, after, rfl, hblanks, hd⟩
      · rintro (⟨rfl, hnext⟩ | ⟨before, blanks, d, after, rfl, hblanks, hd⟩)
        · obtain ⟨blanks, d, after, rfl, hblanks, hd⟩ := (closesNext_iff s).1 hnext
          exact ⟨[], blanks, d, after, rfl, hblanks, hd⟩
        · exact ⟨c :: before, blanks, d, after, rfl, hblanks, hd⟩
    rw [hcons, dropCommas]
    split_ifs with hc
    · obtain ⟨rfl, hnext⟩ := hc
      rw [count_cons_self]
      refine .inr ⟨?_, .inl ⟨rfl, hnext⟩⟩
      rcases ih with ⟨heq, -⟩ | ⟨hlt, -⟩
      · rw [heq]
        exact Nat.lt_succ_self _
      · exact Nat.lt_succ_of_lt hlt
    · rcases ih with ⟨heq, hnot⟩ | ⟨hlt, hhas⟩
      · exact .inl ⟨congrArg (c :: ·) heq, not_or.2 ⟨hc, hnot⟩⟩
      · refine .inr ⟨?_, .inr hhas⟩
        rw [count_cons, count_cons]
        exact Nat.add_lt_add_right hlt _

theorem closesNext_append (s : List Char) {c : Char} (hblank : isBlank c = false)
    (hclosing : isClosing c = false) (t : List Char) :
    closesNext (s ++ c :: t) = closesNext s := by
  induction s with
  | nil =>
    rw [nil_append, closesNext, dropWhile_cons_of_neg (by rw [hblank]; exact nofun)]
    exact hclosing
  | cons d s ih =>
    rw [cons_append, closesNext, closesNext, dropWhile_cons, dropWhile_cons]
    split_ifs
    · exact ih
    · rfl

theorem dropCommas_append (s : List Char) {c : Char} (hblank : isBlank c = false)
    (hclosing : isClosing c = false) (t : List Char) :
    dropCommas (s ++ c :: t) = dropCommas s ++ dropCommas (c :: t) := by
  induction s with
  | nil => rfl
  | cons d s ih =>
    rw [cons_append, dropCommas, dropCommas, closesNext_append s hblank hclosing, ih]
    split_ifs <;> rfl

def dropInside : Token → Token
  | str raw => str (dropCommas raw)
  | t => t

def dropTokens : List Token → List Token
  | [] => []
  | t :: ts =>
    if t = comma ∧ ∃ u ∈ ts.head?, u.Closes then dropTokens ts else dropInside t :: dropTokens ts

theorem closesNext_of_spaced (h : Spaced ts s)
    (hts : ∀ t ∈ ts, t.Valid) : closesNext s ↔ ∃ u ∈ ts.head?, u.Closes := by
  -- the first character of a token decides
  have hfirst {t : Token} {c : Char} {cs rest : List Char} (heq : t.chars = c :: cs)
      (hblank : isBlank c = false) (hcloses : t.Closes ↔ isClosing c) (ts : List Token) :
      closesNext (t.chars ++ rest) ↔ ∃ u ∈ (t :: ts).head?, u.Closes := by
    rw [heq, cons_append, closesNext, dropWhile_cons_of_neg (by rw [hblank]; exact nofun)]
    simp [hcloses]
  induction h with
  | nil => simp [closesNext]
  | blank hc _ ih =>
    rw [closesNext, dropWhile_cons_of_pos hc]
    exact ih hts
  | @token t ts s _ ih =>
    have ht := hts t (mem_cons_self ..)
    cases t with
    | punct c =>
      change isPunct c = true at ht
      refine hfirst rfl ?_ Iff.rfl ts
      simp only [isPunct, Bool.or_eq_true, beq_iff_eq] at ht
      rcases ht with ((((rfl | rfl) | rfl) | rfl) | rfl) | rfl <;> rfl
    | str raw => exact hfirst rfl rfl (iff_of_false id (by decide)) ts
    | scalar cs =>
      obtain ⟨hne, hall⟩ := ht
      cases cs with
      | nil => exact absurd rfl hne
      | cons c cs =>
        have hc := hall c (mem_cons_self ..)
        have hnot : isBlank c = false ∧ isClosing c = false := by
          simp only [isScalarChar, isPunct, Bool.and_eq_true, Bool.not_eq_true',
            Bool.or_eq_false_iff] at hc
          exact ⟨hc.1.1.1, by simp [isClosing, hc.1.1.2]⟩
        refine hfirst rfl hnot.1 ?_ ts
        rw [hnot.2]
        exact iff_of_false id nofun

theorem dropCommas_token {t : Token} (ht : t.Valid) (hne : t ≠ comma) (s : List Char) :
    dropCommas (t.chars ++ s) = (dropInside t).chars ++ dropCommas s := by
  cases t with
  | punct c =>
    have hc : ¬(c = ',' ∧ closesNext s) := by
      rintro ⟨rfl, -⟩
      exact hne rfl
    rw [chars, singleton_append, dropCommas, if_neg hc]
    rfl
  | str raw =>
    have hquote (s : List Char) : dropCommas ('"' :: s) = '"' :: dropCommas s := by
      rw [dropCommas]
      exact if_neg (by rintro ⟨h, -⟩; exact absurd h (by decide))
    rw [chars, cons_append, append_assoc, singleton_append, hquote,
      dropCommas_append raw rfl rfl, hquote, dropInside, chars, cons_append, append_assoc]
    rfl
  | scalar cs =>
    have hall := ht.2
    clear ht hne
    induction cs with
    | nil => rfl
    | cons c cs ih =>
      rw [forall_mem_cons] at hall
      have hc : ¬(c = ',' ∧ closesNext (cs ++ s)) := by
        rintro ⟨rfl, -⟩
        exact absurd hall.1 (by decide)
      rw [chars, cons_append, dropCommas, if_neg hc]
      exact congrArg (c :: ·) (ih hall.2)

theorem spaced_dropCommas (h : Spaced ts s)
    (hts : ∀ t ∈ ts, t.Valid) : Spaced (dropTokens ts) (dropCommas s) := by
  induction h with
  | nil => exact .nil
  | @blank c ts s hc _ ih =>
    have hcomma : ¬(c = ',' ∧ closesNext s) := by
      rintro ⟨rfl, -⟩
      exact absurd hc (by decide)
    rw [dropCommas, if_neg hcomma]
    exact .blank hc (ih hts)
  | @token t ts s h ih =>
    rw [forall_mem_cons] at hts
    rw [dropTokens]
    by_cases hcomma : t = comma
    · subst hcomma
      have hcloses := closesNext_of_spaced h hts.2
      rw [comma, chars, singleton_append, dropCommas]
      by_cases hnext : closesNext s
      · rw [if_pos ⟨rfl, hcloses.1 hnext⟩, if_pos ⟨rfl, hnext⟩]
        exact ih hts.2
      · rw [if_neg fun h => hnext (hcloses.2 h.2), if_neg fun h => hnext h.2]
        exact .token (ih hts.2)
    · rw [if_neg fun h => hcomma h.1, dropCommas_token hts.1 hcomma]
      exact .token (ih hts.2)

variable {us : List Token}

theorem dropTokens_of_trailingCommas (h : TrailingCommas ts us)
    (hts : ts.IsChain NoTrailing) : dropTokens us = ts.map dropInside := by
  induction h with
  | nil => rfl
  | @token t ts us h ih =>
    rw [isChain_cons] at hts
    have hkeep : ¬(t = comma ∧ ∃ u ∈ us.head?, u.Closes) := by
      rintro ⟨rfl, u, hu, hcloses⟩
      cases h with
      | nil => cases hu
      | token _ =>
        cases hu
        exact hts.1 _ rfl ⟨rfl, hcloses⟩
      | comma hnext _ => exact hts.1 _ rfl ⟨rfl, hnext⟩
    rw [dropTokens, if_neg hkeep, ih hts.2]
    rfl
  | @comma t ts us hcloses h ih =>
    rw [isChain_cons] at hts
    have hkeep : ¬(t = comma ∧ ∃ u ∈ us.head?, u.Closes) := by
      rintro ⟨rfl, -⟩
      exact not_closes_comma hcloses
    rw [dropTokens, if_pos ⟨rfl, t, rfl, hcloses⟩, dropTokens, if_neg hkeep, ih hts.2]
    rfl

theorem spaced_stripJson5 (hts : Derives .value ts)
    (hus : TrailingCommas ts us) (h : Commented us input) :
    Spaced (ts.map dropInside) (stripJson5 input) := by
  have hvalid := hus.valid hts.valid
  rw [← dropTokens_of_trailingCommas hus hts.inner.chain]
  exact spaced_dropCommas (spaced_stripComments h hvalid) hvalid

theorem count_of_spaced (h : Spaced ts s) :
    s.count ',' = (ts.map fun t => t.chars.count ',').sum := by
  induction h with
  | nil => rfl
  | @blank c _ s hc _ ih =>
    have hne : c ≠ ',' := by
      rintro rfl
      exact absurd hc (by decide)
    rw [count_cons_of_ne hne, ih]
  | token _ ih => rw [count_append, ih, map_cons, sum_cons]

theorem count_chars_str (raw : List Char) : (str raw).chars.count ',' = raw.count ',' := by
  rw [chars, count_cons_of_ne (by decide), count_append, count_singleton]
  rfl

/-- Stripping keeps the tokens exactly if in no string a comma is followed by a brace or a bracket that
closes. -/
theorem spaced_stripJson5_iff (hts : Derives .value ts)
    (hus : TrailingCommas ts us) (h : Commented us input) :
    Spaced ts (stripJson5 input) ↔ ∀ raw, str raw ∈ ts → ¬HasTrailing raw := by
  have hspaced := spaced_stripJson5 hts hus h
  constructor
  · intro hsame raw hraw hhas
    have hlt : (ts.map fun t => (dropInside t).chars.count ',').sum <
        (ts.map fun t => t.chars.count ',').sum := by
      refine sum_lt_sum _ _ ?_ ⟨str raw, hraw, ?_⟩
      · rintro (_ | raw | _) -
        · exact Nat.le_refl _
        · rw [dropInside, count_chars_str, count_chars_str]
          rcases dropCommas_cases raw with ⟨heq, -⟩ | ⟨hlt, -⟩
          · rw [heq]
          · exact Nat.le_of_lt hlt
        · exact Nat.le_refl _
      · rw [dropInside, count_chars_str, count_chars_str]
        exact ((dropCommas_cases raw).resolve_left fun h => h.2 hhas).1
    have hcount := (count_of_spaced hspaced).symm.trans (count_of_spaced hsame)
    rw [map_map] at hcount
    exact absurd hcount (Nat.ne_of_lt hlt)
  · intro hnone
    have hmap : ts.map dropInside = ts := by
      refine (map_congr_left fun t ht => ?_).trans (map_id ts)
      cases t with
      | str raw =>
        have hkeeps := (dropCommas_cases raw).resolve_right fun h => hnone raw ht h.2
        exact congrArg str hkeeps.1
      | _ => rfl
    rw [hmap] at hspaced
    exact hspaced

/-! ## Setting and unsetting values -/

/-- `read_json_file`: a file that does not exist is an empty object. -/
def readJsonFile (parse : List Char → Option Json) : Option (List Char) → Option Json
  | none => some (.obj [])
  | some content => parse (stripJson5 content)

def splitDotPath (dotPath : List Char) : List String := (Text.pieces '.' dotPath).map String.ofList

/-- An object for the next part of a path: what is there, or an empty one. -/
def objectAt (node : Json) (key : String) : Json :=
  match node.find? key with
  | some (.obj fields) => .obj fields
  | _ => .obj []

/-- `RavBotConfig::SetValue`: the walk along the path.  A path without parts is an error. -/
def setAt (value : Json) : List String → Json → Option Json
  | [], _ => none
  | [key], node => node.set key value
  | key :: parts, node => do
      let child ← setAt value parts (objectAt node key)
      node.set key child

/-- `erase`: throws when `node` is no object. -/
def eraseKey (node : Json) (key : String) : Option Json :=
  match node with
  | .obj fields => some (.obj (fields.filter (·.1 ≠ key)))
  | _ => none

/-- `RavBotConfig::UnsetValue`: the walk along the path.  `some none` where the path does not exist and nothing
is written. -/
def unsetAt : List String → Json → Option (Option Json)
  | [], _ => none
  | [key], node => (eraseKey node key).map some
  | key :: parts, node =>
    match node.find? key with
    | some (.obj fields) =>
      (unsetAt parts (.obj fields)).bind fun
        | none => some none
        | some child => (node.set key child).map some
    | _ => some none

/-- `RavBotConfig::SetValue`: what is written to the file. -/
def setValue (parse : List Char → Option Json) (file : Option (List Char)) (dotPath : List Char)
    (value : Json) : Option Json := do
  let root ← readJsonFile parse file
  setAt value (splitDotPath dotPath) root

/-- `RavBotConfig::UnsetValue`: what is written to the file, if anything. -/
def unsetValue (parse : List Char → Option Json) (file : Option (List Char)) (dotPath : List Char) :
    Option (Option Json) := do
  let root ← readJsonFile parse file
  unsetAt (splitDotPath dotPath) root

def valueAt (j : Json) : List String → Option Json
  | [] => some j
  | key :: parts => (j.find? key).bind (valueAt · parts)

def Unrelated (path path' : List String) : Prop := ¬path <+: path' ∧ ¬path' <+: path

variable {key : String}

theorem find?_set {j v j' : Json} (h : j.set key v = some j') (k : String) :
    j'.find? k = if k = key then some v else j.find? k := by
  cases j with
  | null =>
    cases h
    exact Json.lookup_insertField key k v []
  | obj fields =>
    cases h
    exact Json.lookup_insertField key k v fields
  | _ => cases h

theorem find?_eraseKey {j j' : Json} (h : eraseKey j key = some j') {k : String}
    (hk : k ≠ key) : j'.find? k = j.find? k := by
  cases j with
  | obj fields =>
    cases h
    rw [Json.find?, Json.find?]
    induction fields with
    | nil => rfl
    | cons field fields ih =>
      rw [filter_cons, lookup_cons]
      split_ifs with hkeep
      · rw [lookup_cons, ih]
      · have hne : (k == field.1) = false := by
          rw [beq_eq_false_iff_ne]
          rintro rfl
          exact hkeep (by simpa using hk)
        rw [hne, ih]
  | _ => cases h

theorem valueAt_cons_of_find?_eq {j j' : Json} (h : j'.find? key = j.find? key)
    (parts : List String) : valueAt j' (key :: parts) = valueAt j (key :: parts) := by
  rw [valueAt, valueAt, h]

theorem valueAt_objectAt (node : Json) (key : String) {parts : List String} (h : parts ≠ []) :
    valueAt (objectAt node key) parts = valueAt node (key :: parts) := by
  obtain ⟨part, parts, rfl⟩ := exists_cons_of_ne_nil h
  rw [objectAt, valueAt, valueAt]
  cases node.find? key with
  | none => rfl
  | some v => cases v <;> rfl

theorem Unrelated.tail {parts parts' : List String}
    (h : Unrelated (key :: parts) (key :: parts')) : parts' ≠ [] ∧ Unrelated parts parts' := by
  refine ⟨?_, fun hpre => h.1 (cons_prefix_cons.2 ⟨rfl, hpre⟩),
    fun hpre => h.2 (cons_prefix_cons.2 ⟨rfl, hpre⟩)⟩
  rintro rfl
  exact h.2 (cons_prefix_cons.2 ⟨rfl, nil_prefix⟩)

theorem valueAt_setAt {value : Json} {path : List String} {root root' : Json}
    (h : setAt value path root = some root') {path' : List String} (hun : Unrelated path path') :
    valueAt root' path' = valueAt root path' := by
  induction path generalizing root root' path' with
  | nil => cases h
  | cons key parts ih =>
    cases path' with
    | nil => exact absurd nil_prefix hun.2
    | cons key' parts' =>
      have hother {v : Json} (hset : root.set key v = some root') (hne : key' ≠ key) :
          valueAt root' (key' :: parts') = valueAt root (key' :: parts') := by
        refine valueAt_cons_of_find?_eq ?_ parts'
        rw [find?_set hset, if_neg hne]
      cases parts with
      | nil =>
        refine hother h ?_
        rintro rfl
        exact hun.1 (cons_prefix_cons.2 ⟨rfl, nil_prefix⟩)
      | cons part parts =>
        obtain ⟨child, hchild, hset⟩ := Option.bind_eq_some_iff.1 h
        by_cases hne : key' = key
        · subst hne
          obtain ⟨hparts', hun'⟩ := hun.tail
          rw [← valueAt_objectAt root key' hparts', ← ih hchild hun', valueAt,
            find?_set hset, if_pos rfl]
          rfl
        · exact hother hset hne

theorem valueAt_unsetAt {path : List String} {root root' : Json}
    (h : unsetAt path root = some (some root')) {path' : List String}
    (hun : Unrelated path path') : valueAt root' path' = valueAt root path' := by
  induction path generalizing root root' path' with
  | nil => cases h
  | cons key parts ih =>
    cases path' with
    | nil => exact absurd nil_prefix hun.2
    | cons key' parts' =>
      cases parts with
      | nil =>
        have hne : key' ≠ key := by
          rintro rfl
          exact hun.1 (cons_prefix_cons.2 ⟨rfl, nil_prefix⟩)
        obtain ⟨j, herase, hj⟩ := Option.map_eq_some_iff.1 h
        cases hj
        exact valueAt_cons_of_find?_eq (find?_eraseKey herase hne) parts'
      | cons part parts =>
        rw [unsetAt] at h
        split at h
        next fields hfield =>
          obtain ⟨r, hr, hset⟩ := Option.bind_eq_some_iff.1 h
          cases r with
          | none => cases hset
          | some child =>
            obtain ⟨j, hset, hj⟩ := Option.map_eq_some_iff.1 hset
            cases hj
            by_cases hne : key' = key
            · subst hne
              obtain ⟨-, hun'⟩ := hun.tail
              rw [valueAt, valueAt, find?_set hset, if_pos rfl, hfield]
              exact ih hr hun'
            · refine valueAt_cons_of_find?_eq ?_ parts'
              rw [find?_set hset, if_neg hne]
        next => cases h
        next => exact nofun

/-- What is written to the file keeps the values of the text at paths that have nothing to do with the one that
is set or unset. -/
structure KeepsUnrelated (parse : List Char → Option Json) (original input : List Char) : Prop where
  set : ∀ dotPath value root', setValue parse (some input) dotPath value = some root' →
    ∃ root, parse original = some root ∧
      ∀ path, Unrelated (splitDotPath dotPath) path → valueAt root' path = valueAt root path
  unset : ∀ dotPath root', unsetValue parse (some input) dotPath = some (some root') →
    ∃ root, parse original = some root ∧
      ∀ path, Unrelated (splitDotPath dotPath) path → valueAt root' path = valueAt root path

theorem keepsUnrelated_of_parse_eq {parse : List Char → Option Json} {original : List Char}
    (h : parse (stripJson5 input) = parse original) : KeepsUnrelated parse original input where
  set dotPath value root' hset := by
    obtain ⟨root, hroot, hset⟩ := Option.bind_eq_some_iff.1 hset
    exact ⟨root, h ▸ hroot, fun path hun => valueAt_setAt hset hun⟩
  unset dotPath root' hunset := by
    obtain ⟨root, hroot, hunset⟩ := Option.bind_eq_some_iff.1 hunset
    exact ⟨root, h ▸ hroot, fun path hun => valueAt_unsetAt hunset hun⟩

/-- Let comments and trailing commas be put into a JSON text.  Stripping gives back the tokens of the text if and
only if in no string of it a comma is followed by a brace or a bracket that closes.  Then the stripped text has
the value of the text for every parser to which white space between tokens means nothing, and setting and
unsetting values keeps all others. -/
theorem stripJson5_iff {parse : List Char → Option Json}
    (hspace : ∀ {ts s s'}, Derives .value ts → Spaced ts s → Spaced ts s' → parse s = parse s')
    {ts us : List Token} {original input : List Char} (hts : Derives .value ts)
    (horiginal : Spaced ts original) (hus : TrailingCommas ts us) (hinput : Commented us input) :
    (Spaced ts (stripJson5 input) ↔ ∀ raw, str raw ∈ ts → ¬HasTrailing raw) ∧
      ((∀ raw, str raw ∈ ts → ¬HasTrailing raw) →
        parse (stripJson5 input) = parse original ∧ KeepsUnrelated parse original input) := by
  have hiff := spaced_stripJson5_iff hts hus hinput
  refine ⟨hiff, fun hnone => ?_⟩
  have hparse := hspace hts (hiff.2 hnone) horiginal
  exact ⟨hparse, keepsUnrelated_of_parse_eq hparse⟩

/-! ## Strings on their own -/

def parseString (s : List Char) : Option Json :=
  match s.filter (!isBlank ·) with
  | '"' :: rest => some (.str (String.ofList rest.dropLast))
  | _ => none

theorem filter_of_spaced (h : Spaced ts s) :
    s.filter (!isBlank ·) = ts.flatMap fun t => t.chars.filter (!isBlank ·) := by
  induction h with
  | nil => rfl
  | blank hc _ ih => rw [filter_cons_of_neg (by rw [hc]; exact nofun), ih]
  | token _ ih => rw [filter_append, ih, flatMap_cons]

theorem parseString_eq {s' : List Char} (h : Spaced ts s) (h' : Spaced ts s') :
    parseString s = parseString s' := by
  rw [parseString, parseString, filter_of_spaced h, filter_of_spaced h']

/-- A string that loses a comma. -/
theorem parse_stripJson5_ne :
    ∃ parse : List Char → Option Json,
      (∀ {ts s s'}, Derives .value ts → Spaced ts s → Spaced ts s' → parse s = parse s') ∧
        ∃ ts text, Derives .value ts ∧ Spaced ts text ∧ parse (stripJson5 text) ≠ parse text := by
  have hraw : RawString ",\x7d".toList :=
    .char (by decide) (by decide) (.char (by decide) (by decide) .nil)
  refine ⟨parseString, fun _ => parseString_eq, [str ",\x7d".toList], "\",\x7d\"".toList, .str hraw,
    .token .nil, ?_⟩
  intro heq
  have hstrip : parseString (stripJson5 "\",\x7d\"".toList) = some (.str "\x7d") := by rfl
  have htext : parseString "\",\x7d\"".toList = some (.str ",\x7d") := by rfl
  rw [hstrip, htext, Option.some.injEq, Json.str.injEq] at heq
  revert heq
  decide

/-- A string with a comment behind it. -/
theorem stripJson5_iff_comment :
    (∀ {ts s s'}, Derives .value ts → Spaced ts s → Spaced ts s' → parseString s = parseString s') ∧
      Derives .value [str ['a']] ∧ Spaced [str ['a']] "\"a\"".toList ∧
      TrailingCommas [str ['a']] [str ['a']] ∧ Commented [str ['a']] "\"a\"//b".toList ∧
      ((∀ raw, str raw ∈ [str ['a']] → ¬HasTrailing raw) →
        parseString (stripJson5 "\"a\"//b".toList) = parseString "\"a\"".toList ∧
          KeepsUnrelated parseString "\"a\"".toList "\"a\"//b".toList) := by
  have hspace {ts : List Token} {s s' : List Char} (_ : Derives .value ts) (h : Spaced ts s)
      (h' : Spaced ts s') : parseString s = parseString s' := parseString_eq h h'
  have hts : Derives .value [str ['a']] := .str (.char (by decide) (by decide) .nil)
  have horiginal : Spaced [str ['a']] "\"a\"".toList := .token .nil
  have hinput : Commented [str ['a']] "\"a\"//b".toList := .token (.last (by decide))
  exact ⟨hspace, hts, horiginal, .refl _, hinput,
    (stripJson5_iff hspace hts horiginal (.refl _) hinput).2⟩

end RavBot.Core
