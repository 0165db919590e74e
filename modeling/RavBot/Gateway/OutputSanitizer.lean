import RavBot.Lib.Reader
import RavBot.Gateway.MessageSanitizer

/-!
# The sanitizer of outgoing messages

`SanitizeOutput` takes the boundary markers out of a message, and then, with sixteen regular expressions one
after the other, the tags that are used inside the system and some other traces of tools.  Each expression
goes over the text once, and what it cuts out may stand inside a tag of an earlier one, so that the halves of
that tag come together and are left.  `output_settles` says for which messages this does not happen.
-/

open List

namespace RavBot.Gateway

open RavBot.Lib

namespace MessageSanitizer

/-! ## The code -/

/-- A regular expression: what it matches at the front of a text, and whether `^` stands before it, so that it
matches at the beginning of a line only. -/
inductive Pattern where
  | plain (matchAt : List Char → Option Nat)
  | line (matchAt : List Char → Option Nat)

def isTerminator (c : Char) : Bool := c == '\n' || c == '\r'

/-- Match an expression at the front of a text behind the character `c`. -/
def Pattern.matchAt : Pattern → Char → List Char → Option Nat
  | plain matchAt, _, s => matchAt s
  | line matchAt, c, s => if isTerminator c then matchAt s else none

/-- `std::regex_replace` with nothing.  A text begins as if it stood behind a line. -/
def regexReplace (pattern : Pattern) (text : List Char) : List Char :=
  cutAll pattern.matchAt '\n' text

def afterWord (word s : List Char) : Option (List Char) :=
  if word.isPrefixOf (Text.toLower s) then some (s.drop word.length) else none

def afterChar (p : Char → Bool) : List Char → Option (List Char)
  | [] => none
  | c :: s => if p c then some s else none

/-- `[\s\S]*?` and a word: what comes after the first place where the word stands. -/
def afterFirst (word s : List Char) : Option (List Char) :=
  (Text.find word (Text.toLower s)).map fun n => s.drop (n + word.length)

/-- `</name>`. -/
def closeTag (name : List Char) : List Char := '<' :: '/' :: name ++ ['>']

/-- `<name>[\s\S]*?</name>`. -/
def afterPair (name s : List Char) : Option (List Char) :=
  afterWord ('<' :: name ++ ['>']) s >>= afterFirst (closeTag name)

/-- `<name[^>]*>[\s\S]*?</name>`. -/
def afterPairWith (name s : List Char) : Option (List Char) := do
  let rest ← afterWord ('<' :: name) s
  let rest ← afterChar (· == '>') (rest.dropWhile (· != '>'))
  afterFirst (closeTag name) rest

/-- `^\s*[$#]\s+.*$` without the `^`. -/
def afterCommand (s : List Char) : Option (List Char) := do
  let rest ← afterChar (fun c => c == '$' || c == '#') (s.dropWhile Text.isSpace)
  let rest ← afterChar Text.isSpace rest
  return (rest.dropWhile Text.isSpace).dropWhile (!isTerminator ·)

def extensions : List (List Char) :=
  ["cpp:", "hpp:", "h:", "c:", "py:", "js:", "ts:"].map String.toList

/-- `\.(cpp|hpp|h|c|py|js|ts):\d+`. -/
def afterExtension (s : List Char) : Option (List Char) := do
  let rest ← afterWord ['.'] s
  let rest ← extensions.findSome? fun extension => afterWord extension rest
  let rest ← afterChar Char.isDigit rest
  return rest.dropWhile Char.isDigit

/-- `\S*\.(cpp|hpp|h|c|py|js|ts):\d+`: the last place where it can end before white space. -/
def afterLastExtension : List Char → Option (List Char)
  | [] => none
  | c :: s => (if Text.isSpace c then none else afterLastExtension s).or (afterExtension (c :: s))

/-- `\S+\.(cpp|hpp|h|c|py|js|ts):\d+`. -/
def afterPath : List Char → Option (List Char)
  | [] => none
  | c :: s => if Text.isSpace c then none else afterLastExtension s

/-- `\w`. -/
def isWord (c : Char) : Bool := c.isAlphanum || c == '_'

/-- `Tool:\s*\w+`. -/
def afterTool (s : List Char) : Option (List Char) := do
  let rest ← afterWord "tool:".toList s
  let rest ← afterChar isWord (rest.dropWhile Text.isSpace)
  return rest.dropWhile isWord

/-- `Executing:\s*.*$`. -/
def afterExecuting (s : List Char) : Option (List Char) := do
  let rest ← afterWord "executing:".toList s
  return (rest.dropWhile Text.isSpace).dropWhile (!isTerminator ·)

/-- The expressions for tags. -/
def tagPatterns : List Pattern :=
  [.plain (matched (afterPair "system.run".toList)),
    .plain (matched (afterPair "command".toList)),
    .plain (matched (afterPair "thinking".toList)),
    .plain (matched (afterPair "system".toList)),
    .plain (matched (afterPair "internal".toList)),
    .plain (matched (afterPair "debug".toList)),
    .plain (matched (afterPair "tool_use".toList)),
    .plain (matched (afterPair "tool_result".toList)),
    .plain (matched (afterPair "function_calls".toList)),
    .plain (matched (afterPairWith "invoke".toList)),
    .plain (matched (afterPairWith "parameter".toList)),
    .plain (matched (afterPair "system-reminder".toList))]

def systemTagPatterns : List Pattern :=
  tagPatterns ++ [.line (matched afterCommand), .plain (matched afterPath), .plain (matched afterTool),
    .plain (matched afterExecuting)]

def removeSystemTags (text : List Char) : List Char :=
  systemTagPatterns.foldl (fun result pattern => regexReplace pattern result) text

def sanitizeOutput (output : List Char) : List Char := removeSystemTags (removeBoundaryMarkers output)

/-! ## What is to hold -/

def tagNames : List (List Char) :=
  ["system.run", "command", "thinking", "system", "internal", "debug", "tool_use", "tool_result",
    "function_calls", "invoke", "parameter", "system-reminder"].map String.toList

def namesWithAttributes : List (List Char) := ["invoke", "parameter"].map String.toList

/-- An opening tag, and at the end of the text its closing tag. -/
def Paired (name w : List Char) : Prop :=
  ∃ start attributes body finish,
    w = start ++ (attributes ++ '>' :: (body ++ finish)) ∧ Text.toLower start = '<' :: name ∧
    Text.toLower finish = closeTag name ∧
    (attributes = [] ∨ name ∈ namesWithAttributes ∧ '>' ∉ attributes)

/-- The sanitizer does for a message what it is for: no tag is left with its closing tag, and sanitizing again
changes nothing. -/
structure Settles (s : List Char) : Prop where
  noPair : ∀ name ∈ tagNames, ∀ w, w <:+: sanitizeOutput s → ¬ Paired name w
  idempotent : sanitizeOutput (sanitizeOutput s) = sanitizeOutput s

/-- All the expressions that are applied: those for boundary markers, and those for system tags. -/
def patterns : List Pattern :=
  boundaryMarkers.map (fun marker => .plain (literalAt marker)) ++ .plain patternAt :: systemTagPatterns

/-- An expression matches at the beginning of a part of a text.  The part begins with the character before
the match when the expression looks at it. -/
def Pattern.Begins : Pattern → List Char → Prop
  | plain matchAt, u => (matchAt u).isSome
  | line _, [] => False
  | line matchAt, c :: u => isTerminator c ∧ (matchAt u).isSome

/-- A part of a text is a match of an expression, with the end of the line before it when the expression looks
for it. -/
def Pattern.Whole : Pattern → List Char → Prop
  | plain matchAt, u => matchAt u = some u.length
  | line _, [] => False
  | line matchAt, c :: u =>
    isTerminator c ∧ matchAt u = some u.length ∧ ∀ a ∈ u.head?, isTerminator a = false

/-- No match is joined: where a part of the text becomes a match of an expression when matches inside it are
cut out, first some of the earlier expressions and then some of it and the later ones, it begins with a match
as soon as those of the earlier ones are cut out. -/
def Unjoined (s : List Char) : Prop :=
  ∀ before p after, patterns = before ++ p :: after → ∀ a u u' t, a :: u <:+: '\n' :: s →
    CutsBy (before.map Pattern.matchAt) a u u' → CutsBy ((p :: after).map Pattern.matchAt) a u' t →
      p.Whole (a :: t) → p.Begins (a :: u')

/-! ## Reading -/

def Distinguished (words : List (List Char)) : Prop :=
  ∀ word ∈ words, ∀ word' ∈ words, word' <+: word → word' = word

theorem wordReader_findSome {words : List (List Char)} (h : Distinguished words) :
    WordReader (fun w => Text.toLower w ∈ words) fun s => words.findSome? fun word => afterWord word s := by
  intro s t
  dsimp only
  constructor
  · intro hs
    obtain ⟨word, hword, hs⟩ := exists_of_findSome?_eq_some hs
    rw [afterWord] at hs
    split_ifs at hs with hstarts
    have htake : Text.toLower (s.take word.length) = word := by
      rw [Text.toLower, map_take]
      exact (prefix_iff_eq_take.1 ( isPrefixOf_iff_prefix.1 hstarts)).symm
    refine ⟨s.take word.length, ?_, ?_⟩
    · rw [htake]
      exact hword
    · rw [← Option.some.inj hs, take_append_drop]
  · rintro ⟨w, hw, rfl⟩
    have hown : Text.toLower w <+: Text.toLower (w ++ t) := by
      rw [Text.toLower_append]
      exact prefix_append _ _
    have hsome : (words.findSome? fun word => afterWord word (w ++ t)).isSome := by
      rw [findSome?_isSome_iff]
      refine ⟨_, hw, ?_⟩
      rw [afterWord, if_pos ( isPrefixOf_iff_prefix.2 hown)]
      rfl
    obtain ⟨t', ht'⟩ := Option.isSome_iff_exists.1 hsome
    obtain ⟨word, hword, heq⟩ := exists_of_findSome?_eq_some ht'
    rw [afterWord] at heq
    split_ifs at heq with hstarts
    -- a word that the text begins with is this one
    have hsame : word = Text.toLower w := by
      have hstarts := isPrefixOf_iff_prefix.1 hstarts
      rcases Nat.le_total word.length (Text.toLower w).length with hle | hle
      · exact h _ hw _ hword (prefix_of_prefix_length_le hstarts hown hle)
      · exact (h _ hword _ hw (prefix_of_prefix_length_le hown hstarts hle)).symm
    rw [ht', ← heq, hsame, Text.length_toLower, drop_left]

theorem wordReader_afterWord (word : List Char) :
    WordReader (fun w => Text.toLower w = word) (afterWord word) := by
  intro s t
  have hdistinguished : Distinguished [word] := by
    intro w hw w' hw' _
    rw [mem_singleton.1 hw, mem_singleton.1 hw']
  have h := wordReader_findSome hdistinguished s t
  simp only [findSome?_singleton, mem_singleton] at h
  exact h

theorem wordReader_afterChar (p : Char → Bool) :
    WordReader (fun w => ∃ c, w = [c] ∧ p c) (afterChar p) := by
  intro s t
  cases s with
  | nil =>
    apply iff_of_false
    · rintro ⟨⟩
    · rintro ⟨_, ⟨c, rfl, -⟩, heq⟩
      cases heq
  | cons a s =>
    rw [afterChar]
    split_ifs with ha
    · constructor
      · rintro ⟨⟩
        exact ⟨[a], ⟨a, rfl, ha⟩, rfl⟩
      · rintro ⟨_, ⟨c, rfl, -⟩, heq⟩
        rw [(List.cons.inj heq).2]
        rfl
    · apply iff_of_false
      · rintro ⟨⟩
      · rintro ⟨_, ⟨c, rfl, hc⟩, heq⟩
        rw [(List.cons.inj heq).1] at ha
        exact ha hc

/-- A text at the end of which a word stands for the first time. -/
def FirstAtEnd (word w : List Char) : Prop :=
  ∃ x, Text.toLower w = x ++ word ∧ ∀ x' y', Text.toLower w = x' ++ (word ++ y') → x.length ≤ x'.length

theorem wordReader_afterFirst (word : List Char) : WordReader (FirstAtEnd word) (afterFirst word) := by
  intro s t
  rw [afterFirst, Option.map_eq_some_iff]
  constructor
  · rintro ⟨n, hn, rfl⟩
    obtain ⟨⟨x, y, hxy, rfl⟩, hleast⟩ := Text.find_eq_some_iff.1 hn
    have htake : Text.toLower (s.take (x.length + word.length)) = x ++ word := by
      rw [Text.toLower, map_take]
      show (Text.toLower s).take _ = _
      rw [hxy, ← append_assoc, ← length_append, take_left]
    refine ⟨s.take (x.length + word.length), ⟨x, htake, fun x' y' heq => ?_⟩, ?_⟩
    · apply hleast x' (y' ++ Text.toLower (s.drop (x.length + word.length)))
      calc Text.toLower s
        _ = Text.toLower (s.take (x.length + word.length)) ++
            Text.toLower (s.drop (x.length + word.length)) := by
          rw [← Text.toLower_append, take_append_drop]
        _ = x' ++ (word ++ (y' ++ Text.toLower (s.drop (x.length + word.length)))) := by
          rw [heq, append_assoc, append_assoc]
    · rw [take_append_drop]
  · rintro ⟨w, ⟨x, hx, hleast⟩, rfl⟩
    have hlength : w.length = x.length + word.length := by
      rw [← Text.length_toLower, hx, length_append]
    refine ⟨x.length, Text.find_eq_some_iff.2 ⟨⟨x, Text.toLower t, ?_, rfl⟩, fun x' y' heq => ?_⟩, ?_⟩
    · rw [Text.toLower_append, hx, append_assoc]
    · by_contra hlt
      have hle : (x' ++ word).length ≤ (Text.toLower w).length := by
        rw [length_append, Text.length_toLower, hlength]
        omega
      have hfound : x' ++ word <+: Text.toLower (w ++ t) := by
        rw [heq, ← append_assoc]
        exact prefix_append _ _
      have hown : Text.toLower w <+: Text.toLower (w ++ t) := by
        rw [Text.toLower_append]
        exact prefix_append _ _
      obtain ⟨y'', hy''⟩ := prefix_of_prefix_length_le hfound hown hle
      rw [append_assoc] at hy''
      exact hlt (hleast x' y'' hy''.symm)
    · rw [← hlength, drop_left]

variable {s : List Char}

variable {word r : List Char}

theorem isSome_afterFirst (h : word <:+: Text.toLower s) : (afterFirst word s).isSome := by
  rw [afterFirst, Option.isSome_map]
  exact Text.isSome_find h

theorem reader_skipChar (q p : Char → Bool) : Reader fun s => afterChar p (s.dropWhile q) :=
  (reader_dropWhile q).bind (extends_dropWhile q) (wordReader_afterChar p).reader rfl

theorem extends_skipChar (q p : Char → Bool) : Extends fun s => afterChar p (s.dropWhile q) :=
  (extends_dropWhile q).bind (wordReader_afterChar p).reader (wordReader_afterChar p).extends

variable {read : List Char → Option (List Char)}

theorem reader_word (word : List Char) (h : Reader read)
    (hnil : read [] = none) : Reader fun s => afterWord word s >>= read :=
  (wordReader_afterWord word).reader.bind (wordReader_afterWord word).extends h hnil

theorem exists_word (h : Reader read)
    (hr : afterWord word s >>= read = some r) : ∃ w t, s = w ++ t ∧ Text.toLower w = word ∧ r <:+ t := by
  obtain ⟨t, ht, hread⟩ := Option.bind_eq_some_iff.1 hr
  obtain ⟨w, hw, rfl⟩ := (wordReader_afterWord word s t).1 ht
  exact ⟨w, t, rfl, hw, h.suffix hread⟩

theorem reader_attributes (name : List Char) :
    Reader fun s => afterChar (· == '>') (s.dropWhile (· != '>')) >>= afterFirst (closeTag name) :=
  (reader_skipChar _ _).bind (extends_skipChar _ _) (wordReader_afterFirst _).reader rfl

theorem reader_restOfLine :
    Reader fun s => some ((s.dropWhile Text.isSpace).dropWhile (!isTerminator ·)) :=
  (reader_dropWhile _).bind_total (reader_dropWhile _) fun _ => rfl

theorem reader_afterCommand : Reader afterCommand :=
  (reader_skipChar _ _).bind (extends_skipChar _ _)
    ((wordReader_afterChar _).reader.bind_total reader_restOfLine fun _ => rfl) rfl

theorem reader_toolName :
    Reader fun s => afterChar isWord (s.dropWhile Text.isSpace) >>= fun r => some (r.dropWhile isWord) :=
  (reader_skipChar _ _).bind_total (reader_dropWhile _) fun _ => rfl

theorem distinguished_extensions : Distinguished extensions := by
  have hextensions : ∀ word ∈ extensions, ∀ word' ∈ extensions,
      word'.isPrefixOf word = true → word' = word := by decide
  exact fun word hword word' hword' hfront =>
    hextensions word hword word' hword' ( isPrefixOf_iff_prefix.2 hfront)

theorem reader_extension :
    Reader fun s => (extensions.findSome? fun extension => afterWord extension s) >>= fun r =>
      afterChar Char.isDigit r >>= fun r => some (r.dropWhile Char.isDigit) := by
  have hextension := wordReader_findSome distinguished_extensions
  apply hextension.reader.bind hextension.extends _ rfl
  exact (wordReader_afterChar _).reader.bind_total (reader_dropWhile _) fun _ => rfl

theorem reader_afterExtension : Reader afterExtension := reader_word _ reader_extension rfl

theorem length_lt_of_afterExtension (h : afterExtension s = some r) : r.length < s.length := by
  obtain ⟨w, t, rfl, hw, hr⟩ := exists_word reader_extension h
  have hlength := congrArg List.length hw
  rw [Text.length_toLower, length_singleton] at hlength
  have hle := hr.length_le
  rw [length_append]
  omega

theorem length_lt_of_afterLastExtension (h : afterLastExtension s = some r) :
    r.length < s.length := by
  induction s with
  | nil => cases h
  | cons c s ih =>
    rw [afterLastExtension, Option.or_eq_some_iff] at h
    rcases h with h | ⟨-, h⟩
    · split_ifs at h
      exact (ih h).trans (Nat.lt_succ_self _)
    · exact length_lt_of_afterExtension h

theorem afterLastExtension_mono (t : List Char) (h : (afterLastExtension s).isSome) :
    (afterLastExtension (s ++ t)).isSome := by
  induction s with
  | nil => cases h
  | cons c s ih =>
    rw [afterLastExtension, Option.isSome_or, Bool.or_eq_true] at h
    rw [cons_append, afterLastExtension, Option.isSome_or, Bool.or_eq_true]
    apply h.imp
    · intro h
      split_ifs at h ⊢
      · cases h
      · exact ih h
    · exact reader_afterExtension.mono t

theorem reader_afterLastExtension : Reader afterLastExtension where
  suffix {s r} hr := by
    induction s with
    | nil => cases hr
    | cons c s ih =>
      rw [afterLastExtension, Option.or_eq_some_iff] at hr
      rcases hr with hr | ⟨-, hr⟩
      · split_ifs at hr
        exact (ih hr).trans (suffix_cons c s)
      · exact reader_afterExtension.suffix hr
  mono := afterLastExtension_mono
  trunc {w y z} htrunc := by
    induction w with
    | nil => exact absurd (length_lt_of_afterLastExtension htrunc) (lt_irrefl _)
    | cons c w ih =>
      rw [cons_append, afterLastExtension, Option.or_eq_some_iff] at htrunc ⊢
      apply htrunc.imp
      · intro hlater
        split_ifs at hlater ⊢
        exact ih hlater
      · rintro ⟨hnone, hhere⟩
        refine ⟨?_, reader_afterExtension.trunc (w := c :: w) hhere⟩
        split_ifs at hnone ⊢
        · rfl
        · -- what is not found when the text goes on is not found when it ends
          cases hshort : afterLastExtension (w ++ y) with
          | none => rfl
          | some r =>
            have hsome := afterLastExtension_mono z (by rw [hshort]; rfl)
            rw [append_assoc, hnone] at hsome
            cases hsome

theorem reader_afterPath : Reader afterPath where
  suffix {s r} hr := by
    cases s with
    | nil => cases hr
    | cons c s =>
      rw [afterPath] at hr
      split_ifs at hr
      exact (reader_afterLastExtension.suffix hr).trans (suffix_cons c s)
  mono {s} t hsome := by
    cases s with
    | nil => cases hsome
    | cons c s =>
      rw [afterPath] at hsome
      rw [cons_append, afterPath]
      split_ifs at hsome ⊢
      · cases hsome
      · exact reader_afterLastExtension.mono t hsome
  trunc {w y z} htrunc := by
    cases w with
    | nil =>
      cases hyz : y ++ z with
      | nil =>
        rw [nil_append, hyz] at htrunc
        cases htrunc
      | cons c s =>
        rw [nil_append, hyz, afterPath] at htrunc
        split_ifs at htrunc
        have hlt := length_lt_of_afterLastExtension htrunc
        rw [length_cons] at hlt
        omega
    | cons c w =>
      rw [cons_append, afterPath] at htrunc ⊢
      split_ifs at htrunc ⊢
      exact reader_afterLastExtension.trunc htrunc

/-! ## Searching -/

/-- What an expression without `^` is to be like: a match has two characters at least and does not begin with
white space; it does not go away when the text goes on; and it is the same when the text ends earlier. -/
structure Plain (matchAt : List Char → Option Nat) : Prop where
  starts : ∀ {s n}, matchAt s = some n →
    ∃ a b u, s = a :: b :: u ∧ Text.isSpace a = false ∧ 2 ≤ n ∧ n ≤ s.length
  mono : ∀ {s} t, (matchAt s).isSome → (matchAt (s ++ t)).isSome
  trunc : ∀ {w y z}, matchAt (w ++ (y ++ z)) = some w.length → matchAt (w ++ y) = some w.length

/-- What the expression with `^` is to be like: a match goes to the end of its line, and where it begins with
the end of a line, there is also one after that. -/
structure Line (matchAt : List Char → Option Nat) : Prop where
  bounds : ∀ {s n}, matchAt s = some n → 0 < n ∧ n ≤ s.length
  mono : ∀ {s} t, (matchAt s).isSome → (matchAt (s ++ t)).isSome
  trunc : ∀ {w y z}, matchAt (w ++ (y ++ z)) = some w.length → matchAt (w ++ y) = some w.length
  ends : ∀ {x d e r}, matchAt (x ++ d :: e :: r) = some (x.length + 1) →
    isTerminator e ∧ isTerminator d = false
  later : ∀ {a s}, isTerminator a → (matchAt (a :: s)).isSome → (matchAt s).isSome

def Pattern.Lawful : Pattern → Prop
  | plain matchAt => Plain matchAt
  | line matchAt => Line matchAt

variable {p : Pattern}

theorem Pattern.Lawful.search (h : p.Lawful) : Search p.matchAt := by
  cases p with
  | plain matchAt =>
    have h : Plain matchAt := h
    refine ⟨fun hn => ?_, fun t => h.mono t, h.trunc⟩
    obtain ⟨_, _, _, -, -, hpos, hle⟩ := h.starts hn
    exact ⟨by omega, hle⟩
  | line matchAt =>
    have h : Line matchAt := h
    refine ⟨fun {c s n} hn => ?_, fun {c s} t hsome => ?_, fun {c w y z} htrunc => ?_⟩
    · rw [Pattern.matchAt] at hn
      split_ifs at hn
      exact h.bounds hn
    · rw [Pattern.matchAt] at hsome ⊢
      split_ifs at hsome ⊢
      · exact h.mono t hsome
      · cases hsome
    · rw [Pattern.matchAt] at htrunc ⊢
      split_ifs at htrunc ⊢
      exact h.trunc htrunc

theorem plain_word (h : Reader read)
    (hnil : read [] = none ∨ ∀ s, (read s).isSome)
    (hword : ∃ c d tl, word = c :: d :: tl ∧ Text.isSpace c = false) :
    Plain (matched fun s => afterWord word s >>= read) := by
  have hread : Reader fun s => afterWord word s >>= read := by
    rcases hnil with hnil | htotal
    · exact reader_word word h hnil
    · exact (wordReader_afterWord word).reader.bind_total h htotal
  refine ⟨fun hn => ?_, fun t => hread.matched_mono t, hread.matched_trunc⟩
  obtain ⟨v, r, rfl, hr, rfl⟩ := hread.matched_eq_some.1 hn
  obtain ⟨w, t, heq, hlower, hsuffix⟩ := exists_word h hr
  obtain ⟨c, d, tl, rfl, hc⟩ := hword
  obtain ⟨a, w, rfl, ha, hlower⟩ := map_eq_cons_iff.1 hlower
  obtain ⟨b, w, rfl, -, -⟩ := map_eq_cons_iff.1 hlower
  have hspace : Text.isSpace a = false := by
    rw [← (Text.lowerChar_spec a).2.1, ha]
    exact hc
  refine ⟨a, b, w ++ t, heq, hspace, ?_, ?_⟩
  · have hlength := congrArg List.length heq
    have hle := hsuffix.length_le
    simp only [length_append, length_cons] at hlength
    omega
  · rw [length_append]
    exact Nat.le_add_right _ _

theorem plain_afterPair (name : List Char) : Plain (matched (afterPair name)) := by
  apply plain_word (wordReader_afterFirst _).reader (.inl rfl)
  obtain ⟨d, tl, hname⟩ : ∃ d tl, name ++ ['>'] = d :: tl :=
    exists_cons_of_ne_nil (append_ne_nil_of_right_ne_nil _ (cons_ne_nil _ _))
  exact ⟨'<', d, tl, congrArg ('<' :: ·) hname, rfl⟩

theorem plain_afterPairWith {name : List Char} (hname : name ≠ []) :
    Plain (matched (afterPairWith name)) := by
  apply plain_word (reader_attributes name) (.inl rfl)
  obtain ⟨d, tl, rfl⟩ := exists_cons_of_ne_nil hname
  exact ⟨'<', d, tl, rfl, rfl⟩

theorem plain_afterPath : Plain (matched afterPath) := by
  refine ⟨fun hn => ?_, fun t => reader_afterPath.matched_mono t, reader_afterPath.matched_trunc⟩
  obtain ⟨w, r, heq, hr, rfl⟩ := reader_afterPath.matched_eq_some.1 hn
  cases hs : w ++ r with
  | nil =>
    rw [heq, hs] at hr
    cases hr
  | cons a s =>
    rw [heq, hs, afterPath] at hr
    split_ifs at hr with hspace
    have hlt := length_lt_of_afterLastExtension hr
    have hlength := congrArg List.length hs
    rw [length_append, length_cons] at hlength
    cases s with
    | nil => cases hr
    | cons b u =>
      refine ⟨a, b, u, heq.trans hs, Bool.eq_false_iff.2 hspace, by omega, ?_⟩
      rw [heq, length_append]
      exact Nat.le_add_right _ _

theorem isSpace_of_isTerminator {c : Char} (h : isTerminator c) : Text.isSpace c := by
  rw [isTerminator, Bool.or_eq_true, beq_iff_eq, beq_iff_eq] at h
  rcases h with rfl | rfl <;> rfl

theorem afterCommand_eq_some (h : afterCommand s = some r) :
    ∃ blanks sign blank t, s = blanks ++ sign :: blank :: t ∧ Text.isSpace blank ∧
      (t.dropWhile Text.isSpace).dropWhile (!isTerminator ·) = r := by
  obtain ⟨t, ht, hrest⟩ := Option.bind_eq_some_iff.1 h
  obtain ⟨t', ht', hline⟩ := Option.bind_eq_some_iff.1 hrest
  obtain ⟨_, ⟨sign, rfl, -⟩, hsign⟩ := (wordReader_afterChar _ _ _).1 ht
  obtain ⟨_, ⟨blank, rfl, hblank⟩, rfl⟩ := (wordReader_afterChar _ _ _).1 ht'
  obtain ⟨blanks, hblanks, -⟩ := exists_blanks s
  rw [hsign] at hblanks
  exact ⟨blanks, sign, blank, t', hblanks, hblank, Option.some.inj hline⟩

theorem line_afterCommand : Line (matched afterCommand) := by
  refine ⟨fun {s n} hn => ?_, fun t => reader_afterCommand.matched_mono t,
    reader_afterCommand.matched_trunc, fun {x d e r} hn => ?_, fun {a s} ha hsome => ?_⟩
  · obtain ⟨w, r, rfl, hr, rfl⟩ := reader_afterCommand.matched_eq_some.1 hn
    obtain ⟨blanks, sign, blank, t, heq, -, hrest⟩ := afterCommand_eq_some hr
    have hle := (reader_restOfLine.suffix (congrArg some hrest)).length_le
    have hlength := congrArg List.length heq
    simp only [length_append, length_cons] at hlength ⊢
    omega
  · obtain ⟨w, r', heq, hr, hlength⟩ := reader_afterCommand.matched_eq_some.1 hn
    have hword : x ++ [d] ++ e :: r = w ++ r' := by
      rw [← heq, append_assoc, singleton_append]
    obtain ⟨rfl, rfl⟩ := append_inj hword (by rw [hlength, length_append]; rfl)
    obtain ⟨blanks, sign, blank, t, hcommand, -, hrest⟩ := afterCommand_eq_some hr
    obtain ⟨line, hline, hinside, hend⟩ := dropWhile_eq_iff.1 hrest
    obtain ⟨blanks', ht, -, hfirst⟩ := dropWhile_eq_iff.1 hline
    have hterminator : isTerminator e = true := by simpa using hend e rfl
    refine ⟨hterminator, ?_⟩
    rcases eq_nil_or_concat line with rfl | ⟨line, d', rfl⟩
    · -- the end of the line is white space, which was dropped
      have hspace := hfirst e rfl
      rw [isSpace_of_isTerminator hterminator] at hspace
      cases hspace
    · have hlast : x ++ [d] = blanks ++ sign :: blank :: (blanks' ++ line) ++ [d'] := by
        have hsplit : x ++ [d] ++ e :: r =
            blanks ++ sign :: blank :: (blanks' ++ line) ++ [d'] ++ e :: r := by
          rw [append_assoc, singleton_append, hcommand, ht]
          simp
        exact append_cancel_right hsplit
      obtain ⟨-, hd⟩ := append_inj' hlast rfl
      cases hd
      simpa using hinside d (by simp)
  · rw [isSome_matched] at hsome ⊢
    rwa [afterCommand, dropWhile_cons_of_pos (isSpace_of_isTerminator ha)] at hsome

theorem plain_literalAt {marker : List Char} (h : marker ∈ boundaryMarkers) :
    Plain (literalAt marker) := by
  have hsome {s : List Char} {n : Nat} : literalAt marker s = some n ↔ marker <+: s ∧ marker.length = n := by
    rw [literalAt]
    split_ifs with hstarts
    · rw [Option.some.injEq]
      exact (and_iff_right ( isPrefixOf_iff_prefix.1 hstarts)).symm
    · apply iff_of_false
      · rintro ⟨⟩
      · exact fun hfront => hstarts ( isPrefixOf_iff_prefix.2 hfront.1)
  refine ⟨fun {s n} hn => ?_, fun {s} t hfound => ?_, fun {w y z} htrunc => ?_⟩
  · obtain ⟨hfront, rfl⟩ := hsome.1 hn
    obtain ⟨⟨tl, heq⟩, -⟩ := variant_brackets (variant_of_mem h)
    have hle := hfront.length_le
    obtain ⟨t, rfl⟩ := hfront
    refine ⟨'\u00e2', '\u009f', '\u00a8' :: tl ++ t, ?_, rfl, ?_, hle⟩
    · rw [heq]
      rfl
    · rw [heq]
      exact Nat.le_add_left 2 _
  · obtain ⟨n, hn⟩ := Option.isSome_iff_exists.1 hfound
    obtain ⟨hfront, -⟩ := hsome.1 hn
    rw [hsome.2 ⟨hfront.trans (prefix_append s t), rfl⟩]
    rfl
  · obtain ⟨hfront, hlength⟩ := hsome.1 htrunc
    refine hsome.2 ⟨?_, hlength⟩
    apply prefix_of_prefix_length_le hfront
    · rw [← append_assoc]
      exact prefix_append _ _
    · rw [hlength, length_append]
      exact Nat.le_add_right _ _

theorem variant_closing {w : List Char} (h : Variant w) :
    (∃ t, w = t ++ ['\u00a9']) ∧ w.count '\u00a9' = 2 := by
  obtain ⟨blanks, slash, blanks', name, blanks'', rfl, hblanks, hslash, hblanks', hname, hblanks''⟩ := h
  have hspaces {bs : List Char} (hbs : ∀ c ∈ bs, Text.isSpace c) : bs.count '\u00a9' = 0 := by
    rw [count_eq_zero]
    intro hmem
    exact absurd (hbs _ hmem) (by decide)
  have hname' : name.count '\u00a9' = 0 := by
    rw [count_eq_zero]
    intro hmem
    exact absurd ((name_range hname).2 _ hmem).2 (by decide)
  have hslash' : slash.count '\u00a9' = 0 := by
    rcases hslash with rfl | rfl <;> decide
  constructor
  · have hclosing : closing = ['\u00e2', '\u009f', '\u00a9', '\u00e2', '\u009f'] ++ ['\u00a9'] := closing_eq
    refine ⟨opening ++ (blanks ++ (slash ++ (blanks' ++ (name ++ (blanks'' ++
      ['\u00e2', '\u009f', '\u00a9', '\u00e2', '\u009f']))))), ?_⟩
    rw [hclosing]
    simp only [append_assoc]
  · simp only [count_append, hspaces hblanks, hspaces hblanks', hspaces hblanks'', hname', hslash']
    decide

theorem variant_unique {w w' : List Char} (hw : Variant w) (hw' : Variant w') (h : w <+: s)
    (h' : w' <+: s) : w = w' := by
  have hshort {w w' : List Char} (hw : Variant w) (hw' : Variant w') (h : w <+: w') : w = w' := by
    obtain ⟨t, rfl⟩ := h
    rcases eq_nil_or_concat t with rfl | ⟨t, b, rfl⟩
    · rw [append_nil]
    · -- the last letter is one bracket too many
      obtain ⟨⟨u, hu⟩, hcount⟩ := variant_closing hw'
      rw [concat_eq_append, ← append_assoc] at hu
      obtain ⟨-, hb⟩ := append_inj' hu rfl
      rw [count_append, (variant_closing hw).2, concat_eq_append, hb, count_append,
        count_singleton_self] at hcount
      omega
  rcases Nat.le_total w.length w'.length with hle | hle
  · exact hshort hw hw' (prefix_of_prefix_length_le h h' hle)
  · exact (hshort hw' hw (prefix_of_prefix_length_le h' h hle)).symm

theorem plain_patternAt : Plain patternAt := by
  refine ⟨fun {s n} hn => ?_, fun {s} t hfound => ?_, fun {w y z} htrunc => ?_⟩
  · obtain ⟨w, t, rfl, rfl, hw⟩ := patternAt_sound hn
    obtain ⟨⟨tl, rfl⟩, -⟩ := variant_brackets hw
    refine ⟨'\u00e2', '\u009f', '\u00a8' :: tl ++ t, rfl, rfl, Nat.le_add_left 2 _, ?_⟩
    rw [length_append]
    exact Nat.le_add_right _ _
  · obtain ⟨n, hn⟩ := Option.isSome_iff_exists.1 hfound
    obtain ⟨w, t', rfl, -, hw⟩ := patternAt_sound hn
    rw [append_assoc]
    exact patternAt_complete hw (t' ++ t)
  · obtain ⟨w', t, heq, hlength, hw⟩ := patternAt_sound htrunc
    obtain ⟨rfl, -⟩ := append_inj heq hlength.symm
    obtain ⟨n, hn⟩ := Option.isSome_iff_exists.1 (patternAt_complete hw y)
    obtain ⟨w', t, heq, rfl, hw'⟩ := patternAt_sound hn
    rw [hn, variant_unique hw hw' (prefix_append w y) ⟨t, heq.symm⟩]

theorem lawful_of_mem : ∀ p ∈ patterns, p.Lawful := by
  simp only [patterns, systemTagPatterns, tagPatterns, forall_mem_append, forall_mem_cons,
    cons_append, nil_append, forall_mem_map]
  have hpair (name : List Char) : (Pattern.plain (matched (afterPair name))).Lawful := plain_afterPair name
  have hpairWith (name : List Char) (hname : name ≠ []) :
      (Pattern.plain (matched (afterPairWith name))).Lawful := plain_afterPairWith hname
  have htool : Plain (matched afterTool) :=
    plain_word reader_toolName (.inl rfl) ⟨_, _, _, rfl, rfl⟩
  have hexecuting : Plain (matched afterExecuting) :=
    plain_word reader_restOfLine (.inr fun _ => rfl) ⟨_, _, _, rfl, rfl⟩
  exact ⟨fun _ => plain_literalAt, plain_patternAt, hpair _, hpair _, hpair _, hpair _, hpair _, hpair _,
    hpair _, hpair _, hpair _, hpairWith _ (cons_ne_nil _ _), hpairWith _ (cons_ne_nil _ _),
    hpair _, line_afterCommand, plain_afterPath, htool, hexecuting, forall_mem_nil _⟩

/-! ## What is left -/

theorem sanitizeOutput_eq (s : List Char) :
    sanitizeOutput s = cutPasses (patterns.map Pattern.matchAt) '\n' s := by
  have herase (matchAt : List Char → Option Nat) (s : List Char) :
      eraseAll matchAt s = cutAll (Pattern.plain matchAt).matchAt '\n' s :=
    eraseFrom_eq_cutFrom matchAt 0 '\n' s
  rw [sanitizeOutput, removeSystemTags, removeBoundaryMarkers, cutPasses, foldl_map, patterns,
    foldl_append, foldl_cons, foldl_map, herase]
  simp only [herase]
  rfl

variable {ps : List Pattern}

theorem search_of_mem (h : ∀ p ∈ ps, p.Lawful) :
    ∀ matchAt ∈ ps.map Pattern.matchAt, Search matchAt := by
  intro matchAt hmem
  obtain ⟨p, hp, rfl⟩ := mem_map.1 hmem
  exact (h p hp).search

theorem sanitizeOutput_eq_self_iff (s : List Char) :
    sanitizeOutput s = s ↔ ∀ p ∈ patterns, ¬ Found p.matchAt '\n' s := by
  rw [sanitizeOutput_eq, cutPasses_eq_self_iff (search_of_mem lawful_of_mem), forall_mem_map]

theorem exists_whole (hp : p.Lawful) (h : Found p.matchAt '\n' s) :
    ∃ a t, a :: t <:+: '\n' :: s ∧ t ≠ [] ∧ p.Whole (a :: t) := by
  cases p with
  | plain matchAt =>
    have hp : Plain matchAt := hp
    obtain ⟨d, r, hr, hmatch⟩ := h
    obtain ⟨n, hn⟩ := Option.isSome_iff_exists.1 hmatch
    have hn : matchAt r = some n := hn
    obtain ⟨a, b, u, rfl, -, hpos, hle⟩ := hp.starts hn
    obtain ⟨m, rfl⟩ := Nat.exists_eq_add_of_le' hpos
    have hlength : (a :: b :: u.take m).length = m + 2 := by
      rw [length_cons, length_cons] at hle ⊢
      rw [length_take]
      omega
    have hword : matchAt ((a :: b :: u.take m) ++ ([] ++ u.drop m)) = some (a :: b :: u.take m).length := by
      rw [hlength, nil_append, cons_append, cons_append, take_append_drop]
      exact hn
    have hwhole := hp.trunc hword
    rw [append_nil] at hwhole
    refine ⟨a, b :: u.take m, ?_, cons_ne_nil _ _, hwhole⟩
    have hfront : a :: b :: u.take m <+: a :: b :: u := by
      rw [cons_prefix_cons, cons_prefix_cons]
      exact ⟨rfl, rfl, take_prefix m u⟩
    exact hfront.isInfix.trans ((suffix_cons d _).trans hr).isInfix
  | line matchAt =>
    have hp : Line matchAt := hp
    -- the last end of a line before the match
    have hlast (d : Char) (r : List Char) (hd : isTerminator d) (hmatch : (matchAt r).isSome) :
        ∃ a r', a :: r' <:+ d :: r ∧ isTerminator a ∧ (matchAt r').isSome ∧
          ∀ b ∈ r'.head?, isTerminator b = false := by
      induction r generalizing d with
      | nil => exact ⟨d, [], suffix_refl _, hd, hmatch, fun _ hb => by cases hb⟩
      | cons b r ih =>
        cases hb : isTerminator b with
        | true =>
          obtain ⟨a, r', hr', hrest⟩ := ih b hb (hp.later hb hmatch)
          exact ⟨a, r', hr'.trans (suffix_cons d _), hrest⟩
        | false =>
          refine ⟨d, b :: r, suffix_refl _, hd, hmatch, ?_⟩
          rintro _ ⟨⟩
          exact hb
    obtain ⟨d, r, hr, hmatch⟩ := h
    rw [Pattern.matchAt] at hmatch
    split_ifs at hmatch with hd
    · obtain ⟨a, r', hr', ha, hmatch', hhead⟩ := hlast d r hd hmatch
      obtain ⟨n, hn⟩ := Option.isSome_iff_exists.1 hmatch'
      obtain ⟨hpos, hle⟩ := hp.bounds hn
      have hlength : (r'.take n).length = n := length_take_of_le hle
      have hword : matchAt (r'.take n ++ ([] ++ r'.drop n)) = some (r'.take n).length := by
        rw [hlength, nil_append, take_append_drop]
        exact hn
      have hwhole := hp.trunc hword
      rw [append_nil] at hwhole
      have hne : r'.take n ≠ [] := by
        intro hnil
        rw [hnil, length_nil] at hlength
        omega
      refine ⟨a, r'.take n, ?_, hne, ha, hwhole, fun b hb => hhead b ?_⟩
      · have hfront : a :: r'.take n <+: a :: r' :=
          cons_prefix_cons.2 ⟨rfl, take_prefix n r'⟩
        exact hfront.isInfix.trans (hr'.trans hr).isInfix
      · rwa [head?_take, if_neg (by omega)] at hb
    · cases hmatch

/-- A match that is left by a pass did not begin where it begins now, when the later passes leave its
beginning. -/
theorem not_begins_of_cutAll (hp : p.Lawful) {u t : List Char} {a : Char} (hne : u ≠ [])
    (hu : a :: u <:+: '\n' :: regexReplace p s) (hwhole : p.Whole (a :: t))
    (hhead : (∃ matchAt, p = .line matchAt) → ∀ b ∈ u.head?, isTerminator b → t.head? = some b) :
    ∃ u', a :: u' <:+: '\n' :: s ∧ Cuts p.matchAt a u' u ∧ ¬ p.Begins (a :: u') := by
  cases p with
  | plain matchAt =>
    have hplain : Plain matchAt := hp
    obtain ⟨a', _, _, heq, hspace, -, -⟩ := hplain.starts hwhole
    obtain ⟨rfl, -⟩ := List.cons.inj heq
    have hinner : a :: u <:+: regexReplace (.plain matchAt) s := by
      rcases infix_cons_iff.1 hu with hfront | hinfix
      · obtain ⟨rfl, -⟩ := cons_prefix_cons.1 hfront
        cases hspace
      · exact hinfix
    obtain ⟨d, r, hr, hnone, hfront⟩ := hp.search.exists_unmatched_of_cutAll hinner
    obtain ⟨u', ⟨z, rfl⟩, hcuts⟩ := hp.search.exists_prefix_of_cutAll hne hfront
    refine ⟨u', ?_, hcuts, fun hbegins => ?_⟩
    · have hfront : a :: u' <+: a :: (u' ++ z) :=
        cons_prefix_cons.2 ⟨rfl, prefix_append u' z⟩
      exact (hfront.isInfix.trans hr.isInfix).trans (suffix_cons _ _).isInfix
    · have hsome := hplain.mono z hbegins
      have hnone : matchAt (a :: u' ++ z) = none := hnone
      rw [hnone] at hsome
      cases hsome
  | line matchAt =>
    have hline : Line matchAt := hp
    obtain ⟨ha, -, hfirst⟩ := hwhole
    obtain ⟨r, hr, hfront⟩ := hp.search.exists_suffix_of_cutAll hu
    obtain ⟨u', hu', hcuts⟩ := hp.search.exists_prefix_of_cutAll hne hfront
    refine ⟨u', ?_, hcuts, ?_⟩
    · exact (cons_prefix_cons.2 ⟨rfl, hu'⟩).isInfix.trans hr.isInfix
    · rintro ⟨-, hbegins⟩
      obtain ⟨z, rfl⟩ := hu'
      obtain ⟨n, hn⟩ := Option.isSome_iff_exists.1 (hline.mono z hbegins)
      have hmatch : (Pattern.line matchAt).matchAt a (u' ++ z) = some n := by
        rw [Pattern.matchAt, if_pos ha]
        exact hn
      obtain ⟨x, d, r', heq, rfl⟩ := hp.search.exists_word hmatch
      rw [heq] at hfront hmatch hn
      rw [cutAll_of_word hmatch] at hfront
      -- what is left behind the match begins with the end of its line
      obtain ⟨b, u, rfl⟩ := exists_cons_of_ne_nil hne
      cases r' with
      | nil =>
        rw [cutAll_nil, prefix_nil] at hfront
        cases hfront
      | cons e r' =>
        obtain ⟨he, hd⟩ := hline.ends hn
        have hnone : (Pattern.line matchAt).matchAt d (e :: r') = none := by
          rw [Pattern.matchAt, if_neg (Bool.eq_false_iff.1 hd)]
        rw [cutAll_of_none hnone, cons_prefix_cons] at hfront
        obtain ⟨rfl, -⟩ := hfront
        have hb := hfirst b (hhead ⟨matchAt, rfl⟩ b rfl he)
        rw [he] at hb
        cases hb

theorem head_eq_of_cutsBy (hps : ∀ p ∈ ps, p.Lawful)
    (hplain : ∀ p ∈ ps, ∃ matchAt, p = .plain matchAt) {a b : Char} {u t : List Char}
    (hcuts : CutsBy (ps.map Pattern.matchAt) a u t) (hb : u.head? = some b) (hspace : Text.isSpace b) :
    t.head? = some b := by
  induction ps generalizing u with
  | nil =>
    have heq : u = t := hcuts
    rw [← heq]
    exact hb
  | cons p ps ih =>
    rw [forall_mem_cons] at hps hplain
    obtain ⟨u', hcut, hrest⟩ := hcuts
    apply ih hps.2 hplain.2 hrest
    obtain ⟨matchAt, rfl⟩ := hplain.1
    have hnone : (Pattern.plain matchAt).matchAt a u = none := by
      cases hmatch : matchAt u with
      | none => exact hmatch
      | some n =>
        obtain ⟨a', _, _, rfl, hnot, -⟩ := Plain.starts hps.1 hmatch
        cases hb
        rw [hspace] at hnot
        cases hnot
    rw [hcut.head_eq hnone]
    exact hb

/-- There is a `^` before an expression. -/
def Pattern.isLine : Pattern → Bool
  | plain _ => false
  | line _ => true

theorem plain_of_after {before after : List Pattern} {matchAt : List Char → Option Nat}
    (h : patterns = before ++ .line matchAt :: after) : ∀ p ∈ after, ∃ matchAt, p = .plain matchAt := by
  intro p hp
  cases p with
  | plain matchAt => exact ⟨matchAt, rfl⟩
  | line matchAt' =>
    have hcount : patterns.countP Pattern.isLine = 1 := rfl
    have hpos : 0 < after.countP Pattern.isLine := countP_pos_iff.2 ⟨_, hp, rfl⟩
    rw [h, countP_append, countP_cons_of_pos rfl] at hcount
    omega

theorem not_found_of_unjoined (h : Unjoined s) :
    ∀ p ∈ patterns, ¬ Found p.matchAt '\n' (sanitizeOutput s) := by
  intro p hp hfound
  obtain ⟨before, after, hsplit⟩ := append_of_mem hp
  have hlawful := lawful_of_mem
  rw [hsplit, forall_mem_append, forall_mem_cons] at hlawful
  obtain ⟨hbefore, hlawful, hafter⟩ := hlawful
  obtain ⟨a, t, ht, hne, hwhole⟩ := exists_whole hlawful hfound
  rw [sanitizeOutput_eq, hsplit, map_append, map_cons, cutPasses_append_cons] at ht
  obtain ⟨u, hne', hu, hlater⟩ := exists_part_of_cutPasses (search_of_mem hafter) hne ht
  have hhead : (∃ matchAt, p = .line matchAt) → ∀ b ∈ u.head?, isTerminator b → t.head? = some b := by
    rintro ⟨matchAt, rfl⟩ b hb hterminator
    exact head_eq_of_cutsBy hafter (plain_of_after hsplit) hlater hb (isSpace_of_isTerminator hterminator)
  obtain ⟨u', hu', hcuts, hnot⟩ := not_begins_of_cutAll hlawful hne' hu hwhole hhead
  obtain ⟨v, -, hv, hearlier⟩ :=
    exists_part_of_cutPasses (search_of_mem hbefore) hcuts.ne_nil.1 hu'
  exact hnot (h before p after hsplit a v u' t hv hearlier ⟨u, hcuts, hlater⟩ hwhole)

theorem tagPatterns_eq : tagPatterns = tagNames.map fun name =>
    .plain (matched (if name ∈ namesWithAttributes then afterPairWith name else afterPair name)) := by
  rfl

theorem isSome_of_paired {name w : List Char} (h : Paired name w) :
    (name ∉ namesWithAttributes → (afterPair name w).isSome) ∧ (afterPairWith name w).isSome := by
  obtain ⟨start, attributes, body, finish, rfl, hstart, hfinish, hattributes⟩ := h
  have hclose : (afterFirst (closeTag name) (body ++ finish)).isSome := by
    apply isSome_afterFirst
    rw [Text.toLower_append, hfinish]
    exact (suffix_append _ _).isInfix
  constructor
  · intro hname
    obtain rfl : attributes = [] := hattributes.resolve_right fun hwith => hname hwith.1
    have hopen : afterWord ('<' :: name ++ ['>']) (start ++ ([] ++ '>' :: (body ++ finish))) =
        some (body ++ finish) := by
      refine (wordReader_afterWord _ _ _).2 ⟨start ++ ['>'], ?_, ?_⟩
      · show Text.toLower (start ++ ['>']) = _
        rw [Text.toLower_append, hstart]
        rfl
      · rw [append_assoc]
        rfl
    rw [afterPair, hopen]
    exact hclose
  · have hopen : afterWord ('<' :: name) (start ++ (attributes ++ '>' :: (body ++ finish))) =
        some (attributes ++ '>' :: (body ++ finish)) :=
      (wordReader_afterWord _ _ _).2 ⟨start, hstart, rfl⟩
    have hnone : ∀ c ∈ attributes, (c != '>') = true := by
      intro c hc
      rw [bne_iff_ne]
      rintro rfl
      rcases hattributes with rfl | ⟨-, hnot⟩
      · cases hc
      · exact hnot hc
    rw [afterPairWith, hopen]
    show (afterChar (· == '>') ((attributes ++ '>' :: (body ++ finish)).dropWhile (· != '>')) >>=
      afterFirst (closeTag name)).isSome
    rw [dropWhile_append_of_pos hnone]
    exact hclose

theorem exists_pattern_of_paired {name w : List Char} (hname : name ∈ tagNames) (h : Paired name w) :
    ∃ matchAt, .plain matchAt ∈ tagPatterns ∧ (matchAt w).isSome := by
  obtain ⟨hpair, hpairWith⟩ := isSome_of_paired h
  rw [tagPatterns_eq]
  refine ⟨_, mem_map_of_mem hname, ?_⟩
  rw [isSome_matched]
  split_ifs with hattributes
  · exact hpairWith
  · exact hpair hattributes

theorem mem_patterns (h : p ∈ tagPatterns) : p ∈ patterns :=
  mem_append_right _ (mem_cons_of_mem _ (mem_append_left _ h))

theorem found_of_part {matchAt : List Char → Option Nat} (h : Plain matchAt) {w : List Char}
    (hw : w <:+: s) (hmatch : (matchAt w).isSome) : Found (Pattern.plain matchAt).matchAt '\n' s := by
  obtain ⟨x, y, rfl⟩ := hw
  have hsome : (matchAt (w ++ y)).isSome := h.mono y hmatch
  rcases eq_nil_or_concat x with rfl | ⟨x, c, rfl⟩
  · exact ⟨'\n', w ++ y, suffix_refl _, hsome⟩
  · refine ⟨c, w ++ y, ⟨'\n' :: x, ?_⟩, hsome⟩
    rw [concat_eq_append, append_assoc, append_assoc]
    rfl

theorem settles_of_unjoined (h : Unjoined s) : Settles s := by
  have hleft := not_found_of_unjoined h
  refine ⟨fun name hname w hw hpaired => ?_, (sanitizeOutput_eq_self_iff _).2 hleft⟩
  obtain ⟨matchAt, hmem, hmatch⟩ := exists_pattern_of_paired hname hpaired
  have hplain : Plain matchAt := lawful_of_mem _ (mem_patterns hmem)
  exact hleft _ (mem_patterns hmem) (found_of_part hplain hw hmatch)

/-! ## Messages with one tag -/

/-- A tag stands in a text, with its closing tag, and is all that is found there; and when it is cut out, no
later expression matches. -/
structure OneTag (before : List Pattern) (matchAt : List Char → Option Nat) (after : List Pattern)
    (x w y : List Char) : Prop where
  mem : .plain matchAt ∈ tagPatterns
  split : patterns = before ++ .plain matchAt :: after
  word : matchAt w = some w.length
  only : ∀ r, r <:+ x ++ (w ++ y) → (matchAt r).isSome → r = w ++ y
  others : ∀ p ∈ before ++ after, ¬ Found p.matchAt '\n' (x ++ (w ++ y))
  later : ∀ p ∈ after, ¬ Found p.matchAt '\n' (x ++ y)

theorem stable_of_mem {matchAt : List Char → Option Nat} (h : .plain matchAt ∈ tagPatterns)
    {n : Nat} (hn : matchAt s = some n) (t : List Char) : matchAt (s ++ t) = some n := by
  have happend (word : List Char) (s r t : List Char) (hr : afterWord word s = some r) :
      afterWord word (s ++ t) = some (r ++ t) := (wordReader_afterWord word).append hr t
  have hfirst (word : List Char) (s r t : List Char) (hr : afterFirst word s = some r) :
      afterFirst word (s ++ t) = some (r ++ t) := (wordReader_afterFirst word).append hr t
  have hskip (q p : Char → Bool) (s r t : List Char) (hr : afterChar p (s.dropWhile q) = some r) :
      afterChar p ((s ++ t).dropWhile q) = some (r ++ t) := by
    have hne : s.dropWhile q ≠ [] := by
      intro hnil
      rw [hnil] at hr
      cases hr
    have hdrop := Option.some.inj (extends_dropWhile q s (s.dropWhile q) t rfl hne)
    rw [hdrop]
    exact (wordReader_afterChar p).append hr t
  rw [tagPatterns_eq, mem_map] at h
  obtain ⟨name, -, heq⟩ := h
  cases heq
  split_ifs at hn ⊢ with hattributes
  · have hread : Reader (afterPairWith name) := reader_word _ (reader_attributes name) rfl
    exact hread.matched_append (appends_bind (happend _) (appends_bind (hskip _ _) (hfirst _))) hn t
  · have hread : Reader (afterPair name) := reader_word _ (wordReader_afterFirst _).reader rfl
    exact hread.matched_append (appends_bind (happend _) (hfirst _)) hn t

namespace OneTag

variable {before after : List Pattern} {matchAt : List Char → Option Nat} {x w y : List Char}

theorem lone (h : OneTag before matchAt after x w y) :
    Lone (Pattern.plain matchAt).matchAt '\n' x w y where
  stable _ _ _ hn t := stable_of_mem h.mem hn t
  word _ := h.word
  only d r hr hmatch := by
    apply h.only r _ hmatch
    rcases suffix_cons_iff.1 hr with heq | hr
    · rw [(List.cons.inj heq).2]
    · exact (suffix_cons d r).trans hr

theorem lawful (h : OneTag before matchAt after x w y) :
    (∀ p ∈ before, p.Lawful) ∧ (Pattern.plain matchAt).Lawful ∧ ∀ p ∈ after, p.Lawful := by
  have hlawful := lawful_of_mem
  rwa [h.split, forall_mem_append, forall_mem_cons] at hlawful

theorem sanitizeOutput_eq (h : OneTag before matchAt after x w y) :
    sanitizeOutput (x ++ (w ++ y)) = x ++ y := by
  obtain ⟨hbefore, hlawful, hafter⟩ := h.lawful
  have hothers := h.others
  rw [forall_mem_append] at hothers
  have hfirst : cutPasses (before.map Pattern.matchAt) '\n' (x ++ (w ++ y)) = x ++ (w ++ y) := by
    rw [cutPasses_eq_self_iff (search_of_mem hbefore), forall_mem_map]
    exact hothers.1
  have hlast : cutPasses (after.map Pattern.matchAt) '\n' (x ++ y) = x ++ y := by
    rw [cutPasses_eq_self_iff (search_of_mem hafter), forall_mem_map]
    exact h.later
  rw [MessageSanitizer.sanitizeOutput_eq, h.split, map_append, map_cons, cutPasses_append_cons,
    hfirst, h.lone.cutAll_eq hlawful.search, hlast]

theorem cuts_eq (h : OneTag before matchAt after x w y) {p : Pattern} (hp : p ∈ patterns) {a : Char}
    {u t : List Char} (hcuts : Cuts p.matchAt a u t) (hu : a :: u <:+: '\n' :: (x ++ (w ++ y))) :
    t = u ∨ a :: t <:+: '\n' :: (x ++ y) := by
  have hsearch := (lawful_of_mem p hp).search
  rw [h.split, mem_append, mem_cons] at hp
  have hother (hmem : p ∈ before ++ after) : t = u :=
    hcuts.eq_of_not_found fun hfound => h.others p hmem (hsearch.found_of_part hfound hu)
  rcases hp with hp | rfl | hp
  · exact .inl (hother (mem_append_left _ hp))
  · obtain ⟨v, z, hvz⟩ := hu
    have hsuffix : a :: (u ++ z) <:+ '\n' :: (x ++ (w ++ y)) := by
      refine ⟨v, ?_⟩
      rw [← hvz, append_assoc]
      rfl
    rcases h.lone.cuts_eq hsearch hcuts hsuffix with heq | ⟨u₁, u₂, rfl, rfl, rfl⟩
    · exact .inl heq
    · right
      have hbefore : v ++ a :: u₁ = '\n' :: x := by
        have hsplit : (v ++ a :: u₁) ++ (w ++ (u₂ ++ z)) = ('\n' :: x) ++ (w ++ (u₂ ++ z)) := by
          rw [cons_append, ← hvz]
          simp only [append_assoc, cons_append]
        exact append_cancel_right hsplit
      refine ⟨v, z, ?_⟩
      calc v ++ a :: (u₁ ++ u₂) ++ z = v ++ a :: u₁ ++ (u₂ ++ z) := by
            simp only [append_assoc, cons_append]
        _ = '\n' :: (x ++ (u₂ ++ z)) := by rw [hbefore, cons_append]
  · exact .inl (hother (mem_append_right _ hp))

end OneTag

theorem found_of_whole (hp : p.Lawful) {a : Char} {t : List Char}
    (hwhole : p.Whole (a :: t)) (ht : a :: t <:+: '\n' :: s) : Found p.matchAt '\n' s := by
  cases p with
  | plain matchAt =>
    have hplain : Plain matchAt := hp
    have hmatch : matchAt (a :: t) = some (a :: t).length := hwhole
    obtain ⟨a', _, _, heq, hspace, -, -⟩ := hplain.starts hmatch
    obtain ⟨rfl, -⟩ := List.cons.inj heq
    apply found_of_part hplain _ (by rw [hmatch]; rfl)
    rcases infix_cons_iff.1 ht with hfront | hinfix
    · obtain ⟨rfl, -⟩ := cons_prefix_cons.1 hfront
      cases hspace
    · exact hinfix
  | line matchAt =>
    obtain ⟨ha, hmatch, -⟩ := hwhole
    apply hp.search.found_of_part _ ht
    refine ⟨a, t, suffix_refl _, ?_⟩
    rw [Pattern.matchAt, if_pos ha, hmatch]
    rfl

theorem begins_of_whole {u : List Char} (h : p.Whole u) : p.Begins u := by
  cases p with
  | plain matchAt =>
    have hmatch : matchAt u = some u.length := h
    show (matchAt u).isSome
    rw [hmatch]
    rfl
  | line matchAt =>
    cases u with
    | nil => exact h
    | cons c u =>
      obtain ⟨hc, hmatch, -⟩ := h
      refine ⟨hc, ?_⟩
      rw [hmatch]
      rfl

theorem unjoined_of_settles {before after : List Pattern} {matchAt : List Char → Option Nat}
    {x w y : List Char} (h : OneTag before matchAt after x w y) (hsettles : Settles (x ++ (w ++ y))) :
    Unjoined (x ++ (w ++ y)) := by
  have hleft : ∀ p ∈ patterns, ¬ Found p.matchAt '\n' (x ++ y) := by
    have hidempotent := hsettles.idempotent
    rw [h.sanitizeOutput_eq] at hidempotent
    exact (sanitizeOutput_eq_self_iff _).1 hidempotent
  -- nothing can be cut out of what is left
  have hstays {ps : List Pattern} (hps : ∀ p ∈ ps, p ∈ patterns) {a : Char} {u t : List Char}
      (hu : a :: u <:+: '\n' :: (x ++ y)) (hcuts : CutsBy (ps.map Pattern.matchAt) a u t) : t = u := by
    induction ps generalizing u with
    | nil =>
      have heq : u = t := hcuts
      exact heq.symm
    | cons p ps ih =>
      rw [forall_mem_cons] at hps
      obtain ⟨u', hcut, hrest⟩ := hcuts
      have heq : u' = u := hcut.eq_of_not_found fun hfound =>
        hleft p hps.1 ((lawful_of_mem p hps.1).search.found_of_part hfound hu)
      subst heq
      exact ih hps.2 hu hrest
  have hchain {ps : List Pattern} (hps : ∀ p ∈ ps, p ∈ patterns) {a : Char} {u t : List Char}
      (hu : a :: u <:+: '\n' :: (x ++ (w ++ y))) (hcuts : CutsBy (ps.map Pattern.matchAt) a u t) :
      t = u ∨ a :: t <:+: '\n' :: (x ++ y) := by
    induction ps generalizing u with
    | nil =>
      have heq : u = t := hcuts
      exact .inl heq.symm
    | cons p ps ih =>
      rw [forall_mem_cons] at hps
      obtain ⟨u', hcut, hrest⟩ := hcuts
      rcases h.cuts_eq hps.1 hcut hu with rfl | hu'
      · exact ih hps.2 hu hrest
      · right
        rw [hstays hps.2 hu' hrest]
        exact hu'
  intro before' p after' hsplit a u u' t hu hearlier hlater hwhole
  have hp : p ∈ patterns := by
    rw [hsplit]
    exact mem_append_right _ mem_cons_self
  have hbefore : ∀ q ∈ before', q ∈ patterns := fun q hq => by
    rw [hsplit]
    exact mem_append_left _ hq
  have hafter : ∀ q ∈ p :: after', q ∈ patterns := fun q hq => by
    rw [hsplit]
    exact mem_append_right _ hq
  have hnot (ht : a :: t <:+: '\n' :: (x ++ y)) : False :=
    hleft p hp (found_of_whole (lawful_of_mem p hp) hwhole ht)
  rcases hchain hbefore hu hearlier with rfl | hu'
  · rcases hchain hafter hu hlater with rfl | ht
    · exact begins_of_whole hwhole
    · exact (hnot ht).elim
  · rw [hstays hafter hu' hlater] at hnot
    exact (hnot hu').elim

/-- **When the sanitizer of outgoing messages does what it is for.**  When no match is joined in a message, no
internal tag is left with its closing tag and sanitizing again changes nothing.  For a message with one tag it
is also necessary that no match is joined. -/
theorem output_settles (s : List Char) :
    (Unjoined s → Settles s) ∧
      ∀ before matchAt after x w y, OneTag before matchAt after x w y → s = x ++ (w ++ y) →
        Settles s → Unjoined s := by
  refine ⟨settles_of_unjoined, ?_⟩
  rintro before matchAt after x w y h rfl hsettles
  exact unjoined_of_settles h hsettles

theorem not_found_of_all (hps : ∀ p ∈ ps, p ∈ patterns)
    (h : ps.all fun p => cutAll p.matchAt '\n' s == s) : ∀ p ∈ ps, ¬ Found p.matchAt '\n' s := by
  intro p hp
  rw [← (lawful_of_mem p (hps p hp)).search.cutAll_eq_self_iff]
  exact beq_iff_eq.1 (all_eq_true.1 h p hp)

def command : List Char := "<command>x</command>".toList

theorem oneTag_command : OneTag (patterns.take 10) (matched (afterPair "command".toList))
    (patterns.drop 11) ['a'] command ['b'] where
  mem := mem_cons_of_mem _ mem_cons_self
  split := rfl
  word := by decide +kernel
  only r hr hmatch := by
    have hall : ∀ r ∈ (['a'] ++ (command ++ ['b'])).tails,
        (matched (afterPair "command".toList) r).isSome → r = command ++ ['b'] := by decide +kernel
    exact hall r ((mem_tails r _).2 hr) hmatch
  others := by
    apply not_found_of_all
    · intro p hp
      rcases mem_append.1 hp with hp | hp
      · exact mem_of_mem_take hp
      · exact mem_of_mem_drop hp
    · decide +kernel
  later := not_found_of_all (fun _ hp => mem_of_mem_drop hp) (by decide +kernel)

/-- The sanitizer takes the tag out of a message with one tag. -/
theorem output_settles_command : Settles (['a'] ++ (command ++ ['b'])) := by
  have hleft : sanitizeOutput (['a'] ++ (command ++ ['b'])) = ['a', 'b'] := oneTag_command.sanitizeOutput_eq
  have hsettles : Settles (['a'] ++ (command ++ ['b'])) := by
    refine ⟨fun name _ w hw hpaired => ?_, ?_⟩
    · obtain ⟨start, attributes, body, finish, rfl, -⟩ := hpaired
      rw [hleft] at hw
      have hmem : '>' ∈ ['a', 'b'] := hw.subset (by simp)
      exact absurd hmem (by decide)
    · rw [hleft]
      decide +kernel
  apply (output_settles _).1
  exact (output_settles _).2 _ _ _ _ _ _ oneTag_command rfl hsettles

/-- A text in which the halves of a tag stand around another tag. -/
def joined : List Char := "<comm<thinking></thinking>and>x</command>".toList

/-- The sanitizer does not always do what it is for: the halves of a tag come together when another one is cut
out from between them. -/
theorem not_output_settles : ¬ ∀ s, Settles s := by
  intro h
  have hleft : sanitizeOutput joined = "<command>x</command>".toList := by decide +kernel
  apply (h joined).noPair "command".toList (by decide) _ (infix_refl _)
  rw [hleft]
  exact ⟨"<command".toList, [], "x".toList, "</command>".toList, by decide, by decide, by decide, .inl rfl⟩

end MessageSanitizer

end RavBot.Gateway
