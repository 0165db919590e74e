import RavBot.Security.ExternalContent

/-!
# Getting wrapped content back

`Unwrap` looks for the first separator behind the start marker and for the last end marker, and
`ValidateMarkers` for the first of both in the folded text.  The lines about the source stand between the
start marker and the separator that `Wrap` writes, and their texts are not looked at.

The last end marker is always the one that `Wrap` wrote, and the first start marker as well.  So the content
comes back exactly when the lines about the source have no separator of their own, and the markers are
valid exactly when these lines have no end marker before the first separator (`roundTrip_iff`).
-/

open List

namespace RavBot.Security.ExternalContentWrapper

open RavBot.Lib

/-! ## The code -/

def startHead : List Char := "<<<EXTERNAL_UNTRUSTED_CONTENT id=\"".toList

def markerEnd : List Char := "\">>>".toList

def separator : List Char := "---\n".toList

/-- The letters of `[0-9a-f]`, in capitals or not. -/
def hexLetters (icase : Bool) : List Char :=
  if icase then "0123456789abcdefABCDEF".toList else "0123456789abcdef".toList

/-- Match `kStartRe` at the front of a text: the id. -/
def startId? (icase : Bool) (s : List Char) : Option (List Char) :=
  let translate := fun s => if icase then Text.toLower s else s
  let rest := s.drop startHead.length
  let digits := rest.take 16
  if (translate startHead).isPrefixOf (translate s) ∧ digits.length = 16 ∧
      (digits.all fun c => (hexLetters icase).contains c) ∧ markerEnd.isPrefixOf (rest.drop 16) then
    some digits
  else none

/-- `regex_search` with `kStartRe`: the position and the id of the first match. -/
def searchStart (icase : Bool) : List Char → Option (Nat × List Char)
  | [] => none
  | c :: s =>
    match startId? icase (c :: s) with
    | some id => some (0, id)
    | none => (searchStart icase s).map fun (pos, id) => (pos + 1, id)

/-- `make_end_marker`, for an id that was read. -/
def endMarker (id : List Char) : List Char := "<<<".toList ++ Kind.stop.name ++ " id=\"".toList ++ id ++ markerEnd

def unwrap (wrapped : List Char) : Option (List Char) := do
  let (startPos, markerId) ← searchStart false wrapped
  let endPos ← Text.rfind (endMarker markerId) wrapped
  let sepPos ← (Text.find separator (wrapped.drop startPos)).map (startPos + ·)
  if endPos ≤ sepPos then none
  else
    let contentStart := sepPos + 4
    if endPos ≤ contentStart then none
    else
      let content := (wrapped.drop contentStart).take (endPos - contentStart)
      return content.rdropWhile (· = '\n')

def validateMarkers (wrapped : List Char) : Bool :=
  let folded := foldMarkerText wrapped
  match searchStart true folded with
  | none => false
  | some (startPos, markerId) =>
    match (Text.find (endMarker markerId) (folded.drop startPos)).map (startPos + ·) with
    | none => false
    | some endPos =>
      if endPos ≤ startPos then false
      else
        match (Text.find separator (folded.drop startPos)).map (startPos + ·) with
        | none => false
        | some sepPos => sepPos < endPos

/-- What `generate_marker_id` gives: the letters are small. -/
structure GeneratedId extends MarkerId where
  small : ∀ c ∈ digits, c ∈ hexLetters false

/-! ## What is to hold -/

/-- `Unwrap` gives the sanitized content back, without line feeds at its end, and the markers are valid. -/
def RoundTrip (content : List Char) (source : ContentSource) (id : GeneratedId) : Prop :=
  unwrap (wrap content source id.toMarkerId) = some ((replaceMarkers content).rdropWhile (· = '\n')) ∧
    validateMarkers (wrap content source id.toMarkerId) = true

def Unseparated (source : ContentSource) : Prop := ¬ separator <:+: metadata source ++ ['\n']

/-- In the folded lines about the source a separator comes before every end marker with this id. -/
def EndsBehind (source : ContentSource) (id : MarkerId) : Prop :=
  ∀ x y, foldMarkerText (metadataBlock source) = x ++ (makeMarker .stop id ++ y) → separator <:+: x

/-! ## The start marker -/

theorem makeMarker_start (id : MarkerId) :
    makeMarker .start id = startHead ++ (id.digits ++ markerEnd) := by
  have hhead : "<<<".toList ++ Kind.start.name ++ " id=\"".toList = startHead := by decide
  rw [makeMarker, hhead, append_assoc]
  rfl

variable {id : MarkerId}

theorem startId?_append (icase : Bool) (h : ∀ c ∈ id.digits, c ∈ hexLetters icase)
    (s : List Char) : startId? icase (makeMarker .start id ++ s) = some id.digits := by
  have htake : (id.digits ++ (markerEnd ++ s)).take 16 = id.digits := by
    rw [← id.length_digits, take_left]
  have hdrop : (id.digits ++ (markerEnd ++ s)).drop 16 = markerEnd ++ s := by
    rw [← id.length_digits, drop_left]
  rw [makeMarker_start, append_assoc, append_assoc, startId?, drop_left]
  dsimp only
  rw [htake, hdrop]
  refine if_pos ⟨?_, id.length_digits, ?_, ?_⟩
  · rw [ isPrefixOf_iff_prefix]
    cases icase with
    | false => exact prefix_append _ _
    | true =>
      rw [if_pos rfl, if_pos rfl, Text.toLower_append]
      exact prefix_append _ _
  · exact all_eq_true.2 fun c hc => contains_iff_mem.2 (h c hc)
  · exact isPrefixOf_iff_prefix.2 (prefix_append _ s)

theorem startId?_of_ne (icase : Bool) {c : Char} (hc : c ≠ '<') (s : List Char) :
    startId? icase (c :: s) = none := by
  refine if_neg fun h => ?_
  have hpre := isPrefixOf_iff_prefix.1 h.1
  cases icase with
  | false => exact hc (cons_prefix_cons.1 hpre).1.symm
  | true =>
    have hlower : '<' = Text.lowerChar c := (cons_prefix_cons.1 hpre).1
    exact hc (eq_of_lowerChar hlower.symm (by decide))

theorem searchStart_append (icase : Bool) (h : ∀ c ∈ id.digits, c ∈ hexLetters icase)
    {front : List Char} (hfront : '<' ∉ front) (s : List Char) :
    searchStart icase (front ++ (makeMarker .start id ++ s)) = some (front.length, id.digits) := by
  induction front with
  | nil =>
    have hread := startId?_append icase h s
    obtain ⟨⟨a, m, hm, -⟩, -⟩ := makeMarker_front .start id
    rw [hm, cons_append] at hread
    rw [nil_append, hm, cons_append, searchStart, hread]
    rfl
  | cons c front ih =>
    rw [mem_cons, not_or] at hfront
    rw [cons_append, searchStart, startId?_of_ne icase (Ne.symm hfront.1), ih hfront.2]
    rfl

/-! ## The letters of markers -/

theorem endMarker_digits (id : MarkerId) : endMarker id.digits = makeMarker .stop id := rfl

theorem disjoint_makeMarker (k : Kind) (id : MarkerId) :
    '-' ∉ makeMarker k id ∧ '\n' ∉ makeMarker k id := by
  have hdigits : '-' ∉ id.digits ∧ '\n' ∉ id.digits :=
    ⟨fun hmem => absurd (id.mem_hex _ hmem) (by decide), fun hmem => absurd (id.mem_hex _ hmem) (by decide)⟩
  have hname : '-' ∉ k.name ∧ '\n' ∉ k.name := by cases k <;> decide
  constructor
  · simp only [makeMarker, mem_append, not_or]
    exact ⟨⟨⟨⟨by decide, hname.1⟩, by decide⟩, hdigits.1⟩, by decide⟩
  · simp only [makeMarker, mem_append, not_or]
    exact ⟨⟨⟨⟨by decide, hname.2⟩, by decide⟩, hdigits.2⟩, by decide⟩

theorem separator_eq : separator = ['-', '-', '-', '\n'] := rfl

theorem separator_disjoint (k : Kind) (id : MarkerId) : separator.Disjoint (makeMarker k id) := by
  obtain ⟨hdash, hline⟩ := disjoint_makeMarker k id
  intro c hc hmem
  rw [separator_eq] at hc
  simp only [mem_cons, not_mem_nil, or_false] at hc
  rcases hc with rfl | rfl | rfl | rfl
  · exact hdash hmem
  · exact hdash hmem
  · exact hdash hmem
  · exact hline hmem

theorem makeMarker_ne_nil (k : Kind) (id : MarkerId) : makeMarker k id ≠ [] := by
  obtain ⟨⟨a, m, hm, -⟩, -⟩ := makeMarker_front k id
  rw [hm]
  exact cons_ne_nil _ _

/-! ## Separators -/

theorem separator_cases {s x q : List Char} (h : s ++ separator = x ++ (separator ++ q)) :
    q = [] ∧ s = x ∨ '-' ∈ q ∧ separator <:+: s := by
  rw [← append_assoc] at h
  rcases append_eq_append_iff.1 h with ⟨d, hd, hrest⟩ | ⟨d, rfl, hrest⟩
  · -- a part of the last separator ends the one found, and so it is all of it
    rw [separator_eq] at hd hrest
    rcases d with _ | ⟨a, _ | ⟨b, _ | ⟨c, _ | ⟨e, d⟩⟩⟩⟩
    · rw [append_nil] at hd
      rw [nil_append] at hrest
      rw [← hrest, ← hd]
      exact .inr ⟨mem_cons_self, x, [], by rw [append_nil]; rfl⟩
    · have hlast := congrArg List.getLast? hd
      simp only [cons_append, nil_append, List.cons.injEq] at hrest
      rw [getLast?_append, getLast?_append, hrest.1.symm] at hlast
      exact absurd hlast (by simp)
    · have hlast := congrArg List.getLast? hd
      simp only [cons_append, nil_append, List.cons.injEq] at hrest
      rw [getLast?_append, getLast?_append, hrest.2.1.symm] at hlast
      exact absurd hlast (by simp)
    · have hlast := congrArg List.getLast? hd
      simp only [cons_append, nil_append, List.cons.injEq] at hrest
      rw [getLast?_append, getLast?_append, hrest.2.2.1.symm] at hlast
      exact absurd hlast (by simp)
    · simp only [cons_append, List.cons.injEq] at hrest
      obtain ⟨rfl, rfl, rfl, rfl, hnil⟩ := hrest
      obtain ⟨rfl, rfl⟩ := append_eq_nil_iff.1 hnil.symm
      exact .inl ⟨rfl, (append_cancel_right hd).symm⟩
  · refine .inr ⟨?_, x, d, rfl⟩
    rw [hrest, separator_eq]
    exact mem_append_right _ mem_cons_self

theorem exists_find_separator (b rest : List Char) :
    ∃ x q, b ++ separator = x ++ (separator ++ q) ∧
      Text.find separator (b ++ (separator ++ rest)) = some x.length ∧ (q = [] ↔ ¬ separator <:+: b) := by
  have hin : separator <:+: b ++ (separator ++ rest) := ⟨b, rest, append_assoc _ _ _⟩
  obtain ⟨x, y, heq, hfind, hleast⟩ := Text.exists_find hin
  have hle : x.length ≤ b.length := hleast b rest rfl
  have hfirst : x ++ separator <+: b ++ (separator ++ rest) := ⟨y, by rw [heq, append_assoc]⟩
  have hlast : b ++ separator <+: b ++ (separator ++ rest) := ⟨rest, append_assoc _ _ _⟩
  obtain ⟨q, hq⟩ : x ++ separator <+: b ++ separator := by
    refine prefix_of_prefix_length_le hfirst hlast ?_
    rw [length_append, length_append]
    omega
  rw [append_assoc] at hq
  refine ⟨x, q, hq.symm, hfind, ?_⟩
  rcases separator_cases hq.symm with ⟨rfl, rfl⟩ | ⟨hdash, hinfix⟩
  · refine iff_of_true rfl fun ⟨u, v, huv⟩ => ?_
    -- a separator inside would be found before
    have hbefore := hleast u (v ++ (separator ++ rest)) (by rw [← huv]; simp only [append_assoc])
    have hlength := congrArg List.length huv
    rw [length_append, length_append, separator_eq] at hlength
    simp only [length_cons, length_nil] at hlength
    omega
  · refine iff_of_false ?_ (not_not_intro hinfix)
    rintro rfl
    cases hdash

theorem unwrap_frame {front b : List Char} (hfront : '<' ∉ front) (id : GeneratedId) (s : List Char) :
    ∃ q, (q = [] ↔ ¬ separator <:+: b) ∧ (q ≠ [] → '-' ∈ q) ∧
      unwrap (front ++ (makeMarker .start id.toMarkerId ++ ('\n' :: (b ++ (separator ++ (s ++
        ('\n' :: (makeMarker .stop id.toMarkerId ++ ['\n'])))))))) =
        some ((q ++ (s ++ ['\n'])).rdropWhile (· = '\n')) := by
  obtain ⟨x, q, hblock, hfind, hq⟩ :=
    exists_find_separator b (s ++ ('\n' :: (makeMarker .stop id.toMarkerId ++ ['\n'])))
  refine ⟨q, hq, fun hne => ?_, ?_⟩
  · rcases separator_cases hblock with ⟨hnil, -⟩ | ⟨hdash, -⟩
    · exact absurd hnil hne
    · exact hdash
  have hsearch := searchStart_append false id.small hfront
    ('\n' :: (b ++ (separator ++ (s ++ ('\n' :: (makeMarker .stop id.toMarkerId ++ ['\n']))))))
  obtain ⟨hdash, hline⟩ := disjoint_makeMarker .start id.toMarkerId
  obtain ⟨-, hstopLine⟩ := disjoint_makeMarker .stop id.toMarkerId
  have hstop := makeMarker_ne_nil .stop id.toMarkerId
  rw [← endMarker_digits] at hsearch hfind hstopLine hstop ⊢
  generalize makeMarker .start id.toMarkerId = start at hsearch hdash ⊢
  generalize hend : endMarker id.digits = stop at hsearch hfind hstopLine hstop ⊢
  -- the last end marker
  have hrfind : Text.rfind stop (front ++ (start ++ ('\n' :: (b ++ (separator ++ (s ++
      ('\n' :: (stop ++ ['\n'])))))))) =
      some (front ++ (start ++ ('\n' :: (b ++ (separator ++ (s ++ ['\n'])))))).length := by
    have hsplit : front ++ (start ++ ('\n' :: (b ++ (separator ++ (s ++ ('\n' :: (stop ++ ['\n']))))))) =
        (front ++ (start ++ ('\n' :: (b ++ (separator ++ (s ++ ['\n'])))))) ++ (stop ++ ['\n']) := by
      simp only [append_assoc, cons_append, nil_append]
    rw [hsplit]
    refine Text.rfind_eq fun x' y' heq => ?_
    by_contra hlt
    have hlength := congrArg List.length heq
    simp only [length_append, length_singleton] at hlength hlt
    obtain rfl : y' = [] := length_eq_zero_iff.1 (by omega)
    have hlast := congrArg List.getLast? heq
    rw [← append_assoc, getLast?_concat, append_nil, getLast?_append_of_ne_nil _ hstop]
      at hlast
    exact hstopLine (mem_of_getLast? hlast.symm)
  -- the first separator
  have hsep : (Text.find separator ((front ++ (start ++ ('\n' :: (b ++ (separator ++ (s ++
      ('\n' :: (stop ++ ['\n'])))))))).drop front.length)).map (front.length + ·) =
      some (front ++ (start ++ ('\n' :: x))).length := by
    have hhead : '-' ∉ start ++ ['\n'] := by
      rw [mem_append, not_or]
      exact ⟨hdash, by decide⟩
    have hskip := Text.find_append_of_notMem hhead ['-', '-', '\n']
      (b ++ (separator ++ (s ++ ('\n' :: (stop ++ ['\n'])))))
    rw [← separator_eq, hfind, append_assoc, singleton_append] at hskip
    rw [drop_left, hskip, Option.map_some, Option.map_some]
    refine congrArg some ?_
    simp only [length_append, length_cons, length_nil]
    omega
  -- what stands between them
  have hbetween : front ++ (start ++ ('\n' :: (b ++ (separator ++ (s ++ ('\n' :: (stop ++ ['\n']))))))) =
      (front ++ (start ++ ('\n' :: (x ++ separator)))) ++ ((q ++ (s ++ ['\n'])) ++ (stop ++ ['\n'])) := by
    have hb : b ++ (separator ++ (s ++ ('\n' :: (stop ++ ['\n'])))) =
        x ++ (separator ++ (q ++ (s ++ ('\n' :: (stop ++ ['\n']))))) := by
      rw [← append_assoc, hblock]
      simp only [append_assoc]
    rw [hb]
    simp only [append_assoc, cons_append, nil_append]
  have hstart : (front ++ (start ++ ('\n' :: x))).length + 4 =
      (front ++ (start ++ ('\n' :: (x ++ separator)))).length := by
    simp only [length_append, length_cons, separator_eq, length_nil]
    omega
  have hstopPos : (front ++ (start ++ ('\n' :: (b ++ (separator ++ (s ++ ['\n'])))))).length =
      (front ++ (start ++ ('\n' :: (x ++ separator)))).length + (q ++ (s ++ ['\n'])).length := by
    have hlength := congrArg List.length hbetween
    simp only [length_append, length_cons, length_nil] at hlength ⊢
    omega
  have hpos : 1 ≤ (q ++ (s ++ ['\n'])).length := by
    simp only [length_append, length_cons, length_nil]
    omega
  rw [unwrap, hsearch]
  simp only [Option.bind_eq_bind, Option.bind_some, hend, hrfind, hsep, hstart]
  rw [hstopPos, if_neg (by omega), if_neg (by omega), Nat.add_sub_cancel_left, hbetween, drop_left,
    take_left]
  rfl

theorem count_rdropWhile (s : List Char) : (s.rdropWhile (· = '\n')).count '-' = s.count '-' := by
  induction s using List.reverseRecOn with
  | nil => rfl
  | append_singleton s c ih =>
    rw [rdropWhile_concat]
    split
    · next hc =>
        rw [of_decide_eq_true hc, ih, count_append]
        rfl
    · rfl

theorem unwrap_wrap_iff (content : List Char) (source : ContentSource) (id : GeneratedId) :
    unwrap (wrap content source id.toMarkerId) = some ((replaceMarkers content).rdropWhile (· = '\n')) ↔
      Unseparated source := by
  have hfront : '<' ∉ externalContentWarning ++ "\n\n".toList := fun hmem => (warning_spec _ hmem).1 rfl
  obtain ⟨q, hq, hdash, hunwrap⟩ := unwrap_frame (b := metadata source ++ ['\n']) hfront id (replaceMarkers content)
  have hwrap : wrap content source id.toMarkerId = (externalContentWarning ++ "\n\n".toList) ++
      (makeMarker .start id.toMarkerId ++ ('\n' :: ((metadata source ++ ['\n']) ++ (separator ++
        (replaceMarkers content ++ ('\n' :: (makeMarker .stop id.toMarkerId ++ ['\n']))))))) := by
    have hblock : metadataBlock source = (metadata source ++ ['\n']) ++ separator :=
      (append_assoc _ ['\n'] separator).symm
    rw [wrap, hblock]
    generalize externalContentWarning ++ "\n\n".toList = front
    simp only [append_assoc, cons_append, nil_append]
  rw [hwrap, hunwrap, Option.some.injEq, Unseparated, ← hq]
  constructor
  · intro h
    by_contra hne
    have hcount := congrArg (List.count '-') h
    rw [count_rdropWhile, count_rdropWhile, count_append, count_append] at hcount
    have hpos := count_pos_iff.2 (hdash hne)
    omega
  · rintro rfl
    rw [nil_append, rdropWhile_concat, if_pos (decide_eq_true rfl)]

/-! ## The folded text -/

theorem foldSequence_of_dash {c : Char} {u : List Char} {d : Char} (hd : d = '\n' ∨ d = '-')
    (h : (u ++ [d, '-']).length + 1 = sequenceLength c) :
    foldSequence (c :: (u ++ [d, '-'])) = c :: (u ++ [d, '-']) := by
  rcases foldSequence_cases h with hsame | ⟨letter, -, hfold⟩
  · exact hsame
  · have hne : u ++ [d, '-'] ≠ [] := append_ne_nil_of_right_ne_nil u (cons_ne_nil d _)
    obtain ⟨first, heq, -⟩ := (decode_of_fit h []).2.2 hne
    rw [foldl_append, foldl_cons, foldl_cons, foldl_nil, pushByte_eq, pushByte_eq] at heq
    have hkeys : ∀ key ∈ angleBracketMap.map Prod.fst,
        ¬ (key % 64 = 45 ∧ (key / 64 % 64 = 10 ∨ key / 64 % 64 = 45)) := by decide
    have hdash : '-'.toNat = 45 := rfl
    have hbits : (decode (c :: (u ++ [d, '-']))).1 % 64 = 45 ∧
        ((decode (c :: (u ++ [d, '-']))).1 / 64 % 64 = 10 ∨
          (decode (c :: (u ++ [d, '-']))).1 / 64 % 64 = 45) := by
      have hvalue : d.toNat = 10 ∨ d.toNat = 45 := by
        rcases hd with rfl | rfl
        · exact .inl rfl
        · exact .inr rfl
      omega
    exfalso
    rcases (foldCodepoint_range hfold).1 with hrange | hrange | hkey
    · omega
    · omega
    · exact hkeys _ hkey hbits

theorem exists_fold_separator (s : List Char) :
    ∃ b, foldMarkerText (s ++ ('\n' :: separator)) = b ++ separator := by
  have hascii (t : List Char) (ht : ∀ c ∈ t, c.toNat < 0x80) : foldMarkerText t = t := by
    have hfold := fold_append_of_ascii ht []
    rw [append_nil] at hfold
    exact hfold.trans (append_nil t)
  induction hs : s.length using Nat.strong_induction_on generalizing s with
  | _ n ih =>
    cases s with
    | nil => exact ⟨['\n'], hascii _ (Text.forall_of_all (by decide))⟩
    | cons c s =>
      rw [length_cons] at hs
      have hrange := sequenceLength_range c
      rcases Nat.lt_or_ge (s.length + 1) (sequenceLength c) with hover | hinside
      · -- the sequence goes into the separator
        obtain hone | htwo | hthree : (s ++ ['\n']).length + 1 = sequenceLength c ∨
            (s ++ ['\n', '-']).length + 1 = sequenceLength c ∨
            ((s ++ ['\n']) ++ ['-', '-']).length + 1 = sequenceLength c := by
          simp only [length_append, length_cons, length_nil]
          omega
        · have hfold := fold_cons_append hone separator
          rw [hascii separator (Text.forall_of_all (by decide)), append_assoc,
            singleton_append] at hfold
          exact ⟨_, hfold⟩
        · have hfold := fold_cons_append htwo ['-', '-', '\n']
          rw [foldSequence_of_dash (.inl rfl) htwo, hascii ['-', '-', '\n'] (Text.forall_of_all (by decide)),
            append_assoc] at hfold
          exact ⟨c :: (s ++ ['\n']), hfold.trans (by simp [separator_eq])⟩
        · have hnil : s = [] := by
            simp only [length_append, length_cons, length_nil] at hthree
            exact length_eq_zero_iff.1 (by omega)
          subst hnil
          have hsame : foldSequence (c :: ['\n', '-', '-']) = c :: ['\n', '-', '-'] :=
            @foldSequence_of_dash c ['\n'] '-' (.inr rfl) hthree
          have hfold := fold_cons_append hthree ['-', '\n']
          rw [hascii ['-', '\n'] (Text.forall_of_all (by decide))] at hfold
          refine ⟨[c, '\n'], hfold.trans ?_⟩
          rw [nil_append, singleton_append, hsame]
          rfl
      · obtain ⟨u, v, rfl, hu⟩ := exists_sequence (c := c) (s := s) (by omega)
        have hv : v.length < n := by
          rw [length_append] at hs
          omega
        obtain ⟨b, hb⟩ := ih _ hv v rfl
        refine ⟨foldSequence (c :: u) ++ b, ?_⟩
        rw [cons_append, append_assoc, fold_cons_append hu, hb, append_assoc]

/-! ## Valid markers -/

theorem find_stop (id : MarkerId) {z : List Char} {n : Nat}
    (h : Text.find (makeMarker .stop id) z = some n) :
    Text.find (makeMarker .stop id) (makeMarker .start id ++ ('\n' :: z)) =
      some ((makeMarker .start id).length + 1 + n) := by
  obtain ⟨⟨x, y, rfl, rfl⟩, hleast⟩ := Text.find_eq_some_iff.1 h
  refine Text.find_eq_some_iff.2 ⟨⟨makeMarker .start id ++ ('\n' :: x), y, ?_, ?_⟩, fun x' y' heq => ?_⟩
  · simp only [append_assoc, cons_append]
  · rw [length_append, length_cons]
    omega
  · have hstop := isMarker_makeMarker .stop id
    rcases Nat.lt_or_ge x'.length (makeMarker .start id).length with hinside | hbehind
    · obtain ⟨-, hkind, -⟩ := eq_of_inside hstop heq.symm hinside
      cases hkind
    · obtain ⟨x'', rfl⟩ := prefix_of_prefix_length_le (prefix_append _ _) ⟨_, heq.symm⟩ hbehind
      rw [append_assoc, append_cancel_left_eq] at heq
      cases x'' with
      | nil =>
        obtain ⟨⟨a, m, hm, -⟩, -⟩ := makeMarker_front .stop id
        rw [hm] at heq
        exact absurd (List.cons.inj heq).1 (by decide)
      | cons c x'' =>
        have hle := hleast x'' y' (List.cons.inj heq).2
        rw [length_append, length_cons]
        omega

theorem find_separator (id : MarkerId) {z : List Char} {n : Nat} (h : Text.find separator z = some n) :
    Text.find separator (makeMarker .start id ++ ('\n' :: z)) =
      some ((makeMarker .start id).length + 1 + n) := by
  have hhead : '-' ∉ makeMarker .start id ++ ['\n'] := by
    rw [mem_append, not_or]
    exact ⟨(disjoint_makeMarker .start id).1, by decide⟩
  have hskip := Text.find_append_of_notMem hhead ['-', '-', '\n'] z
  rw [← separator_eq, h, append_assoc, singleton_append] at hskip
  rw [hskip, Option.map_some, length_append, length_singleton, Nat.add_comm]

/-- In a text that goes on with an end marker after a part that ends with a separator, the first separator
comes before the first end marker exactly when one comes before each end marker of that part. -/
theorem separator_first_iff {b rest z : List Char} {n m : Nat}
    (hz : z = b ++ (separator ++ rest)) (hn : Text.find separator z = some n)
    (hm : Text.find (makeMarker .stop id) z = some m) :
    n < m ↔ ∀ x y, b ++ separator = x ++ (makeMarker .stop id ++ y) → separator <:+: x := by
  obtain ⟨⟨x₁, y₁, h₁, rfl⟩, hleast₁⟩ := Text.find_eq_some_iff.1 hn
  obtain ⟨⟨x₂, y₂, h₂, rfl⟩, hleast₂⟩ := Text.find_eq_some_iff.1 hm
  have hdisjoint := separator_disjoint .stop id
  constructor
  · intro hlt x y heq
    have hx : z = x ++ (makeMarker .stop id ++ (y ++ rest)) := by
      rw [hz, ← append_assoc, heq]
      simp only [append_assoc]
    have hle := hleast₂ x _ hx
    obtain ⟨d, rfl⟩ := Text.exists_append_of_disjoint (h₁.symm.trans hx) hdisjoint (makeMarker_ne_nil _ _)
      (by omega)
    exact ⟨x₁, d, append_assoc _ _ _⟩
  · intro h
    by_contra hlt
    -- the end marker comes first, so it stands before the first separator
    obtain ⟨d, rfl⟩ := Text.exists_append_of_disjoint (h₂.symm.trans h₁)
      (List.disjoint_comm.1 hdisjoint) (cons_ne_nil _ _)
      (Nat.le_of_not_lt hlt)
    have hle := hleast₁ b rest hz
    have hpart : x₂ ++ (makeMarker .stop id ++ d) <+: b ++ separator := by
      have hleft : x₂ ++ (makeMarker .stop id ++ d) <+: z := ⟨_, h₁.symm⟩
      have hright : b ++ separator <+: z := ⟨rest, by rw [hz, append_assoc]⟩
      refine prefix_of_prefix_length_le hleft hright (hle.trans ?_)
      rw [length_append]
      omega
    obtain ⟨e, he⟩ := hpart
    obtain ⟨u, v, huv⟩ := h x₂ (d ++ e) (by rw [← he]; simp only [append_assoc])
    have hbefore := hleast₁ u (v ++ (makeMarker .stop id ++ y₂)) (by
      rw [h₂, ← huv]
      simp only [append_assoc])
    have hlength := congrArg List.length huv
    simp only [length_append, separator_eq, length_cons, length_nil] at hlength hbefore
    omega

theorem validateMarkers_wrap_iff (content : List Char) (source : ContentSource) (id : GeneratedId) :
    validateMarkers (wrap content source id.toMarkerId) = true ↔ EndsBehind source id.toMarkerId := by
  obtain ⟨p, rest, r, -, -, -, -, hfold⟩ := exists_fold_wrap content source id.toMarkerId
  obtain ⟨b, hb⟩ := exists_fold_separator (metadata source)
  have hblock : foldMarkerText (metadataBlock source) = b ++ separator := hb
  have hfront : '<' ∉ externalContentWarning ++ "\n\n".toList := fun hmem => (warning_spec _ hmem).1 rfl
  have hletters : ∀ c ∈ id.digits, c ∈ hexLetters true := id.mem_hex
  rw [EndsBehind, hblock, validateMarkers, hfold, frame, hblock]
  generalize externalContentWarning ++ "\n\n".toList = front at hfront ⊢
  have hsplit : ['\n'] ++ (b ++ separator ++ p ++ (rest ++ (makeMarker .stop id.toMarkerId ++ ['\n']))) =
      '\n' :: (b ++ (separator ++ (p ++ (rest ++ (makeMarker .stop id.toMarkerId ++ ['\n']))))) := by
    simp only [append_assoc, cons_append, nil_append]
  rw [hsplit]
  obtain ⟨z, hz⟩ : ∃ z, z = b ++ (separator ++ (p ++ (rest ++ (makeMarker .stop id.toMarkerId ++ ['\n'])))) :=
    ⟨_, rfl⟩
  have hseparator : separator <:+: z := ⟨b, _, by rw [hz, append_assoc]⟩
  have hstop : makeMarker .stop id.toMarkerId <:+: z :=
    ⟨b ++ (separator ++ (p ++ rest)), ['\n'], by rw [hz]; simp only [append_assoc]⟩
  obtain ⟨x₁, -, -, hn, -⟩ := Text.exists_find hseparator
  obtain ⟨x₂, -, -, hm, -⟩ := Text.exists_find hstop
  rw [← separator_first_iff hz hn hm, ← hz]
  simp only [searchStart_append true hletters hfront, drop_left, endMarker_digits, find_stop _ hm,
    find_separator _ hn, Option.map_some]
  rw [if_neg (by omega), decide_eq_true_eq]
  omega

/-- **`Unwrap` undoes `Wrap` and the markers are valid** exactly when the lines about the source have no
separator and, folded, no end marker with the id before one. -/
theorem roundTrip_iff (content : List Char) (source : ContentSource) (id : GeneratedId) :
    RoundTrip content source id ↔ Unseparated source ∧ EndsBehind source id.toMarkerId :=
  and_congr (unwrap_wrap_iff content source id) (validateMarkers_wrap_iff content source id)

/-- A content type that ends in dashes. -/
def dashedSource : ContentSource where
  toolName := "fetch".toList
  url := []
  timestamp := []
  contentType := "text/plain\n---".toList

/-- An id of zeros. -/
def zeroId : GeneratedId where
  digits := List.replicate 16 '0'
  length_digits := rfl
  mem_hex := by
    intro c hc
    rw [eq_of_mem_replicate hc]
    decide
  small := by
    intro c hc
    rw [eq_of_mem_replicate hc]
    decide

/-- The separator comes back with the content. -/
theorem not_roundTrip : ¬ RoundTrip "hello".toList dashedSource zeroId := by
  rintro ⟨hunwrap, -⟩
  exact (unwrap_wrap_iff _ _ _).1 hunwrap ⟨"Source: fetch\nContent-Type: text/plain\n".toList, [], by decide⟩

end RavBot.Security.ExternalContentWrapper
