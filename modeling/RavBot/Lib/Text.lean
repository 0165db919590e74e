import Mathlib.Data.List.DropRight
import Mathlib.Tactic.IntervalCases

/-!
# Byte strings

The program computes with `std::string`, a sequence of bytes.  Where its functions look
inside a string the model works on `List Char`, one character a byte; `String.toList` and
`String.ofList` pass between the two.  The functions below follow the members of
`std::string` of the same name; `none` stands for `npos`, and for the exception that
`substr` and `stoi` throw.
-/

open List

namespace RavBot.Lib.Text

/-- `std::string::find`: the first position at which `pat` occurs in `s`. -/
def find (pat : List Char) : List Char → Option Nat
  | [] => if pat = [] then some 0 else none
  | c :: s => if pat.isPrefixOf (c :: s) then some 0 else (find pat s).map (· + 1)

/-- `std::string::rfind`: the last position at which `pat` occurs in `s`. -/
def rfind (pat : List Char) : List Char → Option Nat
  | [] => if pat = [] then some 0 else none
  | c :: s =>
    match rfind pat s with
    | some pos => some (pos + 1)
    | none => if pat.isPrefixOf (c :: s) then some 0 else none

/-- `std::string::substr`: the part that starts at `pos` and has at most `len` bytes. -/
def substr (s : List Char) (pos len : Nat) : Option (List Char) :=
  if pos ≤ s.length then some ((s.drop pos).take len) else none

/-- Whether `pat` occurs in a string. -/
def contains (s : String) (pat : List Char) : Bool := (find pat s.toList).isSome

/-- The lines of a string, as `std::getline` reads them one after the other. -/
def lines : List Char → List (List Char)
  | [] => []
  | c :: s =>
    if c = '\n' then [] :: lines s
    else match lines s with
      | [] => [[c]]
      | line :: rest => (c :: line) :: rest

/-- The pieces of a string, as `std::getline` with a delimiter reads them one after the other. -/
def pieces (delim : Char) : List Char → List (List Char)
  | [] => []
  | c :: s =>
    if c = delim then [] :: pieces delim s
    else match pieces delim s with
      | [] => [[c]]
      | piece :: rest => (c :: piece) :: rest

/-- `std::isspace` in the C locale. -/
def isSpace (c : Char) : Bool :=
  c = ' ' || c = '\t' || c = '\n' || c = '\x0b' || c = '\x0c' || c = '\r'

/-- The words of a string, as `>>` reads them one after the other. -/
def words (s : List Char) : List (List Char) := (s.splitOnP isSpace).filter (!·.isEmpty)

/-- The value of a list of decimal digits. -/
def ofDigits (ds : List Char) : Int :=
  ds.foldl (fun n c => 10 * n + (c.toNat - '0'.toNat)) 0

/-- `std::stoi`: skip white space, read an optional sign and as many digits as there are.
`none` when there is no digit or the value does not fit in an `int`. -/
def stoi (s : List Char) : Option Int :=
  let s := s.dropWhile isSpace
  let ds := (match s with
    | '-' :: t => t
    | '+' :: t => t
    | t => t).takeWhile Char.isDigit
  let n := if s.head? = some '-' then -ofDigits ds else ofDigits ds
  if ds = [] ∨ n < -2147483648 ∨ 2147483647 < n then none else some n

theorem find_cons_of_ne {c d : Char} (h : c ≠ d) (pat s : List Char) :
    find (c :: pat) (d :: s) = (find (c :: pat) s).map (· + 1) := by
  rw [find, if_neg]
  rw [ isPrefixOf_iff_prefix, cons_prefix_cons]
  exact fun heq => h heq.1

theorem find_append_of_notMem {c : Char} {hd : List Char} (h : c ∉ hd) (pat s : List Char) :
    find (c :: pat) (hd ++ s) = (find (c :: pat) s).map (· + hd.length) := by
  induction hd with
  | nil => simp
  | cons d hd ih =>
    rw [mem_cons, not_or] at h
    rw [cons_append, find_cons_of_ne h.1, ih h.2, Option.map_map]
    rfl

theorem find_append_self (pat s : List Char) : find pat (pat ++ s) = some 0 := by
  cases hs : pat ++ s with
  | nil => rw [find, if_pos (append_eq_nil_iff.1 hs).1]
  | cons c rest =>
    rw [find, if_pos]
    rw [← hs, isPrefixOf_iff_prefix]
    exact prefix_append pat s

variable {s : List Char}

theorem find_eq_some_iff {pat : List Char} {n : Nat} :
    find pat s = some n ↔
      (∃ x y, s = x ++ (pat ++ y) ∧ x.length = n) ∧ ∀ x y, s = x ++ (pat ++ y) → n ≤ x.length := by
  induction s generalizing n with
  | nil =>
    rw [find]
    split
    · next hnil =>
        subst hnil
        rw [Option.some.injEq]
        constructor
        · rintro rfl
          exact ⟨⟨[], [], rfl, rfl⟩, fun x y _ => Nat.zero_le _⟩
        · rintro ⟨-, hleast⟩
          exact (Nat.le_zero.1 (hleast [] [] rfl)).symm
    · next hne =>
        refine iff_of_false nofun fun ⟨⟨_, _, heq, _⟩, _⟩ => hne ?_
        exact (append_eq_nil_iff.1 (append_eq_nil_iff.1 heq.symm).2).1
  | cons c s ih =>
    rw [find]
    split
    · next hpre =>
        obtain ⟨y, hy⟩ := isPrefixOf_iff_prefix.1 hpre
        rw [Option.some.injEq]
        constructor
        · rintro rfl
          exact ⟨⟨[], y, hy.symm, rfl⟩, fun x y _ => Nat.zero_le _⟩
        · rintro ⟨-, hleast⟩
          exact (Nat.le_zero.1 (hleast [] y hy.symm)).symm
    · next hpre =>
        have hnone {x y : List Char} (heq : c :: s = x ++ (pat ++ y)) :
            ∃ x', x = c :: x' ∧ s = x' ++ (pat ++ y) := by
          cases x with
          | nil => exact absurd ( isPrefixOf_iff_prefix.2 ⟨y, heq.symm⟩) hpre
          | cons d x =>
            obtain ⟨rfl, rfl⟩ := List.cons.inj heq
            exact ⟨x, rfl, rfl⟩
        rw [Option.map_eq_some_iff]
        constructor
        · rintro ⟨m, hm, rfl⟩
          obtain ⟨⟨x, y, rfl, rfl⟩, hleast⟩ := ih.1 hm
          refine ⟨⟨c :: x, y, rfl, rfl⟩, fun x' y' heq => ?_⟩
          obtain ⟨x', rfl, htail⟩ := hnone heq
          exact Nat.succ_le_succ (hleast x' y' htail)
        · rintro ⟨⟨x, y, heq, rfl⟩, hleast⟩
          obtain ⟨x, rfl, htail⟩ := hnone heq
          refine ⟨x.length, ih.2 ⟨⟨x, y, htail, rfl⟩, fun x' y' heq' => ?_⟩, rfl⟩
          exact Nat.le_of_succ_le_succ (hleast (c :: x') y' (congrArg _ heq'))

theorem exists_find {pat : List Char} (h : pat <:+: s) :
    ∃ x y, s = x ++ (pat ++ y) ∧ find pat s = some x.length ∧
      ∀ x' y', s = x' ++ (pat ++ y') → x.length ≤ x'.length := by
  obtain ⟨x, y, heq⟩ := h
  have hex : ∃ n x y, s = x ++ (pat ++ y) ∧ x.length = n :=
    ⟨x.length, x, y, by rw [← heq, append_assoc], rfl⟩
  classical
  obtain ⟨x, y, heq, hlength⟩ := Nat.find_spec hex
  have hleast : ∀ x' y', s = x' ++ (pat ++ y') → x.length ≤ x'.length := fun x' y' heq' =>
    hlength ▸ Nat.find_min' hex ⟨x', y', heq', rfl⟩
  exact ⟨x, y, heq, find_eq_some_iff.2 ⟨⟨x, y, heq, rfl⟩, hleast⟩, hleast⟩

theorem isSome_find {pat : List Char} (h : pat <:+: s) : (find pat s).isSome := by
  obtain ⟨x, y, -, hfind, -⟩ := exists_find h
  rw [hfind]
  rfl

theorem find_eq_zero_iff (pat s : List Char) : find pat s = some 0 ↔ pat <+: s := by
  rw [find_eq_some_iff]
  constructor
  · rintro ⟨⟨x, y, rfl, hx⟩, -⟩
    rw [length_eq_zero_iff.1 hx]
    exact prefix_append pat y
  · rintro ⟨y, rfl⟩
    exact ⟨⟨[], y, rfl, rfl⟩, fun _ _ _ => Nat.zero_le _⟩

theorem rfind_eq {pat x y : List Char}
    (h : ∀ x' y', x ++ (pat ++ y) = x' ++ (pat ++ y') → x'.length ≤ x.length) :
    rfind pat (x ++ (pat ++ y)) = some x.length := by
  have hnone (s : List Char) (hs : ∀ x' y', s ≠ x' ++ (pat ++ y')) : rfind pat s = none := by
    induction s with
    | nil =>
      rw [rfind, if_neg]
      exact fun hnil => hs [] [] (by rw [hnil]; rfl)
    | cons c s ih =>
      rw [rfind, ih fun x' y' heq => hs (c :: x') y' (congrArg _ heq)]
      refine if_neg fun hpre => ?_
      obtain ⟨y', hy'⟩ := isPrefixOf_iff_prefix.1 hpre
      exact hs [] y' hy'.symm
  induction x with
  | nil =>
    cases hs : pat ++ y with
    | nil =>
      rw [nil_append, rfind, if_pos (append_eq_nil_iff.1 hs).1]
      rfl
    | cons c s =>
      rw [nil_append, rfind, hnone s fun x' y' heq => ?_]
      · exact if_pos ( isPrefixOf_iff_prefix.2 ⟨y, hs⟩)
      · have hle := h (c :: x') y' (hs.trans (congrArg _ heq))
        exact absurd hle (Nat.not_succ_le_zero _)
  | cons c x ih =>
    rw [cons_append, rfind, ih fun x' y' heq => ?_]
    · rfl
    · exact Nat.le_of_succ_le_succ (h (c :: x') y' (congrArg _ heq))

theorem exists_append_of_disjoint {x v y x' w y' : List Char} (h : x ++ (v ++ y) = x' ++ (w ++ y'))
    (hdisjoint : v.Disjoint w) (hw : w ≠ []) (hle : x.length ≤ x'.length) : ∃ d, x' = x ++ (v ++ d) := by
  obtain ⟨d, rfl⟩ := prefix_of_prefix_length_le ⟨_, h⟩ (prefix_append x' _) hle
  rw [append_assoc, append_cancel_left_eq] at h
  rcases append_eq_append_iff.1 h with ⟨e, rfl, -⟩ | ⟨e, rfl, hrest⟩
  · exact ⟨e, rfl⟩
  · cases e with
    | nil => exact ⟨[], by rw [append_nil, append_nil]⟩
    | cons c e =>
      obtain ⟨c', w, rfl⟩ := exists_cons_of_ne_nil hw
      obtain ⟨rfl, -⟩ := List.cons.inj hrest
      exact absurd mem_cons_self (hdisjoint (mem_append_right d mem_cons_self))

theorem ofDigits_eq_ofDigitChars {ds : List Char} (h : ∀ c ∈ ds, c.isDigit) :
    ofDigits ds = Nat.ofDigitChars 10 ds 0 := by
  have hfold (n : Nat) : ds.foldl (fun (n : Int) c => 10 * n + (c.toNat - '0'.toNat)) n =
      Nat.ofDigitChars 10 ds n := by
    induction ds generalizing n with
    | nil => rfl
    | cons c ds ih =>
      rw [forall_mem_cons] at h
      have hdigit : '0'.toNat ≤ c.toNat := by
        have hc : (48 ≤ c.val ∧ c.val ≤ 57) := by simpa [Char.isDigit] using h.1
        exact hc.1
      rw [foldl_cons, Nat.ofDigitChars_cons, ← ih h.2]
      have hvalue : ((10 * n + (c.toNat - '0'.toNat) : Nat) : Int) =
          10 * (n : Int) + ((c.toNat : Int) - '0'.toNat) := by
        rw [Nat.cast_add, Nat.cast_mul, Nat.cast_sub hdigit]
        rfl
      rw [hvalue]
  exact hfold 0

theorem ofDigits_nonneg {ds : List Char} (h : ∀ c ∈ ds, c.isDigit) : 0 ≤ ofDigits ds := by
  rw [ofDigits_eq_ofDigitChars h]
  exact Int.natCast_nonneg _

theorem not_isSpace_of_isDigit {c : Char} (h : c.isDigit) : isSpace c = false := by
  by_contra hspace
  simp only [isSpace, Bool.or_eq_true, decide_eq_true_eq, Bool.not_eq_false] at hspace
  rcases hspace with ((((rfl | rfl) | rfl) | rfl) | rfl) | rfl <;> exact absurd h (by decide)

theorem stoi_digits_append {ds rest : List Char} (hne : ds ≠ []) (h : ∀ c ∈ ds, c.isDigit)
    (hrest : ∀ c ∈ rest.head?, c.isDigit = false) :
    stoi (ds ++ rest) = if 2147483647 < ofDigits ds then none else some (ofDigits ds) := by
  have hnonneg := ofDigits_nonneg h
  obtain ⟨c, tail, rfl⟩ := exists_cons_of_ne_nil hne
  have hc : c.isDigit := h c mem_cons_self
  have hminus : c ≠ '-' := by
    rintro rfl
    exact absurd hc (by decide)
  have hplus : c ≠ '+' := by
    rintro rfl
    exact absurd hc (by decide)
  have hdrop : (c :: tail ++ rest).dropWhile isSpace = c :: tail ++ rest := by
    rw [cons_append, dropWhile_cons_of_neg]
    rw [not_isSpace_of_isDigit hc]
    exact Bool.false_ne_true
  have htake : (c :: tail ++ rest).takeWhile Char.isDigit = c :: tail := by
    rw [takeWhile_append_of_pos h]
    cases rest with
    | nil => rw [takeWhile_nil, append_nil]
    | cons d rest =>
      rw [takeWhile_cons_of_neg, append_nil]
      rw [hrest d rfl]
      exact Bool.false_ne_true
  have hsign : (match c :: tail ++ rest with
      | '-' :: t => t
      | '+' :: t => t
      | t => t) = c :: tail ++ rest := by
    split
    · next heq => exact absurd (List.cons.inj heq).1 hminus
    · next heq => exact absurd (List.cons.inj heq).1 hplus
    · rfl
  have hhead : (c :: tail ++ rest).head? ≠ some '-' := by simpa using hminus
  rw [stoi, hdrop, hsign, htake, if_neg hhead]
  refine if_congr ?_ rfl rfl
  simp only [reduceCtorEq, false_or]
  omega

theorem stoi_toString {n : Nat} (h : n ≤ 2147483647) : stoi (toString n).toList = some (n : Int) := by
  have hdigits : ∀ c ∈ (toString n).toList, c.isDigit := by
    intro c hc
    rw [Nat.toString_eq_ofList_toDigits, String.toList_ofList] at hc
    exact Nat.isDigit_of_mem_toDigits (by decide) (by decide) hc
  have hne : (toString n).toList ≠ [] := by
    rw [Nat.toString_eq_ofList_toDigits, String.toList_ofList]
    exact Nat.toDigits_ne_nil
  have hvalue : ofDigits (toString n).toList = n := by
    rw [ofDigits_eq_ofDigitChars hdigits, Nat.toString_eq_ofList_toDigits, String.toList_ofList,
      Nat.ofDigitChars_ten_toDigits]
  have hread := @stoi_digits_append _ [] hne hdigits nofun
  rw [append_nil, hvalue, if_neg (by omega)] at hread
  exact hread

variable {delim : Char}

theorem pieces_append {u : List Char} (h : delim ∉ u) (s : List Char) :
    pieces delim (u ++ delim :: s) = u :: pieces delim s := by
  induction u with
  | nil => exact if_pos rfl
  | cons c u ih =>
    rw [mem_cons, not_or] at h
    rw [cons_append, pieces, if_neg (Ne.symm h.1), ih h.2]

theorem pieces_of_notMem {u : List Char} (h : delim ∉ u) :
    pieces delim u = if u = [] then [] else [u] := by
  induction u with
  | nil => rfl
  | cons c u ih =>
    rw [mem_cons, not_or] at h
    rw [pieces, if_neg (Ne.symm h.1), ih h.2, if_neg (cons_ne_nil c u)]
    by_cases hu : u = []
    · rw [if_pos hu, hu]
    · rw [if_neg hu]

theorem filter_pieces_append (delim : Char) (s t : List Char) :
    (pieces delim (s ++ delim :: t)).filter (· ≠ []) =
      (pieces delim s).filter (· ≠ []) ++ (pieces delim t).filter (· ≠ []) := by
  induction hn : s.length using Nat.strong_induction_on generalizing s with
  | h n ih =>
    by_cases hs : delim ∈ s
    · obtain ⟨u, v, rfl, hu⟩ := eq_append_cons_of_mem hs
      have hlen : v.length < n := by
        rw [← hn, length_append, length_cons]
        omega
      rw [append_assoc, cons_append, pieces_append hu, pieces_append hu,
        filter_cons, filter_cons, ih _ hlen v rfl]
      split_ifs <;> rfl
    · rw [pieces_append hs, pieces_of_notMem hs, filter_cons]
      by_cases hnil : s = []
      · simp [hnil]
      · simp [hnil]

theorem notMem_of_mem_pieces {u : List Char} (h : u ∈ pieces delim s) : delim ∉ u := by
  induction s generalizing u with
  | nil => exact absurd h not_mem_nil
  | cons c s ih =>
    rw [pieces] at h
    split_ifs at h with hc
    · rcases mem_cons.1 h with rfl | h
      · exact not_mem_nil
      · exact ih h
    · have hcons {v : List Char} (hv : delim ∉ v) : delim ∉ c :: v := by
        rw [mem_cons, not_or]
        exact ⟨Ne.symm hc, hv⟩
      cases hs : pieces delim s with
      | nil =>
        rw [hs] at h
        rw [mem_singleton.1 h]
        exact hcons not_mem_nil
      | cons piece rest =>
        rw [hs] at h ih
        rcases mem_cons.1 h with rfl | h
        · exact hcons (ih mem_cons_self)
        · exact ih (mem_cons_of_mem _ h)

theorem foldl_append_join (s : String) (texts : List String) :
    texts.foldl (· ++ ·) s = s ++ String.join texts := by
  rw [String.join]
  induction texts generalizing s with
  | nil => simp
  | cons t texts ih =>
    rw [foldl_cons, foldl_cons, ih, ih ("" ++ t), String.empty_append, String.append_assoc]

theorem join_cons (s : String) (texts : List String) :
    String.join (s :: texts) = s ++ String.join texts := by
  rw [String.join, foldl_cons, String.empty_append]
  exact foldl_append_join s texts

theorem forall_of_all {p : Char → Prop} [DecidablePred p]
    (h : (s.all fun c => decide (p c)) = true) : ∀ c ∈ s, p c := by
  intro c hc
  exact of_decide_eq_true (all_eq_true.1 h c hc)

/-! ## Trimming and lower case -/

def trim (s : List Char) : List Char := (s.dropWhile isSpace).rdropWhile isSpace

/-- `std::tolower` in the C locale. -/
def lowerChar (c : Char) : Char :=
  if 'A'.toNat ≤ c.toNat ∧ c.toNat ≤ 'Z'.toNat then Char.ofNat (c.toNat + 32) else c

def toLower (s : List Char) : List Char := s.map lowerChar

theorem lowerChar_spec (c : Char) :
    lowerChar (lowerChar c) = lowerChar c ∧ isSpace (lowerChar c) = isSpace c ∧
      (lowerChar c = ':' ↔ c = ':') := by
  by_cases h : 'A'.toNat ≤ c.toNat ∧ c.toNat ≤ 'Z'.toNat
  · -- the 26 letters, one by one
    obtain ⟨hlo, hhi⟩ : 65 ≤ c.toNat ∧ c.toNat ≤ 90 := h
    have hc : Char.ofNat c.toNat = c := Char.ofNat_toNat c
    generalize c.toNat = n at hc hlo hhi
    subst hc
    interval_cases n <;> decide
  · have hsame : lowerChar c = c := if_neg h
    rw [hsame, hsame]
    exact ⟨rfl, rfl, Iff.rfl⟩

@[simp] theorem toLower_toLower (s : List Char) : toLower (toLower s) = toLower s := by
  simp [toLower, Function.comp_def, (lowerChar_spec _).1]

@[simp] theorem length_toLower (s : List Char) : (toLower s).length = s.length := by
  simp [toLower]

@[simp] theorem toLower_append (s t : List Char) : toLower (s ++ t) = toLower s ++ toLower t := by
  simp [toLower]

@[simp] theorem toLower_eq_nil : toLower s = [] ↔ s = [] := by
  simp [toLower]

theorem getLast?_toLower (s : List Char) : (toLower s).getLast? = s.getLast?.map lowerChar := by
  simp [toLower]

@[simp] theorem colon_mem_toLower : ':' ∈ toLower s ↔ ':' ∈ s := by
  simp [toLower, (lowerChar_spec _).2.2]

/-- The string has no white space at its ends. -/
def Trimmed (s : List Char) : Prop :=
  ∀ c, s.head? = some c ∨ s.getLast? = some c → isSpace c = false

theorem trim_trimmed (s : List Char) : Trimmed (trim s) := by
  rintro c (hhead | hlast)
  · -- what is left starts as the string without its leading white space does
    have hpre : trim s <+: s.dropWhile isSpace := rdropWhile_prefix _ _
    obtain ⟨rest, hrest⟩ := hpre
    have hhead' : (s.dropWhile isSpace).head? = some c := by
      rw [← hrest, head?_append, hhead]
      rfl
    have := head?_dropWhile_not isSpace s
    rw [hhead'] at this
    simpa using this
  · have hne : trim s ≠ [] := by
      rintro hnil
      rw [hnil] at hlast
      cases hlast
    have hnot := rdropWhile_last_not isSpace (s.dropWhile isSpace) hne
    rw [getLast?_eq_getLast_of_ne_nil hne] at hlast
    rw [← Option.some.inj hlast]
    exact Bool.eq_false_iff.2 hnot

theorem trim_eq_self (h : Trimmed s) : trim s = s := by
  have hdrop : s.dropWhile isSpace = s := by
    cases s with
    | nil => rfl
    | cons c s => rw [dropWhile_cons_of_neg]; simpa using h c (.inl rfl)
  rw [trim, hdrop, rdropWhile_eq_self_iff]
  intro hne
  simpa using h _ (.inr (getLast?_eq_getLast_of_ne_nil hne))

theorem length_trim_lt (h : ¬ Trimmed s) : (trim s).length < s.length := by
  have hsub : (trim s).Sublist s :=
    ( rdropWhile_prefix _ _).sublist.trans (dropWhile_suffix _).sublist
  refine lt_of_le_of_ne hsub.length_le fun hlen => h ?_
  rw [← hsub.eq_of_length hlen]
  exact trim_trimmed s

/-! ## UTF-8 -/

/-- What may follow the first byte of a character in UTF-8: the ranges of the bytes after it.
`none` for a byte that starts no character. -/
def utf8Tail (lead : Nat) : Option (List (Nat × Nat)) :=
  if lead ≤ 0x7F then some []
  else if 0xC2 ≤ lead ∧ lead ≤ 0xDF then some [(0x80, 0xBF)]
  else if lead = 0xE0 then some [(0xA0, 0xBF), (0x80, 0xBF)]
  else if lead = 0xED then some [(0x80, 0x9F), (0x80, 0xBF)]
  else if 0xE1 ≤ lead ∧ lead ≤ 0xEF then some [(0x80, 0xBF), (0x80, 0xBF)]
  else if lead = 0xF0 then some [(0x90, 0xBF), (0x80, 0xBF), (0x80, 0xBF)]
  else if 0xF1 ≤ lead ∧ lead ≤ 0xF3 then some [(0x80, 0xBF), (0x80, 0xBF), (0x80, 0xBF)]
  else if lead = 0xF4 then some [(0x80, 0x8F), (0x80, 0xBF), (0x80, 0xBF)]
  else none

/-- Whether the bytes end a character that still needs bytes in the given ranges, and are
characters after it. -/
def utf8From : List (Nat × Nat) → List Char → Bool
  | [], [] => true
  | _ :: _, [] => false
  | [], c :: s =>
    match utf8Tail c.toNat with
    | some tail => utf8From tail s
    | none => false
  | (lo, hi) :: tail, c :: s => lo ≤ c.toNat && c.toNat ≤ hi && utf8From tail s

/-- Whether the bytes of a string are UTF-8. -/
def validUtf8 (s : String) : Bool := utf8From [] s.toList

/-- The bytes of a character in UTF-8. -/
def utf8Bytes (c : Char) : List Char :=
  let byte (mark shift : Nat) : Char := .ofNat (mark + c.toNat / 2 ^ shift)
  let next (shift : Nat) : Char := .ofNat (0x80 + c.toNat / 2 ^ shift % 64)
  if c.toNat ≤ 0x7F then [c]
  else if c.toNat ≤ 0x7FF then [byte 0xC0 6, next 0]
  else if c.toNat ≤ 0xFFFF then [byte 0xE0 12, next 6, next 0]
  else [byte 0xF0 18, next 12, next 6, next 0]

/-- The bytes of a literal that is not ASCII. -/
def ofUtf8 (literal : String) : List Char := literal.toList.flatMap utf8Bytes

/-- The characters of a UTF-8 text.  `bits` are those of the bytes of the current character that
were read, of which `more` follow. -/
def codepointsFrom (bits more : Nat) : List Char → List Char
  | [] => []
  | c :: s =>
    match more, (utf8Tail c.toNat).map List.length with
    | 0, some 0 => c :: codepointsFrom 0 0 s
    | 0, some n => codepointsFrom (c.toNat % 2 ^ (6 - n)) n s
    | 0, none => codepointsFrom 0 0 s
    | 1, _ => .ofNat (bits * 64 + c.toNat % 64) :: codepointsFrom 0 0 s
    | n + 2, _ => codepointsFrom (bits * 64 + c.toNat % 64) (n + 1) s

theorem validUtf8_of_ascii {s : String} (h : ∀ c ∈ s.toList, c.toNat < 128) :
    validUtf8 s = true := by
  rw [validUtf8]
  generalize s.toList = l at h
  induction l with
  | nil => rfl
  | cons c l ih =>
    rw [forall_mem_cons] at h
    have htail : utf8Tail c.toNat = some [] := if_pos (Nat.le_of_lt_succ h.1)
    rw [utf8From, htail]
    exact ih h.2

theorem ascii_of_mem_toDigits {n : Nat} {c : Char} (hc : c ∈ Nat.toDigits 16 n) : c.toNat < 128 := by
  have hdigit : ∀ d < 16, d.digitChar.toNat < 128 := by decide
  induction n using Nat.strong_induction_on with
  | h n ih =>
    rw [Nat.toDigits_eq_if (by decide)] at hc
    split_ifs at hc with hlt
    · rw [mem_singleton.1 hc]
      exact hdigit n hlt
    · rcases mem_append.1 hc with hc | hc
      · exact ih (n / 16) (by omega) hc
      · rw [mem_singleton.1 hc]
        exact hdigit _ (Nat.mod_lt n (by decide))

/-- A byte that goes on with a character in UTF-8. -/
def isContinuation (c : Char) : Bool := 0x80 ≤ c.toNat && c.toNat ≤ 0xBF

theorem utf8Tail_spec {lead : Nat} {tail : List (Nat × Nat)} (h : utf8Tail lead = some tail) :
    ¬ (0x80 ≤ lead ∧ lead ≤ 0xBF) ∧ ∀ r ∈ tail, 0x80 ≤ r.1 ∧ r.2 ≤ 0xBF := by
  rw [utf8Tail] at h
  split_ifs at h <;> cases h <;> simp <;> omega

/-- A part from the start of a UTF-8 text is UTF-8 exactly when it is the whole text or the next
byte starts a character. -/
theorem utf8From_take_iff {tail : List (Nat × Nat)} (n : Nat)
    (htail : ∀ r ∈ tail, 0x80 ≤ r.1 ∧ r.2 ≤ 0xBF) (h : utf8From tail s = true) :
    utf8From tail (s.take n) = true ↔ ∀ c ∈ s[n]?, isContinuation c = false := by
  induction s generalizing tail n with
  | nil => simpa using h
  | cons c s ih =>
    cases tail with
    | nil =>
      rw [utf8From] at h
      cases hlead : utf8Tail c.toNat with
      | none =>
        rw [hlead] at h
        cases h
      | some tail =>
        rw [hlead] at h
        obtain ⟨hstart, htail⟩ := utf8Tail_spec hlead
        cases n with
        | zero => simpa [utf8From, isContinuation] using hstart
        | succ n =>
          rw [take_succ_cons, utf8From, hlead, getElem?_cons_succ]
          exact ih n htail h
    | cons r tail =>
      obtain ⟨lo, hi⟩ := r
      obtain ⟨hr, htail⟩ := forall_mem_cons.1 htail
      rw [utf8From, Bool.and_eq_true, Bool.and_eq_true, decide_eq_true_eq,
        decide_eq_true_eq] at h
      obtain ⟨⟨hlo, hhi⟩, h⟩ := h
      cases n with
      | zero =>
        rw [take_zero, utf8From, getElem?_cons_zero]
        refine iff_of_false Bool.false_ne_true fun hc => ?_
        have hcont : isContinuation c = true := by
          rw [isContinuation, Bool.and_eq_true, decide_eq_true_eq, decide_eq_true_eq]
          exact ⟨hr.1.trans hlo, hhi.trans hr.2⟩
        rw [hc c rfl] at hcont
        cases hcont
      | succ n =>
        rw [take_succ_cons, utf8From, getElem?_cons_succ, ← ih n htail h]
        simp [hlo, hhi]

end RavBot.Lib.Text
