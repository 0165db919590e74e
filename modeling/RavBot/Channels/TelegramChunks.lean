import Mathlib.Logic.Relation
import RavBot.Lib.Text

/-!
# Chunks of a Telegram message

`split_telegram_message` cuts a message where a sentence ends, at a blank, or between two characters.  It looks for
the place backwards from the byte behind the limit, and puts what it finds into the chunk, which is then one byte
too long.  `splitsRight_iff` says when that does not happen.  Nothing is lost in any case, and characters stay
whole.
-/

open List

namespace RavBot.Channels

open RavBot.Lib

def kTelegramMessageChunkLimit : Nat := 4000

def sentenceEnds : List Char := ['.', '?', '!', '\n']

def blanks : List Char := [' ', '\t', '\n']

def At (kind : Char → Bool) (s : List Char) (p : Nat) : Prop := ∃ c ∈ s[p]?, kind c

instance (kind : Char → Bool) (s : List Char) (p : Nat) : Decidable (At kind s p) :=
  inferInstanceAs (Decidable (∃ c ∈ s[p]?, kind c))

/-- `find_last_of`: the last position up to `pos` at which a byte of the set stands. -/
def findLastOf (set s : List Char) : Nat → Option Nat
  | 0 => if At (· ∈ set) s 0 then some 0 else none
  | pos + 1 => if At (· ∈ set) s (pos + 1) then some (pos + 1) else findLastOf set s pos

def characterStart (s : List Char) (start : Nat) : Nat → Nat
  | 0 => 0
  | stop + 1 => if start < stop + 1 ∧ At Text.isContinuation s (stop + 1) then characterStart s start stop else stop + 1

/-- The end of the chunk that starts at a position. -/
def chunkEnd (message : List Char) (start : Nat) : Nat :=
  let stop := min (start + kTelegramMessageChunkLimit) message.length
  if stop < message.length then
    match (findLastOf sentenceEnds message stop).filter (start < ·) with
    | some sentenceEnd => sentenceEnd + 1
    | none =>
      match (findLastOf blanks message stop).filter (start < ·) with
      | some spacePos => spacePos + 1
      | none =>
        if characterStart message start stop = start then stop else characterStart message start stop
  else stop

/-! ## Where a chunk ends -/

/-- The last position in a window, behind its first one, at which a byte of the set stands. -/
structure IsLast (set s : List Char) (lo hi p : Nat) : Prop where
  after : lo < p
  le : p ≤ hi
  stands : At (· ∈ set) s p
  last : ∀ q, p < q → q ≤ hi → ¬ At (· ∈ set) s q

def NoneIn (set s : List Char) (lo hi : Nat) : Prop := ∀ q, lo < q → q ≤ hi → ¬ At (· ∈ set) s q

/-- The chunk that starts at a position ends at another one. -/
inductive Breaks (message : List Char) (start : Nat) : Nat → Prop where
  /-- What is left fits. -/
  | rest (hstart : start < message.length) (hfits : message.length ≤ start + kTelegramMessageChunkLimit) :
      Breaks message start message.length
  /-- Behind the last sentence. -/
  | sentence {p : Nat} (hlong : start + kTelegramMessageChunkLimit < message.length)
      (hlast : IsLast sentenceEnds message start (start + kTelegramMessageChunkLimit) p) : Breaks message start (p + 1)
  /-- Behind the last blank. -/
  | blank {p : Nat} (hlong : start + kTelegramMessageChunkLimit < message.length)
      (hnone : NoneIn sentenceEnds message start (start + kTelegramMessageChunkLimit))
      (hlast : IsLast blanks message start (start + kTelegramMessageChunkLimit) p) : Breaks message start (p + 1)
  /-- In front of the last character that starts. -/
  | character {p : Nat} (hlong : start + kTelegramMessageChunkLimit < message.length)
      (hsentence : NoneIn sentenceEnds message start (start + kTelegramMessageChunkLimit))
      (hblank : NoneIn blanks message start (start + kTelegramMessageChunkLimit)) (hafter : start < p)
      (hle : p ≤ start + kTelegramMessageChunkLimit) (hstarts : ¬ At Text.isContinuation message p)
      (hlast : ∀ q, p < q → q ≤ start + kTelegramMessageChunkLimit → At Text.isContinuation message q) : Breaks message start p
  /-- At the limit, where no character starts. -/
  | limit (hlong : start + kTelegramMessageChunkLimit < message.length)
      (hsentence : NoneIn sentenceEnds message start (start + kTelegramMessageChunkLimit))
      (hblank : NoneIn blanks message start (start + kTelegramMessageChunkLimit))
      (hlast : ∀ q, start < q → q ≤ start + kTelegramMessageChunkLimit → At Text.isContinuation message q) :
      Breaks message start (start + kTelegramMessageChunkLimit)

/-! ## The search -/

variable {set s message : List Char}

theorem findLastOf_succ {lo hi : Nat} :
    (findLastOf set s (hi + 1)).filter (lo < ·) =
      if At (· ∈ set) s (hi + 1) then if lo < hi + 1 then some (hi + 1) else none
      else (findLastOf set s hi).filter (lo < ·) := by
  rw [findLastOf]
  split_ifs with hat hlo
  · rw [Option.filter_some, if_pos (decide_eq_true hlo)]
  · rw [Option.filter_some, if_neg fun h => hlo (of_decide_eq_true h)]
  · rfl

theorem findLastOf_spec (set s : List Char) (lo hi : Nat) :
    (∃ p, (findLastOf set s hi).filter (lo < ·) = some p ∧ IsLast set s lo hi p) ∨
      (findLastOf set s hi).filter (lo < ·) = none ∧ NoneIn set s lo hi := by
  induction hi with
  | zero =>
    refine .inr ⟨?_, fun q hq hle => absurd (hq.trans_le hle) (Nat.not_lt_zero lo)⟩
    rw [Option.filter_eq_none_iff]
    intro p hp
    rw [findLastOf, Option.ite_none_right_eq_some] at hp
    cases hp.2
    exact fun h => absurd (of_decide_eq_true h) (Nat.not_lt_zero lo)
  | succ hi ih =>
    rw [findLastOf_succ]
    by_cases hat : At (· ∈ set) s (hi + 1)
    · rw [if_pos hat]
      by_cases hlo : lo < hi + 1
      · rw [if_pos hlo]
        exact .inl ⟨hi + 1, rfl, hlo, le_rfl, hat, fun q hq hle => absurd (hq.trans_le hle) (lt_irrefl _)⟩
      · rw [if_neg hlo]
        exact .inr ⟨rfl, fun q hq hle => absurd (hq.trans_le hle) hlo⟩
    · rw [if_neg hat]
      -- the byte at the end of the window is no such byte
      have hextend (q : Nat) (hle : q ≤ hi + 1) (h : q ≤ hi → ¬ At (· ∈ set) s q) : ¬ At (· ∈ set) s q := by
        rcases Nat.le_succ_iff.1 hle with hle | rfl
        · exact h hle
        · exact hat
      rcases ih with ⟨p, hfound, hlast⟩ | ⟨hfound, hnone⟩
      · exact .inl ⟨p, hfound, hlast.after, hlast.le.trans hi.le_succ, hlast.stands,
          fun q hq hle => hextend q hle (hlast.last q hq)⟩
      · exact .inr ⟨hfound, fun q hq hle => hextend q hle (hnone q hq)⟩

variable {p start : Nat}

theorem IsLast.not_noneIn {lo hi : Nat} (h : IsLast set s lo hi p) : ¬ NoneIn set s lo hi :=
  fun hnone => hnone p h.after h.le h.stands

theorem IsLast.unique {lo hi q : Nat} (hp : IsLast set s lo hi p) (hq : IsLast set s lo hi q) :
    p = q := by
  rcases lt_trichotomy p q with hlt | heq | hlt
  · exact absurd hq.stands (hp.last q hlt hq.le)
  · exact heq
  · exact absurd hp.stands (hq.last p hlt hp.le)

theorem findLastOf_of_isLast {lo hi : Nat} (h : IsLast set s lo hi p) :
    (findLastOf set s hi).filter (lo < ·) = some p := by
  rcases findLastOf_spec set s lo hi with ⟨q, hfound, hlast⟩ | ⟨-, hnone⟩
  · rw [hfound, hlast.unique h]
  · exact absurd hnone h.not_noneIn

theorem findLastOf_of_noneIn {lo hi : Nat} (h : NoneIn set s lo hi) :
    (findLastOf set s hi).filter (lo < ·) = none := by
  rcases findLastOf_spec set s lo hi with ⟨q, -, hlast⟩ | ⟨hfound, -⟩
  · exact absurd h hlast.not_noneIn
  · exact hfound

theorem characterStart_spec (s : List Char) {stop : Nat} (hle : start ≤ stop) :
    start ≤ characterStart s start stop ∧ characterStart s start stop ≤ stop ∧
      (start < characterStart s start stop → ¬ At Text.isContinuation s (characterStart s start stop)) ∧
      ∀ q, characterStart s start stop < q → q ≤ stop → At Text.isContinuation s q := by
  induction stop with
  | zero =>
    cases Nat.le_zero.1 hle
    exact ⟨le_rfl, le_rfl, fun h => absurd h (lt_irrefl _), fun q hq hle => absurd (hq.trans_le hle) (lt_irrefl _)⟩
  | succ stop ih =>
    rw [characterStart]
    split_ifs with hback
    · obtain ⟨hlow, hhigh, hstarts, hlast⟩ := ih (Nat.lt_succ_iff.1 hback.1)
      refine ⟨hlow, hhigh.trans stop.le_succ, hstarts, fun q hq hle => ?_⟩
      rcases Nat.le_succ_iff.1 hle with hle | rfl
      · exact hlast q hq hle
      · exact hback.2
    · exact ⟨hle, le_rfl, fun hlt hcont => hback ⟨hlt, hcont⟩, fun q hq hle => absurd (hq.trans_le hle) (lt_irrefl _)⟩

/-! ## The end of a chunk -/

/-- Where a chunk ends in a window that does not reach the end of the message. -/
def windowEnd (message : List Char) (start stop : Nat) : Nat :=
  match (findLastOf sentenceEnds message stop).filter (start < ·) with
  | some sentenceEnd => sentenceEnd + 1
  | none =>
    match (findLastOf blanks message stop).filter (start < ·) with
    | some spacePos => spacePos + 1
    | none => if characterStart message start stop = start then stop else characterStart message start stop

/-- A window ends behind the last sentence, behind the last blank, in front of the last character, or where it
stops. -/
theorem windowEnd_spec (message : List Char) {stop : Nat} (hle : start ≤ stop) :
    (∃ p, IsLast sentenceEnds message start stop p ∧ windowEnd message start stop = p + 1) ∨
      NoneIn sentenceEnds message start stop ∧
        ((∃ p, IsLast blanks message start stop p ∧ windowEnd message start stop = p + 1) ∨
          NoneIn blanks message start stop ∧
            ((start < windowEnd message start stop ∧ windowEnd message start stop ≤ stop ∧
                ¬ At Text.isContinuation message (windowEnd message start stop) ∧
                ∀ q, windowEnd message start stop < q → q ≤ stop → At Text.isContinuation message q) ∨
              windowEnd message start stop = stop ∧
                ∀ q, start < q → q ≤ stop → At Text.isContinuation message q)) := by
  rw [windowEnd]
  rcases findLastOf_spec sentenceEnds message start stop with ⟨p, hfound, hlast⟩ | ⟨hfound, hsentence⟩
  · rw [hfound]
    exact .inl ⟨p, hlast, rfl⟩
  · rw [hfound]
    refine .inr ⟨hsentence, ?_⟩
    rcases findLastOf_spec blanks message start stop with ⟨p, hfound', hlast⟩ | ⟨hfound', hblank⟩
    · rw [hfound']
      exact .inl ⟨p, hlast, rfl⟩
    · rw [hfound']
      refine .inr ⟨hblank, ?_⟩
      dsimp only
      obtain ⟨hlow, hhigh, hstarts, hlast⟩ := characterStart_spec message hle
      split_ifs with hsame
      · rw [hsame] at hlast
        exact .inr ⟨rfl, hlast⟩
      · have hafter := lt_of_le_of_ne hlow (Ne.symm hsame)
        exact .inl ⟨hafter, hhigh, hstarts hafter, hlast⟩

theorem chunkEnd_eq (message : List Char) (start : Nat) :
    chunkEnd message start =
      if min (start + kTelegramMessageChunkLimit) message.length < message.length then
        windowEnd message start (min (start + kTelegramMessageChunkLimit) message.length)
      else min (start + kTelegramMessageChunkLimit) message.length := rfl

theorem chunkEnd_of_long
    (hlong : start + kTelegramMessageChunkLimit < message.length) :
    chunkEnd message start = windowEnd message start (start + kTelegramMessageChunkLimit) := by
  have hstop : min (start + kTelegramMessageChunkLimit) message.length = start + kTelegramMessageChunkLimit :=
    min_eq_left hlong.le
  rw [chunkEnd_eq, hstop, if_pos hlong]

theorem breaks_chunkEnd (hstart : start < message.length) :
    Breaks message start (chunkEnd message start) := by
  by_cases hlong : start + kTelegramMessageChunkLimit < message.length
  · rw [chunkEnd_of_long hlong]
    rcases windowEnd_spec message (Nat.le_add_right start kTelegramMessageChunkLimit) with
      ⟨p, hlast, heq⟩ | ⟨hsentence, ⟨p, hlast, heq⟩ | ⟨hblank, ⟨hafter, hle, hstarts, hlast⟩ | ⟨heq, hlast⟩⟩⟩
    · rw [heq]
      exact .sentence hlong hlast
    · rw [heq]
      exact .blank hlong hsentence hlast
    · exact .character hlong hsentence hblank hafter hle hstarts hlast
    · rw [heq]
      exact .limit hlong hsentence hblank hlast
  · have hstop : min (start + kTelegramMessageChunkLimit) message.length = message.length :=
      min_eq_right (not_lt.1 hlong)
    rw [chunkEnd_eq, hstop, if_neg (lt_irrefl _)]
    exact .rest hstart (not_lt.1 hlong)

theorem Breaks.chunkEnd_eq (h : Breaks message start p) : chunkEnd message start = p := by
  have hmin (hlong : start + kTelegramMessageChunkLimit < message.length) :
      min (start + kTelegramMessageChunkLimit) message.length = start + kTelegramMessageChunkLimit :=
    min_eq_left hlong.le
  have hspec := characterStart_spec message (Nat.le_add_right start kTelegramMessageChunkLimit)
  rw [chunkEnd]
  cases h with
  | rest hstart hfits => simp only [min_eq_right hfits, lt_irrefl, if_false]
  | sentence hlong hlast => simp only [hmin hlong, if_pos hlong, findLastOf_of_isLast hlast]
  | blank hlong hnone hlast =>
    simp only [hmin hlong, if_pos hlong, findLastOf_of_noneIn hnone, findLastOf_of_isLast hlast]
  | character hlong hsentence hblank hafter hle hstarts hlast =>
    obtain ⟨-, hhigh, hstarts', hlast'⟩ := hspec
    have heq : characterStart message start (start + kTelegramMessageChunkLimit) = p := by
      rcases lt_trichotomy (characterStart message start (start + kTelegramMessageChunkLimit)) p with hlt | heq | hlt
      · exact absurd (hlast' p hlt hle) hstarts
      · exact heq
      · exact absurd (hlast _ hlt hhigh) (hstarts' (hafter.trans hlt))
    simp only [hmin hlong, if_pos hlong, findLastOf_of_noneIn hsentence, findLastOf_of_noneIn hblank, heq,
      if_neg hafter.ne']
  | limit hlong hsentence hblank hlast =>
    obtain ⟨hlow, hhigh, hstarts, -⟩ := hspec
    have heq : characterStart message start (start + kTelegramMessageChunkLimit) = start := by
      by_contra hne
      have hafter := lt_of_le_of_ne hlow (Ne.symm hne)
      exact hstarts hafter (hlast _ hafter hhigh)
    simp only [hmin hlong, if_pos hlong, findLastOf_of_noneIn hsentence, findLastOf_of_noneIn hblank, heq, if_true]

theorem Breaks.bounds (h : Breaks message start p) :
    start < message.length ∧ start < p ∧ p ≤ message.length := by
  have hpos : 0 < kTelegramMessageChunkLimit := by decide
  cases h with
  | rest hstart hfits => exact ⟨hstart, hstart, le_rfl⟩
  | sentence hlong hlast => 
    have hafter := hlast.after
    have hle := hlast.le
    omega
  | blank hlong hnone hlast =>
    have hafter := hlast.after
    have hle := hlast.le
    omega
  | character hlong hsentence hblank hafter hle => omega
  | limit hlong => omega

theorem chunkEnd_bounds (h : start < message.length) :
    start < chunkEnd message start ∧ chunkEnd message start ≤ message.length :=
  (breaks_chunkEnd h).bounds.2

/-! ## The split -/

/-- The loop of `split_telegram_message`. -/
def splitFrom (message : List Char) (start : Nat) : List (List Char) :=
  if _h : start < message.length then
    (message.drop start).take (chunkEnd message start - start) :: splitFrom message (chunkEnd message start)
  else []
termination_by message.length - start
decreasing_by
  have hbounds := chunkEnd_bounds _h
  omega

def splitTelegramMessage (message : List Char) : List (List Char) :=
  if message = [] then [[]] else splitFrom message 0

/-! ## What is to hold -/

/-- Nothing is lost, no chunk is empty or too long, and the chunks of a UTF-8 text are UTF-8. -/
structure SplitsRight (message : List Char) : Prop where
  joined : (splitTelegramMessage message).flatten = message
  nonempty : ∀ chunk ∈ splitTelegramMessage message, chunk ≠ []
  short : ∀ chunk ∈ splitTelegramMessage message, chunk.length ≤ kTelegramMessageChunkLimit
  utf8 : Text.utf8From [] message = true → ∀ chunk ∈ splitTelegramMessage message, Text.utf8From [] chunk = true

/-- The byte behind the limit ends a sentence; or it is a blank and no sentence ends before it. -/
def Overshoots (message : List Char) (start : Nat) : Prop :=
  start + kTelegramMessageChunkLimit < message.length ∧
    (At (· ∈ sentenceEnds) message (start + kTelegramMessageChunkLimit) ∨
      At (· ∈ blanks) message (start + kTelegramMessageChunkLimit) ∧
        NoneIn sentenceEnds message start (start + kTelegramMessageChunkLimit))

def Starts (message : List Char) (start : Nat) : Prop := Relation.ReflTransGen (Breaks message) 0 start

/-! ## Every chunk -/

theorem forall_splitFrom_iff {P : List Char → Prop} (start : Nat) :
    (∀ chunk ∈ splitFrom message start, P chunk) ↔
      ∀ p, Relation.ReflTransGen (Breaks message) start p → p < message.length →
        P ((message.drop p).take (chunkEnd message p - p)) := by
  induction start using splitFrom.induct message with
  | case1 start hstart ih =>
    rw [splitFrom, dif_pos hstart, forall_mem_cons, ih]
    constructor
    · rintro ⟨hfirst, hrest⟩ p hp hlt
      rcases Relation.ReflTransGen.cases_head hp with rfl | ⟨q, hbreaks, hq⟩
      · exact hfirst
      · exact hrest p (hbreaks.chunkEnd_eq ▸ hq) hlt
    · intro h
      exact ⟨h start .refl hstart, fun p hp hlt => h p (.head (breaks_chunkEnd hstart) hp) hlt⟩
  | case2 start hstart =>
    rw [splitFrom, dif_neg hstart]
    refine iff_of_true (fun _ h => absurd h not_mem_nil) fun p hp hlt => ?_
    rcases Relation.ReflTransGen.cases_head hp with rfl | ⟨q, hbreaks, -⟩
    · exact absurd hlt hstart
    · exact absurd hbreaks.bounds.1 hstart

theorem flatten_splitFrom (message : List Char) (start : Nat) :
    (splitFrom message start).flatten = message.drop start := by
  induction start using splitFrom.induct message with
  | case1 start hstart ih =>
    have hbounds := chunkEnd_bounds hstart
    have hrest : message.drop (chunkEnd message start) =
        (message.drop start).drop (chunkEnd message start - start) := by
      rw [drop_drop]
      congr 1
      omega
    rw [splitFrom, dif_pos hstart, List.flatten_cons, ih, hrest, take_append_drop]
  | case2 start hstart =>
    rw [splitFrom, dif_neg hstart, drop_eq_nil_of_le (not_lt.1 hstart), List.flatten_nil]

theorem Breaks.length_le_iff (h : Breaks message start p) :
    p - start ≤ kTelegramMessageChunkLimit ↔ ¬ Overshoots message start := by
  have hpos : start < start + kTelegramMessageChunkLimit := Nat.lt_add_of_pos_right (by decide)
  rw [Overshoots]
  cases h with
  | rest hstart hfits => exact iff_of_true (by omega) fun h => absurd h.1 (not_lt.2 hfits)
  | @sentence p hlong hlast =>
    have hafter := hlast.after
    rw [and_iff_right hlong, or_iff_left fun h => hlast.not_noneIn h.2]
    constructor
    · intro hshort
      exact hlast.last _ (by omega) le_rfl
    · intro hat
      have hne : p ≠ start + kTelegramMessageChunkLimit := fun heq => hat (heq ▸ hlast.stands)
      have hle := hlast.le
      omega
  | @blank p hlong hnone hlast =>
    have hafter := hlast.after
    rw [and_iff_right hlong, or_iff_right (hnone _ hpos le_rfl), and_iff_left hnone]
    constructor
    · intro hshort
      exact hlast.last _ (by omega) le_rfl
    · intro hat
      have hne : p ≠ start + kTelegramMessageChunkLimit := fun heq => hat (heq ▸ hlast.stands)
      have hle := hlast.le
      omega
  | character hlong hsentence hblank hafter hle =>
    refine iff_of_true (by omega) ?_
    rintro ⟨-, hat | ⟨hat, -⟩⟩
    · exact hsentence _ hpos le_rfl hat
    · exact hblank _ hpos le_rfl hat
  | limit hlong hsentence hblank =>
    refine iff_of_true (by omega) ?_
    rintro ⟨-, hat | ⟨hat, -⟩⟩
    · exact hsentence _ hpos le_rfl hat
    · exact hblank _ hpos le_rfl hat

/-! ## Characters -/

variable {tail : List (Nat × Nat)}

theorem utf8From_of_append {a b : List Char} (h : Text.utf8From tail (a ++ b) = true)
    (ha : Text.utf8From tail a = true) : Text.utf8From [] b = true := by
  induction a generalizing tail with
  | nil =>
    cases tail with
    | nil => exact h
    | cons r tail => cases ha
  | cons c a ih =>
    cases tail with
    | nil =>
      rw [cons_append, Text.utf8From] at h
      rw [Text.utf8From] at ha
      cases hlead : Text.utf8Tail c.toNat with
      | none =>
        rw [hlead] at ha
        cases ha
      | some tail =>
        rw [hlead] at h ha
        exact ih h ha
    | cons r tail =>
      rw [cons_append, Text.utf8From, Bool.and_eq_true] at h
      rw [Text.utf8From, Bool.and_eq_true] at ha
      exact ih h.2 ha.2

theorem utf8From_boundary (h : Text.utf8From tail s = true) :
    ¬ At Text.isContinuation s tail.length := by
  induction s generalizing tail with
  | nil =>
    rintro ⟨c, hc, -⟩
    rw [getElem?_nil] at hc
    cases hc
  | cons c s ih =>
    cases tail with
    | nil =>
      have hstart := (Text.utf8From_take_iff 0 (fun r hr => absurd hr not_mem_nil) h).1 rfl
      rintro ⟨d, hd, hcont⟩
      rw [hstart d hd] at hcont
      cases hcont
    | cons r tail =>
      rw [Text.utf8From, Bool.and_eq_true] at h
      exact ih h.2

theorem utf8Tail_length_le {lead : Nat} (h : Text.utf8Tail lead = some tail) : tail.length ≤ 3 := by
  rw [Text.utf8Tail] at h
  split_ifs at h <;> cases h <;> decide

theorem at_drop {kind : Char → Bool} : At kind (s.drop start) p ↔ At kind s (start + p) := by
  rw [At, At, getElem?_drop]

theorem boundary_succ (h : Text.utf8From [] s = true) {kind : Char → Bool}
    (hkind : ∀ c, kind c → c.toNat < 128) (hat : At kind s p) : ¬ At Text.isContinuation s (p + 1) := by
  obtain ⟨c, hc, hascii⟩ := hat
  have hlt := hkind c hascii
  have hstart : Text.isContinuation c = false := by
    rw [Text.isContinuation, decide_eq_false (by omega), Bool.false_and]
  have htake : Text.utf8From [] (s.take p) = true := by
    refine (Text.utf8From_take_iff p (fun r hr => absurd hr not_mem_nil) h).2 fun d hd => ?_
    cases hc.symm.trans hd
    exact hstart
  have hdrop : Text.utf8From [] (s.drop p) = true := by
    rw [← take_append_drop p s] at h
    exact utf8From_of_append h htake
  obtain ⟨hp, rfl⟩ := List.getElem?_eq_some_iff.1 hc
  have htail : Text.utf8Tail s[p].toNat = some [] := if_pos (Nat.le_of_lt_succ hlt)
  rw [drop_eq_getElem_cons hp, Text.utf8From, htail] at hdrop
  have hboundary := utf8From_boundary hdrop
  rwa [at_drop] at hboundary

theorem Breaks.boundary (h : Breaks message start p)
    (hvalid : Text.utf8From [] (message.drop start) = true) : ¬ At Text.isContinuation message p := by
  have hascii (set : List Char) (hset : ∀ c ∈ set, c.toNat < 128) {q : Nat} (hlt : start < q)
      (hat : At (· ∈ set) message q) : ¬ At Text.isContinuation message (q + 1) := by
    obtain ⟨k, rfl⟩ := Nat.exists_eq_add_of_le hlt.le
    rw [← at_drop] at hat
    have hsucc := boundary_succ hvalid (fun c hc => hset c (of_decide_eq_true hc)) hat
    rwa [at_drop] at hsucc
  cases h with
  | rest hstart hfits =>
    rintro ⟨c, hc, -⟩
    rw [getElem?_eq_none le_rfl] at hc
    cases hc
  | sentence hlong hlast => exact hascii sentenceEnds (Text.forall_of_all (by decide)) hlast.after hlast.stands
  | blank hlong hnone hlast => exact hascii blanks (Text.forall_of_all (by decide)) hlast.after hlast.stands
  | character hlong hsentence hblank hafter hle hstarts => exact hstarts
  | limit hlong hsentence hblank hlast =>
    -- the character that starts here ends before the limit
    have hstart : start < message.length := by omega
    rw [drop_eq_getElem_cons hstart, Text.utf8From] at hvalid
    cases hlead : Text.utf8Tail message[start].toNat with
    | none =>
      rw [hlead] at hvalid
      cases hvalid
    | some tail =>
      rw [hlead] at hvalid
      have hboundary := utf8From_boundary hvalid
      rw [at_drop] at hboundary
      have hlength := utf8Tail_length_le hlead
      have hfour : 4 ≤ kTelegramMessageChunkLimit := by decide
      exact absurd (hlast (start + 1 + tail.length) (by omega) (by omega)) hboundary

theorem Breaks.utf8 (h : Breaks message start p)
    (hvalid : Text.utf8From [] (message.drop start) = true) :
    Text.utf8From [] ((message.drop start).take (p - start)) = true ∧ Text.utf8From [] (message.drop p) = true := by
  obtain ⟨-, hlt, -⟩ := h.bounds
  have hsum : start + (p - start) = p := by omega
  have htake : Text.utf8From [] ((message.drop start).take (p - start)) = true := by
    refine (Text.utf8From_take_iff _ (fun r hr => absurd hr not_mem_nil) hvalid).2 fun c hc => ?_
    rw [getElem?_drop, hsum] at hc
    by_contra hcont
    exact h.boundary hvalid ⟨c, hc, Bool.of_not_eq_false hcont⟩
  refine ⟨htake, ?_⟩
  rw [← take_append_drop (p - start) (message.drop start)] at hvalid
  have hdrop := utf8From_of_append hvalid htake
  rwa [drop_drop, hsum] at hdrop

/-! ## Every message -/

theorem length_chunk (hp : p < message.length) :
    ((message.drop p).take (chunkEnd message p - p)).length = chunkEnd message p - p := by
  have hbounds := chunkEnd_bounds hp
  rw [length_take, length_drop]
  omega

theorem short_iff (hne : message ≠ []) :
    (∀ chunk ∈ splitTelegramMessage message, chunk.length ≤ kTelegramMessageChunkLimit) ↔
      ∀ start, Starts message start → ¬ Overshoots message start := by
  rw [splitTelegramMessage, if_neg hne, forall_splitFrom_iff]
  constructor
  · intro h start hstart hover
    have hlt : start < message.length := by
      have hlong := hover.1
      omega
    have hle := h start hstart hlt
    rw [length_chunk hlt] at hle
    exact (breaks_chunkEnd hlt).length_le_iff.1 hle hover
  · intro h start hstart hlt
    rw [length_chunk hlt]
    exact (breaks_chunkEnd hlt).length_le_iff.2 (h start hstart)

/-- **Chunks.**  Of every message that is not empty nothing is lost, no chunk is empty, and characters stay whole;
all chunks are short enough exactly when none overshoots. -/
theorem splitsRight_iff {message : List Char} (hne : message ≠ []) :
    SplitsRight message ↔ ∀ start, Starts message start → ¬ Overshoots message start := by
  have hsplit : splitTelegramMessage message = splitFrom message 0 := if_neg hne
  refine ⟨fun h => (short_iff hne).1 h.short, fun h => ⟨?_, ?_, (short_iff hne).2 h, fun hvalid => ?_⟩⟩
  · rw [hsplit, flatten_splitFrom, drop_zero]
  · rw [hsplit, forall_splitFrom_iff]
    intro p _ hlt
    have hbounds := chunkEnd_bounds hlt
    rw [← length_pos_iff, length_chunk hlt]
    omega
  · have hrest (p : Nat) (hp : Starts message p) : Text.utf8From [] (message.drop p) = true := by
      induction hp with
      | refl => exact hvalid
      | tail _ hbreaks ih => exact (hbreaks.utf8 ih).2
    rw [hsplit, forall_splitFrom_iff]
    intro p hp hlt
    exact ((breaks_chunkEnd hlt).utf8 (hrest p hp)).1

/-- A message that fits. -/
theorem splitsRight_hello : SplitsRight "Hello. World".toList := by
  refine (splitsRight_iff (by decide)).2 fun start _ hover => ?_
  have hlong := hover.1
  rw [kTelegramMessageChunkLimit] at hlong
  have hlength : "Hello. World".toList.length = 12 := rfl
  omega

/-- A message whose first sentence is one byte longer than the limit. -/
def longSentence : List Char := List.replicate kTelegramMessageChunkLimit 'a' ++ ['.', 'a']

/-- The byte behind the limit ends a sentence. -/
theorem not_splitsRight : ¬ ∀ message, message ≠ [] → SplitsRight message := by
  intro h
  have hne : longSentence ≠ [] := append_ne_nil_of_right_ne_nil _ (cons_ne_nil _ _)
  refine (short_iff hne).1 (h longSentence hne).short 0 .refl ⟨?_, .inl ⟨'.', ?_, by decide⟩⟩
  · rw [longSentence, length_append, length_replicate, Nat.zero_add]
    exact Nat.lt_add_of_pos_right (by decide)
  · have hplace : (List.replicate kTelegramMessageChunkLimit 'a').length = kTelegramMessageChunkLimit :=
      length_replicate
    rw [longSentence, Nat.zero_add, getElem?_append_right hplace.le, hplace, Nat.sub_self]
    rfl

end RavBot.Channels
