import RavBot.Lib.Json

/-!
# Session compaction

A history that is too long is cut down to its last messages, with a notice or a summary in front of them.
The lengths are `int`s, and so is the number of messages that are kept; when it is negative, and the history
is not, the iterators are outside of the history.
-/

namespace RavBot.Core

open RavBot.Lib

/-- `Options`. -/
structure CompactionOptions where
  maxMessages : Int := 100
  keepRecent : Int := 20
  maxTokens : Int := 100000

/-- A function that summarizes messages, or throws. -/
abbrev SummaryFn := List Json → Except String String

namespace SessionCompaction

/-! ## The code -/

/-- The characters of the messages so far, with those of a content that is a text. -/
def addContent (totalChars : Int) (msg : Json) : Int :=
  match msg.find? "content" with
  | some (.str content) => Json.toInt32 (totalChars + Json.toInt32 content.length)
  | _ => totalChars

/-- `EstimateTokens`: four characters a token. -/
def estimateTokens (messages : List Json) : Int := (messages.foldl addContent 0).tdiv 4

def exceedsCount (messages : List Json) (opts : CompactionOptions) : Bool :=
  opts.maxMessages < Json.toInt32 messages.length

def needsCompaction (messages : List Json) (opts : CompactionOptions) : Bool :=
  exceedsCount messages opts || opts.maxTokens < estimateTokens messages

/-- The messages between two iterators; `none` when these are outside of the list. -/
def slice (messages : List Json) (first last : Int) : Option (List Json) :=
  if 0 ≤ first ∧ first ≤ last ∧ last ≤ messages.length then
    some ((messages.take last.toNat).drop first.toNat)
  else none

def truncationNote (removed : Int) : Json :=
  .object [("role", .str "system"),
    ("content", .str ("[Earlier messages truncated. " ++ toString removed ++ " messages removed.]")),
    ("metadata", .object [("truncated", .bool true), ("removed_count", .int removed)])]

def summaryMessage (summary : String) (summarized : Int) : Json :=
  .object [("role", .str "system"), ("content", .str ("[Compacted conversation summary]\n" ++ summary)),
    ("metadata", .object [("compacted", .bool true), ("summarized_count", .int summarized)])]

def truncate (messages : List Json) (opts : CompactionOptions) : Option (List Json) :=
  let total := Json.toInt32 messages.length
  let keep := min opts.keepRecent total
  if total ≤ keep then some messages
  else (slice messages (messages.length - keep) messages.length).map (truncationNote (total - keep) :: ·)

/-- The summary of some messages; it is empty where there is none, or making it throws. -/
def summarize (summaryFn : Option SummaryFn) (old : List Json) : String :=
  match summaryFn with
  | none => ""
  | some f =>
    match f old with
    | .error _ => ""
    | .ok summary => summary

def compact (messages : List Json) (opts : CompactionOptions) (summaryFn : Option SummaryFn) :
    Option (List Json) :=
  if needsCompaction messages opts = false then some messages
  else
    let total := Json.toInt32 messages.length
    let keep := min opts.keepRecent total
    let toSummarize := total - keep
    if toSummarize ≤ 0 then some messages
    else do
      let old ← slice messages 0 toSummarize
      let recent ← slice messages toSummarize messages.length
      let summary := summarize summaryFn old
      if summary = "" then truncate messages opts
      else return summaryMessage summary toSummarize :: recent

/-! ## What is returned -/

/-- There are no more messages than before, and not too many when fewer are kept than there may be. -/
structure Fits (messages : List Json) (opts : CompactionOptions) (result : List Json) : Prop where
  length_le : result.length ≤ messages.length
  count : opts.keepRecent < opts.maxMessages → exceedsCount result opts = false

/-- Truncation and compaction stay in the list, and their results fit. -/
structure Bounded (messages : List Json) (opts : CompactionOptions) (summaryFn : Option SummaryFn) : Prop where
  truncated : ∃ result, truncate messages opts = some result ∧ Fits messages opts result
  compacted : ∃ result, compact messages opts summaryFn = some result ∧ Fits messages opts result

theorem toInt32_le (n : Nat) : Json.toInt32 n ≤ n := by
  rw [Json.toInt32, Int.bmod_def]
  split_ifs <;> omega

theorem toInt32_of_le {n m : Nat} (h : (n : Int) ≤ Json.toInt32 m) : Json.toInt32 n = n := by
  rw [Json.toInt32, Int.bmod_def] at h ⊢
  split_ifs at h ⊢ <;> omega

theorem toInt32_sub {n m : Nat} {k : Int} (hpos : 0 ≤ k) (hk : k ≤ Json.toInt32 n)
    (hm : (m : Int) = n - (Json.toInt32 n - k)) : Json.toInt32 m = k := by
  rw [Json.toInt32, Int.bmod_def] at hk hm ⊢
  split_ifs at hk hm ⊢ <;> omega

variable {messages : List Json} {opts : CompactionOptions}

theorem truncate_of_le
    (h : Json.toInt32 messages.length ≤ opts.keepRecent) : truncate messages opts = some messages := by
  rw [truncate]
  exact if_pos (le_min h le_rfl)

theorem truncate_of_lt
    (h : opts.keepRecent < Json.toInt32 messages.length) :
    truncate messages opts =
      if 0 ≤ opts.keepRecent then
        some (truncationNote (Json.toInt32 messages.length - opts.keepRecent) ::
          messages.drop (messages.length - opts.keepRecent.toNat))
      else none := by
  have hle := toInt32_le messages.length
  have hkeep : min opts.keepRecent (Json.toInt32 messages.length) = opts.keepRecent := min_eq_left h.le
  rw [truncate, hkeep, if_neg h.not_ge, slice]
  split_ifs with hslice hneg hneg
  · have hfirst : ((messages.length : Int) - opts.keepRecent).toNat = messages.length - opts.keepRecent.toNat := by
      omega
    rw [Option.map_some, Int.toNat_natCast, List.take_length, hfirst]
  · omega
  · omega
  · rfl

theorem fits_of_toInt32 {result : List Json}
    (hle : result.length ≤ messages.length) (hcount : Json.toInt32 result.length = opts.keepRecent + 1) :
    Fits messages opts result := by
  refine ⟨hle, fun hmax => ?_⟩
  rw [exceedsCount, hcount]
  exact decide_eq_false (by omega)

theorem fits_self
    (h : opts.keepRecent < opts.maxMessages → Json.toInt32 messages.length ≤ opts.maxMessages) :
    Fits messages opts messages :=
  ⟨le_rfl, fun hmax => decide_eq_false (h hmax).not_gt⟩

/-- Truncation stays in the list exactly when the number of messages to keep is not negative, or at least the
length of the list. -/
theorem truncate_fits_iff (messages : List Json) (opts : CompactionOptions) :
    (∃ result, truncate messages opts = some result ∧ Fits messages opts result) ↔
      0 ≤ opts.keepRecent ∨ Json.toInt32 messages.length ≤ opts.keepRecent := by
  have hle := toInt32_le messages.length
  rcases le_or_gt (Json.toInt32 messages.length) opts.keepRecent with hall | hlt
  · rw [truncate_of_le hall]
    exact iff_of_true ⟨messages, rfl, fits_self fun hmax => by omega⟩ (.inr hall)
  · rw [truncate_of_lt hlt, or_iff_left hlt.not_ge]
    split_ifs with hpos
    · have hlength (note : Json) : ((note :: messages.drop (messages.length - opts.keepRecent.toNat)).length : Int) =
          opts.keepRecent + 1 := by
        rw [List.length_cons, List.length_drop]
        omega
      refine iff_of_true ⟨_, rfl, fits_of_toInt32 ?_ ?_⟩ hpos
      · have := hlength (truncationNote (Json.toInt32 messages.length - opts.keepRecent))
        omega
      · rw [toInt32_of_le (m := messages.length) (by rw [hlength]; omega), hlength]
    · exact iff_of_false (by rintro ⟨_, ⟨⟩, -⟩) hpos

theorem compact_fits (summaryFn : Option SummaryFn)
    (h : 0 ≤ opts.keepRecent ∨ Json.toInt32 messages.length ≤ opts.keepRecent) :
    ∃ result, compact messages opts summaryFn = some result ∧ Fits messages opts result := by
  have hle := toInt32_le messages.length
  rw [compact]
  dsimp only
  split_ifs with hneeds hall
  · rw [needsCompaction, Bool.or_eq_false_iff] at hneeds
    exact ⟨messages, rfl, le_rfl, fun _ => hneeds.1⟩
  · exact ⟨messages, rfl, fits_self fun hmax => by omega⟩
  · have hlt : opts.keepRecent < Json.toInt32 messages.length := by omega
    have hpos : 0 ≤ opts.keepRecent := h.resolve_right hlt.not_ge
    have hkeep : min opts.keepRecent (Json.toInt32 messages.length) = opts.keepRecent := min_eq_left hlt.le
    have htruncate := (truncate_fits_iff messages opts).2 h
    rw [hkeep, slice, if_pos (by omega), slice, if_pos (by omega)]
    show ∃ result, (if summarize summaryFn _ = "" then _ else _) = some result ∧ _
    split_ifs
    · exact htruncate
    · refine ⟨_, rfl, fits_of_toInt32 ?_ (toInt32_sub (n := messages.length) (by omega) (by omega) ?_)⟩
      · rw [List.length_cons, List.length_drop, Int.toNat_natCast, List.take_length]
        omega
      · rw [List.length_cons, List.length_drop, Int.toNat_natCast, List.take_length]
        omega

/-- **Compaction is bounded** exactly when the number of messages to keep is not negative, or at least the length
of the history as an `int`. -/
theorem bounded_iff_keepRecent (messages : List Json) (opts : CompactionOptions) (summaryFn : Option SummaryFn) :
    Bounded messages opts summaryFn ↔
      0 ≤ opts.keepRecent ∨ Json.toInt32 messages.length ≤ opts.keepRecent := by
  rw [← truncate_fits_iff]
  refine ⟨fun h => h.truncated, fun h => ⟨h, ?_⟩⟩
  exact compact_fits summaryFn ((truncate_fits_iff messages opts).1 h)

end SessionCompaction

end RavBot.Core
