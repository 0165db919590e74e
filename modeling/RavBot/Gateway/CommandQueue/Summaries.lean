import RavBot.Gateway.CommandQueue.Cap
import RavBot.Gateway.CommandQueue.Order

/-!
# Overflow and its summaries

The overflow loop ends for every queue, cap and policy (`OverflowRun`), brings the queue down to a
cap of one or more, and accounts for the commands it takes out.  Under `summarize` their texts go
into the oldest entry.  How many messages that entry already stands for is read back from its own
text, so a message that looks like a summary is taken for one.

`Tracked` remembers of every submitted message which entry stands for it, and `Recounts` says that
the text of an entry tells the messages it stands for.  The invariant is that all entries do, and
that only the entry at the front stands for more than one; `MergesWell` is the condition on the
steps under which it survives.
-/

open List

namespace RavBot.Gateway

open RavBot.Lib

namespace SessionLane

/-! ## The text of a summary -/

def summaryOf (count : Nat) (content : List Char) : List Char :=
  "[Queue summary: ".toList ++ ((toString count).toList ++ (" messages] ".toList ++ content))

theorem isDigit_of_mem_toString {n : Nat} {c : Char} (h : c ∈ (toString n).toList) : c.isDigit := by
  rw [Nat.toString_eq_ofList_toDigits, String.toList_ofList] at h
  exact Nat.isDigit_of_mem_toDigits (by decide) (by decide) h

theorem notMem_toString {n : Nat} {c : Char} (h : ¬ c.isDigit) : c ∉ (toString n).toList :=
  fun hc => h (isDigit_of_mem_toString hc)

theorem isPrefixOf_summaryOf (count : Nat) (content : List Char) :
    summaryHead.isPrefixOf (summaryOf count content) := by
  have hhead : "[Queue summary: ".toList = summaryHead ++ [' '] := by
    unfold summaryHead
    simp
  unfold summaryOf
  rw [ isPrefixOf_iff_prefix, hhead, append_assoc]
  exact prefix_append _ _

theorem find_count (count : Nat) (content : List Char) :
    Text.find ": ".toList (summaryOf count content) = some 14 := by
  have hhead : "[Queue summary: ".toList = "[Queue summary".toList ++ [':', ' '] := by
    simp
  have hcolon : ':' ∉ "[Queue summary".toList := by simp
  have hlength : "[Queue summary".toList.length = 14 := by simp
  unfold summaryOf
  rw [hhead, append_assoc, show ": ".toList = [':', ' '] by simp,
    Text.find_append_of_notMem hcolon, Text.find_append_self [':', ' '], hlength]
  rfl

theorem find_blank {d : Char} (h : 'm' ≠ d) (s : List Char) :
    Text.find " messages]".toList (' ' :: d :: s) =
      (Text.find " messages]".toList (d :: s)).map (· + 1) := by
  rw [Text.find, if_neg]
  rw [ isPrefixOf_iff_prefix]
  simp only [String.reduceToList, cons_prefix_cons]
  exact fun heq => h heq.2.1

theorem find_word {hd : List Char} (h : ' ' ∉ hd) (s : List Char) :
    Text.find " messages]".toList (hd ++ s) =
      (Text.find " messages]".toList s).map (· + hd.length) := by
  simp only [String.reduceToList]
  exact Text.find_append_of_notMem h _ s

theorem find_messages (count : Nat) (content : List Char) :
    Text.find " messages]".toList (summaryOf count content) =
      some (16 + (toString count).toList.length) := by
  obtain ⟨d, ds, hdigits⟩ : ∃ d ds, (toString count).toList = d :: ds := by
    refine exists_cons_of_ne_nil ?_
    rw [Nat.toString_eq_ofList_toDigits, String.toList_ofList]
    exact Nat.toDigits_ne_nil
  have hd : d.isDigit := isDigit_of_mem_toString (hdigits ▸ mem_cons_self)
  have hm : 'm' ≠ d := by
    rintro rfl
    exact absurd hd (by decide)
  have hblank : ' ' ∉ d :: ds := hdigits ▸ notMem_toString (by decide)
  have hself : " messages] ".toList ++ content = " messages]".toList ++ (' ' :: content) := by
    simp
  have hhead : "[Queue summary: ".toList =
      "[Queue".toList ++ (' ' :: 's' :: ("ummary:".toList ++ [' '])) := by
    simp
  -- the two blanks of the head are followed by a letter and a digit
  unfold summaryOf
  rw [hself, hdigits, hhead, append_assoc, cons_append, cons_append,
    append_assoc, find_word (by simp), find_blank (by decide), ← cons_append,
    find_word (by simp), cons_append, nil_append, cons_append, find_blank hm,
    ← cons_append, find_word hblank, Text.find_append_self]
  simp
  omega

theorem find_content (count : Nat) (content : List Char) :
    (Text.find "] ".toList (summaryOf count content)).map (fun i =>
      (summaryOf count content).drop (i + 2)) = some content := by
  have hword : " messages] ".toList = " messages".toList ++ [']', ' '] := by
    simp
  have hsplit : summaryOf count content = ("[Queue summary: ".toList ++ ((toString count).toList ++
      " messages".toList)) ++ ([']', ' '] ++ content) := by
    unfold summaryOf
    rw [hword]
    simp only [append_assoc]
  have hbracket : ']' ∉ "[Queue summary: ".toList ++ ((toString count).toList ++
      " messages".toList) := by
    rw [mem_append, mem_append, not_or, not_or]
    exact ⟨by simp, notMem_toString (by decide), by simp⟩
  rw [hsplit, show "] ".toList = [']', ' '] by simp, Text.find_append_of_notMem hbracket,
    Text.find_append_self [']', ' ']]
  simp [drop_append]

theorem collapsedCount_summaryOf {count : Nat} (h : count ≤ 2147483647) (content : List Char) :
    collapsedCount (summaryOf count content) = count := by
  have hhead : "[Queue summary: ".toList.length = 16 := by simp
  have hsubstr : Text.substr (summaryOf count content) 16
      ((16 + (toString count).toList.length) - 16) = some (toString count).toList := by
    have hlen : 16 ≤ (summaryOf count content).length := by
      unfold summaryOf
      rw [length_append, hhead]
      exact Nat.le_add_right _ _
    rw [Text.substr, if_pos hlen]
    unfold summaryOf
    rw [Nat.add_sub_cancel_left, ← hhead, drop_left, take_left]
  rw [collapsedCount, if_pos (isPrefixOf_summaryOf count content), find_messages, find_count]
  simp only [Nat.le_add_right, if_true]
  rw [hsubstr, Option.bind_some, Text.stoi_toString h]
  rfl

theorem summaryText_summaryOf {count : Nat} (h : count ≤ 2147483647) (content second : List Char) :
    summaryText (summaryOf count content) second =
      summaryOf (count + 1) (content ++ (" | ".toList ++ second.take 150)) := by
  obtain ⟨i, hfind, hdrop⟩ := Option.map_eq_some_iff.1 (find_content count content)
  unfold summaryText
  rw [collapsedCount_summaryOf h, if_pos (isPrefixOf_summaryOf count content), hfind]
  dsimp only
  rw [hdrop]
  have hcount : toString ((count : Int) + 1) = toString (count + 1) := rfl
  rw [hcount]
  unfold summaryOf
  simp only [append_assoc]

theorem summaryText_message {oldest : List Char} (h : ¬ summaryHead.isPrefixOf oldest)
    (second : List Char) :
    summaryText oldest second =
      summaryOf 2 (oldest.take 150 ++ (" | ".toList ++ second.take 150)) := by
  unfold summaryText summaryOf
  rw [collapsedCount, if_neg h, if_neg h]
  simp only [append_assoc]
  rfl

/-- The text of an entry tells the messages it stands for: it is the message itself, or a summary
with their number in which the first 150 bytes of each of them occur. -/
def Recounts (text : List Char) (messages : List (List Char)) : Prop :=
  messages = [text] ∨ 2 ≤ messages.length ∧ ∃ content,
    text = summaryOf messages.length content ∧ ∀ m ∈ messages, m.take 150 <:+: content

variable {text : List Char} {messages : List (List Char)}

theorem Recounts.perm {messages' : List (List Char)}
    (h : Recounts text messages) (hperm : messages.Perm messages') : Recounts text messages' := by
  rcases h with rfl | ⟨htwo, content, htext, hall⟩
  · exact .inl (singleton_perm.1 hperm).symm
  · refine .inr ⟨hperm.length_eq ▸ htwo, content, hperm.length_eq ▸ htext, fun m hm => ?_⟩
    exact hall m (hperm.mem_iff.2 hm)

/-- Merging a message into an entry: one that stands for a single message must not look like a
summary, and the number of messages must stay in the range of `int`. -/
theorem Recounts.merge {second : List Char}
    (h : Recounts text messages)
    (hplain : messages.length = 1 → ¬ summaryHead.isPrefixOf text)
    (hcount : messages.length + 1 ≤ 2147483647) :
    Recounts (summaryText text second) (messages ++ [second]) := by
  refine .inr ?_
  rw [length_append, length_singleton]
  rcases h with rfl | ⟨htwo, content, rfl, hall⟩
  · refine ⟨le_rfl, _, summaryText_message (hplain rfl) second, fun m hm => ?_⟩
    rcases mem_append.1 hm with hm | hm
    · rw [mem_singleton.1 hm]
      exact ⟨[], " | ".toList ++ second.take 150, rfl⟩
    · rw [mem_singleton.1 hm]
      exact ⟨text.take 150 ++ " | ".toList, [], by simp⟩
  · refine ⟨Nat.le_succ_of_le htwo, _, summaryText_summaryOf (by omega) content second,
      fun m hm => ?_⟩
    rcases mem_append.1 hm with hm | hm
    · exact (hall m hm).trans ⟨[], " | ".toList ++ second.take 150, rfl⟩
    · rw [mem_singleton.1 hm]
      exact ⟨content ++ " | ".toList, [], by simp⟩

theorem Recounts.merge_all {merged : List (List Char)} (h : Recounts text messages)
    (hplain : merged ≠ [] → messages.length = 1 → ¬ summaryHead.isPrefixOf text)
    (hcount : merged ≠ [] → messages.length + merged.length ≤ 2147483647) :
    Recounts (merged.foldl summaryText text) (messages ++ merged) := by
  induction merged generalizing text messages with
  | nil =>
    rw [append_nil]
    exact h
  | cons second merged ih =>
    have hmany := hcount (cons_ne_nil _ _)
    rw [length_cons] at hmany
    have hone : Recounts (summaryText text second) (messages ++ [second]) :=
      h.merge (hplain (cons_ne_nil _ _)) (by omega)
    have hpos : 1 ≤ messages.length := by
      rcases h with rfl | ⟨htwo, -⟩
      · exact le_rfl
      · omega
    have hall := ih hone (fun _ hlen => by simp only [length_append, length_singleton] at hlen; omega)
      (fun _ => by rw [length_append, length_singleton]; omega)
    rwa [append_assoc] at hall

/-! ## The overflow loop -/

/-- The overflow loop of the source ends with this lane and these dropped ids:
`while (size > cap) { …; if (cap <= 0) break; }`. -/
inductive OverflowRun : SessionLane → SessionLane × List String → Prop
  | fits {lane : SessionLane} (h : lane.pending.length ≤ lane.cap) : OverflowRun lane (lane, [])
  | last {lane : SessionLane} (h : ¬ lane.pending.length ≤ lane.cap) (hcap : lane.cap ≤ 0) :
      OverflowRun lane lane.overflowTurn
  | turn {lane lane' : SessionLane} {ids : List String} (h : ¬ lane.pending.length ≤ lane.cap)
      (hcap : ¬ lane.cap ≤ 0) (hrest : OverflowRun lane.overflowTurn.1 (lane', ids)) :
      OverflowRun lane (lane', lane.overflowTurn.2 ++ ids)

variable {lane : SessionLane}

theorem OverflowRun.length_eq {result : SessionLane × List String}
    (h : OverflowRun lane result) (hcap : 1 ≤ lane.cap) :
    (result.1.pending.length : Int) = min (lane.pending.length : Int) lane.cap := by
  induction h with
  | fits hfits => exact (min_eq_left hfits).symm
  | last _ hzero => omega
  | @turn lane _ _ hlong _ _ ih =>
    have htwo : 1 < lane.pending.length := by omega
    obtain ⟨hsame, hlen⟩ := overflowTurn_length htwo
    rw [ih (hsame ▸ hcap), hsame]
    omega

theorem ids_applyCapOverflow (lane : SessionLane) :
    (lane.pending.map (·.id)).Perm
      (lane.applyCapOverflow.1.pending.map (·.id) ++ lane.applyCapOverflow.2) := by
  obtain ⟨pending, lost, hover, hperm⟩ := applyCapOverflow_spec lane
  rw [hover]
  have hids := hperm.map Request.id
  rw [requests, map_append, map_map, map_map] at hids
  exact hids

/-- How many messages the overflow merges under `summarize`. -/
def merges (lane : SessionLane) : Nat :=
  if lane.cap ≤ 0 then min 1 (lane.pending.length - 1) else lane.pending.length - lane.cap.toNat

/-- The front of a queue with the texts of others merged into it. -/
def mergeInto (front : QueuedCommand) (merged : List QueuedCommand) : QueuedCommand :=
  { front with message :=
      String.ofList ((merged.map (·.message.toList)).foldl summaryText front.message.toList) }

theorem mergeInto_nil (front : QueuedCommand) : mergeInto front [] = front := by
  rw [mergeInto, map_nil, foldl_nil, String.ofList_toList]

/-- Under `summarize`, the loop merges the commands behind the front into it, one after the
other. -/
theorem overflowLoop_summarize {fuel : Nat} {front : QueuedCommand}
    {rest : List QueuedCommand} (hdrop : lane.drop = .summarize) (hp : lane.pending = front :: rest) :
    ∃ merged kept, rest = merged ++ kept ∧ merged.length ≤ lane.merges ∧
      lane.overflowLoop fuel =
        ({ lane with pending := mergeInto front merged :: kept }, merged.map (·.id)) := by
  have hnone : ∃ merged kept, rest = merged ++ kept ∧ merged.length ≤ lane.merges ∧
      (lane, ([] : List String)) =
        ({ lane with pending := mergeInto front merged :: kept }, merged.map (·.id)) := by
    refine ⟨[], rest, rfl, Nat.zero_le _, ?_⟩
    rw [mergeInto_nil, ← hp]
    rfl
  induction fuel generalizing lane front rest with
  | zero => exact hnone
  | succ fuel ih =>
    rw [overflowLoop]
    split_ifs with hfits
    · exact hnone
    · cases rest with
      | nil =>
        have hturn : lane.overflowTurn = (lane, []) := by rw [overflowTurn, hdrop, hp]
        rw [hp] at hfits
        have hcap : lane.cap ≤ 0 := by
          simp only [length_cons, length_nil] at hfits
          omega
        rw [hturn]
        simp only [hcap, if_true]
        exact hnone
      | cons second rest =>
        have hturn : lane.overflowTurn =
            ({ lane with pending := mergeInto front [second] :: rest }, [second.id]) := by
          rw [overflowTurn, hdrop, hp]
          rfl
        rw [hturn]
        dsimp only
        split_ifs with hcap
        · refine ⟨[second], rest, rfl, ?_, rfl⟩
          rw [merges, if_pos hcap, hp]
          simp
        · obtain ⟨merged, kept, rfl, hlen, hloop⟩ :=
            @ih { lane with pending := mergeInto front [second] :: rest } (mergeInto front [second])
              rest hdrop rfl ⟨[], rest, rfl, Nat.zero_le _, by rw [mergeInto_nil]; rfl⟩
          rw [hloop]
          refine ⟨second :: merged, kept, rfl, ?_, ?_⟩
          · rw [merges, if_neg hcap] at hlen ⊢
            rw [hp] at hfits ⊢
            simp only [length_cons, length_append] at hfits hlen ⊢
            omega
          · simp [mergeInto]

theorem applyCapOverflow_summarize {front : QueuedCommand}
    {rest : List QueuedCommand} (hdrop : lane.drop = .summarize) (hp : lane.pending = front :: rest) :
    ∃ merged kept, rest = merged ++ kept ∧ merged.length ≤ lane.merges ∧
      lane.applyCapOverflow =
        ({ lane with pending := mergeInto front merged :: kept }, merged.map (·.id)) :=
  overflowLoop_summarize hdrop hp

theorem overflowLoop_pending_sublist (hdrop : lane.drop ≠ .summarize)
    (fuel : Nat) : (lane.overflowLoop fuel).1.pending.Sublist lane.pending := by
  induction fuel generalizing lane with
  | zero => exact .refl _
  | succ fuel ih =>
    have hturn : lane.overflowTurn.1.pending.Sublist lane.pending ∧
        lane.overflowTurn.1.drop = lane.drop := by
      obtain ⟨key, mode, debounceMs, cap, drop, pending, activeCommand⟩ := lane
      cases drop with
      | summarize => exact absurd rfl hdrop
      | dropOldest =>
        cases pending with
        | nil => exact ⟨.refl _, rfl⟩
        | cons front rest => exact ⟨sublist_cons_self _ _, rfl⟩
      | reject =>
        rcases eq_nil_or_concat pending with rfl | ⟨rest, back, rfl⟩
        · exact ⟨.refl _, rfl⟩
        · simp [overflowTurn]
    rw [overflowLoop]
    split_ifs
    · exact .refl _
    · dsimp only
      split_ifs
      · exact hturn.1
      · exact (ih (hturn.2 ▸ hdrop)).trans hturn.1

end SessionLane

end RavBot.Gateway
