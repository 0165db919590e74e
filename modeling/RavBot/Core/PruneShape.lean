import RavBot.Core.Shrinking
import Mathlib.Data.List.Basic

/-!
# What pruning leaves of a conversation

`Prune` rewrites the results of old tool calls and nothing else.  Which messages are old is read off
the list of the places of the assistant messages, counted from its end; the counts are those of the
options, or smaller ones when the history is over the budget.

A count of zero makes it read the place behind the last one (`readsInRange_iff`).  As long as that
does not happen, the conversation keeps its shape, and what it protects is untouched
(`prune_keepsShape`).
-/

open List

namespace RavBot.Core.ContextPruner

open RavBot.Lib

/-! ## The reads -/

/-- The places at which `Prune` reads `assistant_indices`. -/
def thresholdReads (history : List Message) (opts : Options) : List Nat :=
  let count := (indicesOf "assistant" history).length
  ([opts.protectRecent, opts.hardPruneAfter].filter (· < count)).map (count - ·)

/-- `Prune` reads `assistant_indices` where it has items. -/
def ReadsInRange (history : List Message) (opts : Options) : Prop :=
  ∀ read ∈ thresholdReads history opts, read < (indicesOf "assistant" history).length

instance (history : List Message) (opts : Options) : Decidable (ReadsInRange history opts) :=
  inferInstanceAs (Decidable (∀ read ∈ thresholdReads history opts, _))

theorem readsInRange_iff (history : List Message) (opts : Options) :
    ReadsInRange history opts ↔
      (∀ msg ∈ history, msg.role ≠ "assistant") ∨ 0 < opts.protectRecent ∧ 0 < opts.hardPruneAfter := by
  have hnone : (∀ msg ∈ history, msg.role ≠ "assistant") ↔
      (indicesOf "assistant" history).length = 0 := by
    rw [length_eq_zero_iff, indicesOf, findIdxs_eq_nil_iff]
    simp only [decide_eq_false_iff_not, ne_eq]
  rw [hnone, ReadsInRange, thresholdReads]
  simp only [forall_mem_map, mem_filter, mem_cons, not_mem_nil, or_false,
    decide_eq_true_eq, and_imp, forall_eq_or_imp, forall_eq]
  omega

/-! ## The shape -/

/-- Two conversations have the same messages up to what the results of tool calls say. -/
structure SameShape (history pruned : List Message) : Prop where
  length : pruned.length = history.length
  roles : pruned.map (·.role) = history.map (·.role)
  others : pruned.map (·.content.map fun b => if b.isToolResult then none else some b) =
    history.map (·.content.map fun b => if b.isToolResult then none else some b)
  toolUseIds : pruned.flatMap (·.content.map (·.toolUseId)) =
    history.flatMap (·.content.map (·.toolUseId))

/-- A pruned conversation has its shape, and neither its start nor its last `protect` assistant
messages, with what follows them, are touched. -/
structure KeepsShape (history pruned : List Message) (protect : Nat) : Prop
    extends SameShape history pruned where
  start : ∀ user, history.findIdx? (·.role = "user") = some user →
    ∀ i ≤ user, pruned[i]? = history[i]?
  recent : ∀ i, (history.drop (i + 1)).countP (·.role = "assistant") < protect →
    pruned[i]? = history[i]?

theorem pruneBlock_shape (opts : Options) (hard : Bool) (b : ContentBlock) :
    (pruneBlock opts hard b).toolUseId = b.toolUseId ∧
      (if (pruneBlock opts hard b).isToolResult then none else some (pruneBlock opts hard b)) =
        if b.isToolResult then none else some b := by
  have hspec := pruneBlock_spec opts hard b
  rw [hspec.2.1]
  cases hresult : b.isToolResult with
  | true => exact ⟨hspec.2.2.2.1 hresult, rfl⟩
  | false =>
    have hsame : pruneBlock opts hard b = b := by
      rw [pruneBlock, hresult]
      rfl
    rw [hsame]
    exact ⟨rfl, rfl⟩

theorem pruneMessage_shape (opts : Options) (history : List Message) (i : Nat) (msg : Message) :
    (pruneMessage opts history i msg).role = msg.role ∧
      (pruneMessage opts history i msg).content.map (·.toolUseId) =
        msg.content.map (·.toolUseId) ∧
      ((pruneMessage opts history i msg).content.map fun b =>
        if b.isToolResult then none else some b) =
        msg.content.map fun b => if b.isToolResult then none else some b := by
  rw [pruneMessage]
  cases threshold history opts.protectRecent with
  | none => exact ⟨rfl, rfl, rfl⟩
  | some protect =>
    dsimp only
    split_ifs
    · exact ⟨rfl, rfl, rfl⟩
    · refine ⟨rfl, ?_, ?_⟩
      · rw [map_map]
        exact map_congr_left fun b _ => (pruneBlock_shape opts _ b).1
      · rw [map_map]
        exact map_congr_left fun b _ => (pruneBlock_shape opts _ b).2

theorem map_mapIdx_eq {α β : Type} {f : Nat → α → α} {key : α → β} (l : List α)
    (h : ∀ i a, key (f i a) = key a) : (l.mapIdx f).map key = l.map key := by
  refine ext_getElem? fun i => ?_
  rw [getElem?_map, getElem?_mapIdx, getElem?_map, Option.map_map]
  congr 1
  funext a
  exact h i a

theorem sameShape_mapIdx (opts : Options) (history : List Message) :
    SameShape history (history.mapIdx (pruneMessage opts history)) where
  length := length_mapIdx
  roles := map_mapIdx_eq history fun i msg => (pruneMessage_shape opts history i msg).1
  others := map_mapIdx_eq history fun i msg => (pruneMessage_shape opts history i msg).2.2
  toolUseIds := by
    rw [flatMap_def, flatMap_def]
    rw [map_mapIdx_eq history fun i msg => (pruneMessage_shape opts history i msg).2.1]

/-! ## What is protected -/

theorem le_countP_drop {α : Type} {p : α → Bool} {l : List α} {k i place : Nat}
    (h : (l.findIdxs p)[(l.findIdxs p).length - k]? = some place) (hlt : i < place)
    (hk : k ≤ (l.findIdxs p).length) : k ≤ (l.drop (i + 1)).countP p := by
  have hsplit : l.findIdxs p =
      (l.take (i + 1)).findIdxs p ++ (l.drop (i + 1)).findIdxs p (l.take (i + 1)).length := by
    conv_lhs => rw [← take_append_drop (i + 1) l, findIdxs_append, Nat.zero_add]
  have hbehind : (l.findIdxs p).length =
      ((l.take (i + 1)).findIdxs p).length + (l.drop (i + 1)).countP p := by
    rw [hsplit, length_append]
    congr 1
    exact length_findIdxs
  by_contra hfew
  -- the hit is one of the first part, whose places are at most `i`
  have hfirst : ((l.take (i + 1)).findIdxs p)[(l.findIdxs p).length - k]? = some place := by
    have hplace : (l.findIdxs p).length - k < ((l.take (i + 1)).findIdxs p).length := by omega
    calc ((l.take (i + 1)).findIdxs p)[(l.findIdxs p).length - k]?
        = ((l.take (i + 1)).findIdxs p ++
            (l.drop (i + 1)).findIdxs p (l.take (i + 1)).length)[(l.findIdxs p).length - k]? :=
          (getElem?_append_left hplace).symm
      _ = some place := by rw [← hsplit, h]
  have hplace := lt_add_of_mem_findIdxs place (mem_of_getElem? hfirst)
  rw [length_take] at hplace
  omega

theorem head?_indicesOf (role : String) (history : List Message) :
    (indicesOf role history).head? = history.findIdx? (·.role = role) := by
  cases hfind : history.findIdx? (·.role = role) with
  | none =>
    rw [head?_eq_none_iff, indicesOf, findIdxs_eq_nil_iff]
    exact findIdx?_eq_none_iff.1 hfind
  | some place =>
    obtain ⟨hlt, heq⟩ := findIdx?_eq_some_iff_findIdx_eq.1 hfind
    have hmem : place ∈ indicesOf role history := by
      rw [← heq]
      exact findIdx_mem_findIdxs (heq ▸ hlt)
    have hpos : 0 < (indicesOf role history).length := length_pos_of_mem hmem
    rw [head?_eq_getElem?, getElem?_eq_getElem hpos, ← heq]
    exact congrArg some (getElem_zero_findIdxs_eq_findIdx hpos)

theorem pruneMessage_eq_self {opts : Options} {history : List Message} {i : Nat} (msg : Message)
    (h : (history.findIdx? (·.role = "user")).any (i ≤ ·) ∨
      (history.drop (i + 1)).countP (·.role = "assistant") < opts.protectRecent) :
    pruneMessage opts history i msg = msg := by
  rw [pruneMessage, head?_indicesOf]
  cases hthreshold : threshold history opts.protectRecent with
  | none => rfl
  | some protect =>
    dsimp only
    rw [if_pos]
    rw [threshold] at hthreshold
    split_ifs at hthreshold with hmany
    rcases h with hstart | hrecent
    · simp [hstart]
    · have hle : protect ≤ i := by
        by_contra hbefore
        exact absurd (le_countP_drop hthreshold (Nat.lt_of_not_le hbefore) hmany.le)
          (Nat.not_le_of_lt hrecent)
      simp [hle]

variable {dumpSize : Json → Nat}

theorem prune_eq_mapIdx {history pruned : List Message} {opts effective : Options}
    (heffective : effectiveOptions dumpSize history opts = some effective)
    (h : prune dumpSize history opts = some pruned) :
    pruned = history.mapIdx (pruneMessage effective history) := by
  rw [prune, heffective] at h
  split_ifs at h with hempty
  · rw [List.isEmpty_iff.1 hempty] at h ⊢
    cases h
    rfl
  · cases h
    rfl

/-- **Pruning keeps the shape of a conversation.**  The counts are those that the pruning works
with: the ones of the options, scaled down when the history is over the budget. -/
theorem prune_keepsShape {history pruned : List Message} {opts effective : Options}
    (heffective : effectiveOptions dumpSize history opts = some effective)
    (hpos : (∀ msg ∈ history, msg.role ≠ "assistant") ∨
      0 < effective.protectRecent ∧ 0 < effective.hardPruneAfter)
    (h : prune dumpSize history opts = some pruned) :
    ReadsInRange history effective ∧ KeepsShape history pruned effective.protectRecent := by
  refine ⟨(readsInRange_iff history effective).2 hpos, ?_⟩
  have hpruned := prune_eq_mapIdx heffective h
  subst hpruned
  have hsame {i : Nat} (hkept : ∀ msg, pruneMessage effective history i msg = msg) :
      (history.mapIdx (pruneMessage effective history))[i]? = history[i]? := by
    rw [getElem?_mapIdx]
    cases history[i]? with
    | none => rfl
    | some msg => exact congrArg some (hkept msg)
  refine ⟨sameShape_mapIdx effective history, fun user huser i hle => ?_, fun i hrecent => ?_⟩
  · exact hsame fun msg => pruneMessage_eq_self msg (.inl (by simp [huser, hle]))
  · exact hsame fun msg => pruneMessage_eq_self msg (.inr hrecent)

/-- A tool call with its result, and three more replies. -/
def fourReplies : List Message :=
  [.ofText "user" "Hi.",
    { role := "assistant", content := [.makeToolUse "a" "read" .null] },
    { role := "user", content := [.makeToolResult "a" "1"] },
    .ofText "assistant" "1", .ofText "assistant" "2", .ofText "assistant" "3"]

/-- With the options as they are by default, nothing of it is protected but the last three
replies. -/
theorem fourReplies_keepsShape :
    ∃ pruned ∈ prune (fun _ => 0) fourReplies {},
      ReadsInRange fourReplies {} ∧ KeepsShape fourReplies pruned 3 := by
  have heffective : effectiveOptions (fun _ => 0) fourReplies {} = some {} := by
    rw [effectiveOptions]
    exact if_neg (by decide)
  have hdump : Dumpable fourReplies := by
    unfold Dumpable
    decide +kernel
  obtain ⟨pruned, hpruned⟩ := Option.isSome_iff_exists.1 (isSome_prune (fun _ => 0) {} hdump)
  exact ⟨pruned, hpruned, prune_keepsShape heffective (.inr ⟨by decide, by decide⟩) hpruned⟩

/-- Over the budget, fewer replies are protected than the options say; and a count of zero is read
behind the end of the list. -/
theorem not_prune_keepsShape :
    (∃ pruned ∈ prune (fun _ => 0) fourReplies
        { protectRecent := 4, contextWindow := 4, maxTokens := 0 },
      ¬ KeepsShape fourReplies pruned 4) ∧
    ¬ ReadsInRange fourReplies { protectRecent := 0 } := by
  refine ⟨?_, by decide⟩
  have hsizes : (prune (fun _ => 0) fourReplies
      { protectRecent := 4, contextWindow := 4, maxTokens := 0 }).map
        (·[2]?.map (·.content.map (·.content.length))) = some (some [39]) := by
    decide +kernel
  obtain ⟨pruned, hpruned, hsize⟩ := Option.map_eq_some_iff.1 hsizes
  refine ⟨pruned, hpruned, fun hkeeps => ?_⟩
  rw [hkeeps.recent 2 (by decide)] at hsize
  exact absurd hsize (by decide +kernel)

end RavBot.Core.ContextPruner
