import RavBot.Core.RequestMessages
import Mathlib.Data.List.Chain

/-!
# Calls and their answers

What a history says about tools are the ids of the calls and of the results in its messages.  A
history is `Paired` when every call of the assistant has its result in the next message and every
result answers a call in the message before.

A part of a paired history from some message on is paired exactly when that message has no
results (`Paired.drop_iff`).  System messages can be put in front of it and left out of it, as
long as they have no results themselves.
-/

open List

namespace RavBot.Core

def useIds (msg : Message) : List String := (msg.content.filter (·.isToolUse)).map (·.id)

def resultIds (msg : Message) : List String :=
  (msg.content.filter (·.isToolResult)).map (·.toolUseId)

/-- The calls of `x`, if the assistant makes them, have results in `y`, and the results in `y`
answer calls of `x`. -/
structure Answers (x y : Message) : Prop where
  calls : x.role = "assistant" → ∀ id ∈ useIds x, id ∈ resultIds y
  results : ∀ id ∈ resultIds y, x.role = "assistant" ∧ id ∈ useIds x

def StartsClean (history : List Message) : Prop :=
  ∀ first ∈ history.head?, resultIds first = []

/-- Every call of the assistant has its result in the next message, and every result answers a call
in the message before. -/
structure Paired (history : List Message) : Prop where
  linked : history.IsChain Answers
  first : StartsClean history
  last : ∀ last ∈ history.getLast?, last.role = "assistant" → useIds last = []

/-- Whether a message answers the one before can be computed. -/
instance (x y : Message) : Decidable (Answers x y) :=
  decidable_of_iff ((x.role = "assistant" → ∀ id ∈ useIds x, id ∈ resultIds y) ∧
      ∀ id ∈ resultIds y, x.role = "assistant" ∧ id ∈ useIds x)
    ⟨fun h => ⟨h.1, h.2⟩, fun h => ⟨h.calls, h.results⟩⟩

/-- Whether a history starts with results can be computed. -/
instance (history : List Message) : Decidable (StartsClean history) :=
  inferInstanceAs (Decidable (∀ first ∈ history.head?, resultIds first = []))

/-- Whether a history is paired can be computed. -/
instance (history : List Message) : Decidable (Paired history) :=
  decidable_of_iff (history.IsChain Answers ∧ StartsClean history ∧
      ∀ last ∈ history.getLast?, last.role = "assistant" → useIds last = [])
    ⟨fun h => ⟨h.1, h.2.1, h.2.2⟩, fun h => ⟨h.linked, h.first, h.last⟩⟩

def toolKey (msg : Message) : String × List String × List String :=
  (msg.role, useIds msg, resultIds msg)

/-- What is neither a call nor a result stands between the messages of other histories. -/
def blank : Message := ⟨"", [], ""⟩

theorem answers_blank {x : Message} : Answers x blank ↔ (x.role = "assistant" → useIds x = []) := by
  constructor
  · rintro ⟨hcalls, -⟩ hrole
    exact eq_nil_iff_forall_not_mem.2 fun id hid => not_mem_nil (hcalls hrole id hid)
  · intro h
    refine ⟨fun hrole id hid => ?_, fun id hid => absurd hid not_mem_nil⟩
    rw [h hrole] at hid
    exact absurd hid not_mem_nil

theorem answers_of_ne {x y : Message} (hx : x.role ≠ "assistant") :
    Answers x y ↔ resultIds y = [] := by
  constructor
  · rintro ⟨-, hresults⟩
    exact eq_nil_iff_forall_not_mem.2 fun id hid => hx (hresults id hid).1
  · intro h
    refine ⟨fun hrole => absurd hrole hx, fun id hid => ?_⟩
    rw [h] at hid
    exact absurd hid not_mem_nil

variable {history : List Message}

theorem paired_iff : Paired history ↔ (blank :: (history ++ [blank])).IsChain Answers := by
  have hfirst : (∀ y ∈ (history ++ [blank]).head?, Answers blank y) ↔ StartsClean history := by
    have hblank : blank.role ≠ "assistant" := by decide
    cases history with
    | nil => simp [StartsClean, (answers_of_ne hblank).2 (show resultIds blank = [] from rfl)]
    | cons m rest => simp [StartsClean, answers_of_ne hblank]
  rw [isChain_cons, hfirst, isChain_append]
  constructor
  · rintro ⟨hlinked, hfirst, hlast⟩
    refine ⟨hfirst, hlinked, isChain_singleton _, fun x hx y hy => ?_⟩
    cases hy
    exact answers_blank.2 (hlast x hx)
  · rintro ⟨hfirst, hlinked, -, hlast⟩
    exact ⟨hlinked, hfirst, fun x hx => answers_blank.1 (hlast x hx blank rfl)⟩

theorem paired_congr {history' : List Message}
    (h : history'.map toolKey = history.map toolKey) : Paired history' ↔ Paired history := by
  let linked (k k' : String × List String × List String) : Prop :=
    (k.1 = "assistant" → ∀ id ∈ k.2.1, id ∈ k'.2.2) ∧
      ∀ id ∈ k'.2.2, k.1 = "assistant" ∧ id ∈ k.2.1
  have hlinked (x y : Message) : Answers x y ↔ linked (toolKey x) (toolKey y) :=
    ⟨fun h => ⟨h.calls, h.results⟩, fun h => ⟨h.1, h.2⟩⟩
  have hchain (messages : List Message) :
      messages.IsChain Answers ↔ (messages.map toolKey).IsChain linked := by
    rw [isChain_map]
    exact List.IsChain.iff hlinked
  rw [paired_iff, paired_iff, hchain, hchain]
  simp only [map_cons, map_append, h]

theorem startsClean_congr {history' : List Message}
    (h : history'.map toolKey = history.map toolKey) :
    StartsClean history' ↔ StartsClean history := by
  have hkey (messages : List Message) :
      StartsClean messages ↔ ∀ k ∈ (messages.map toolKey).head?, k.2.2 = [] := by
    simp [StartsClean, toolKey]
  rw [hkey, hkey, h]

theorem Paired.drop_iff (h : Paired history) (n : Nat) :
    Paired (history.drop n) ↔ StartsClean (history.drop n) := by
  refine ⟨Paired.first, fun hfirst => ⟨h.linked.drop n, hfirst, fun last hlast => ?_⟩⟩
  rw [getLast?_drop] at hlast
  split_ifs at hlast with hn
  · cases hlast
  · exact h.last last hlast

/-! ## System messages -/

theorem paired_cons {msg : Message} (hrole : msg.role ≠ "assistant") (history : List Message) :
    Paired (msg :: history) ↔ resultIds msg = [] ∧ Paired history := by
  have hblank : blank.role ≠ "assistant" := by decide
  rw [paired_iff, paired_iff, cons_append, isChain_cons_cons, answers_of_ne hblank,
    isChain_cons, isChain_cons]
  refine and_congr_right fun _ => and_congr_left fun _ => forall₂_congr fun y _ => ?_
  rw [answers_of_ne hrole, answers_of_ne hblank]

theorem paired_systems_append {systems : List Message} (hsystems : ∀ s ∈ systems, s.isSystem)
    (history : List Message) :
    Paired (systems ++ history) ↔ (∀ s ∈ systems, resultIds s = []) ∧ Paired history := by
  induction systems with
  | nil => simp
  | cons s systems ih =>
    obtain ⟨hs, hsystems⟩ := forall_mem_cons.1 hsystems
    have hrole : s.role ≠ "assistant" := by
      rw [of_decide_eq_true hs]
      decide
    rw [cons_append, paired_cons hrole, ih hsystems, forall_mem_cons, and_assoc]

theorem isChain_filter {x : Message} {messages : List Message}
    (hclean : ∀ s ∈ messages, s.isSystem → resultIds s = [])
    (h : (x :: messages).IsChain Answers) :
    (x :: messages.filter (!·.isSystem)).IsChain Answers := by
  induction messages generalizing x with
  | nil => exact isChain_singleton x
  | cons y messages ih =>
    obtain ⟨hy, hclean⟩ := forall_mem_cons.1 hclean
    obtain ⟨hxy, h⟩ := isChain_cons_cons.1 h
    have hrest := ih hclean h
    cases hsystem : y.isSystem with
    | false =>
      rw [filter_cons_of_pos (by simp [hsystem])]
      exact isChain_cons_cons.2 ⟨hxy, hrest⟩
    | true =>
      -- `x` has no calls, as a system message without results comes next, and what follows
      -- that message has no results
      rw [filter_cons_of_neg (by simp [hsystem])]
      have hrole : y.role ≠ "assistant" := by
        rw [of_decide_eq_true hsystem]
        decide
      rw [isChain_cons] at hrest ⊢
      refine ⟨fun z hz => ?_, hrest.2⟩
      have hz := (answers_of_ne hrole).1 (hrest.1 z hz)
      refine ⟨fun hassistant id hid => ?_, fun id hid => ?_⟩
      · have hid' := hxy.calls hassistant id hid
        rw [hy hsystem] at hid'
        exact absurd hid' not_mem_nil
      · rw [hz] at hid
        exact absurd hid not_mem_nil

/-- A part of a paired history from some message on is paired without its system messages exactly
when it starts clean, if system messages have no results. -/
theorem Paired.filter_drop_iff (h : Paired history)
    (hclean : ∀ s ∈ history, s.isSystem → resultIds s = []) (n : Nat) :
    Paired ((history.drop n).filter (!·.isSystem)) ↔ StartsClean (history.drop n) := by
  constructor
  · rintro ⟨-, hfirst, -⟩ first hhead
    cases hsystem : first.isSystem with
    | true => exact hclean first (mem_of_mem_drop (mem_of_mem_head? hhead)) hsystem
    | false =>
      refine hfirst first ?_
      obtain ⟨rest, hrest⟩ := head?_eq_some_iff.1 hhead
      rw [hrest, filter_cons_of_pos (by simp [hsystem])]
      rfl
  · intro hfirst
    have hchain := paired_iff.1 ((h.drop_iff n).2 hfirst)
    have hclean' : ∀ s ∈ history.drop n ++ [blank], s.isSystem → resultIds s = [] := by
      intro s hs hsystem
      rcases mem_append.1 hs with hs | hs
      · exact hclean s (mem_of_mem_drop hs) hsystem
      · rw [mem_singleton.1 hs] at hsystem
        exact absurd hsystem (by decide)
    have hfilter := isChain_filter hclean' hchain
    rw [filter_append] at hfilter
    exact paired_iff.2 hfilter

end RavBot.Core
