import RavBot.Core.RequestMessages

/-!
# The context pruner

`ContextPruner` makes a history smaller.  `Prune` shortens the results of old tool calls and
leaves every message where it is; `Compress` also removes the oldest messages when that is not
enough.  Sizes are estimated from the number of bytes, with the dumped arguments of the tool
calls; how many bytes a dump has is a parameter.
-/

namespace RavBot.Core

open RavBot.Lib

/-- `static_cast<int>` of a double. -/
def truncToInt (x : Float) : Int := if x < 0 then -(-x).toUInt64.toNat else x.toUInt64.toNat

namespace ContextPruner

structure Options where
  protectRecent : Nat := 3
  softPruneLines : Nat := 5
  hardPruneAfter : Nat := 10
  maxToolResultChars : Nat := 2000
  contextWindow : Int := 0
  maxTokens : Int := 8192
  pruneTargetRatio : Float := 0.75

structure CompressionStrategy where
  preserveRecent : Bool := true
  preserveToolCalls : Bool := true
  preserveSystem : Bool := true
  minMessages : Int := 5

/-! ## Estimates -/

section Estimates

variable (dumpSize : Json → Nat)

/-- The number of bytes of a block.  `none` when its arguments cannot be dumped. -/
def blockChars (b : ContentBlock) : Option Nat :=
  if b.input.isNull then some (b.text.length + b.content.length)
  else (b.input.dump).map fun j => b.text.length + b.content.length + dumpSize j

def messageChars (msg : Message) : Option Nat :=
  (msg.content.mapM (blockChars dumpSize)).map fun sizes => msg.role.length + sizes.sum

def estimateTokens (messages : List Message) : Option Nat :=
  (messages.mapM (messageChars dumpSize)).map fun sizes => (sizes.map (· / 4)).sum

end Estimates

/-! ## Pruning -/

def softPrune (content : String) (keepLines : Nat) : String :=
  let lines := Text.lines content.toList
  let total := lines.length
  if total ≤ keepLines * 2 then content
  else
    let head := (lines.take keepLines).flatMap (· ++ ['\n'])
    let omitted := toString (total - keepLines * 2)
    let notice := Text.ofUtf8 "\n⚠ [Content truncated — original was " ++
      (toString content.length).toList ++
      " chars. Use offset/limit params to read specific sections.]\n... [".toList ++
      omitted.toList ++ " lines omitted] ...\n\n".toList
    String.ofList (head ++ notice ++ ['\n'].intercalate (lines.drop (total - keepLines)))

/-- What `Prune` puts in the place of a result that is too old. -/
def omittedResult : String := String.ofList (Text.ofUtf8 "[Tool result omitted — older context]")

/-- The thresholds that `Prune` works with: those of the options, scaled down when the history
is over the budget that the options set. -/
def effectiveOptions (dumpSize : Json → Nat) (history : List Message) (opts : Options) :
    Option Options :=
  if 0 < opts.contextWindow then
    let budget := truncToInt (Float.ofInt opts.contextWindow * opts.pruneTargetRatio) -
      opts.maxTokens
    if 0 < budget then do
      let currentTokens ← estimateTokens dumpSize history
      if budget < currentTokens then
        let overRatio := Float.ofNat currentTokens / Float.ofInt budget
        let scaled (least n : Nat) : Nat :=
          max least (truncToInt (Float.ofNat n / overRatio)).toNat
        return { opts with
          maxToolResultChars := scaled 200 opts.maxToolResultChars
          protectRecent := scaled 1 opts.protectRecent
          hardPruneAfter := scaled 3 opts.hardPruneAfter }
      else return opts
    else some opts
  else some opts

def indicesOf (role : String) (history : List Message) : List Nat :=
  history.findIdxs (·.role = role)

/-- The place of the assistant message that is the `recent`-th from the end, when there are more
than that many.  With a count of zero the source reads behind the end of the list; there is no such
place. -/
def threshold (history : List Message) (recent : Nat) : Option Nat :=
  let indices := indicesOf "assistant" history
  if recent < indices.length then indices[indices.length - recent]? else none

/-- What `Prune` makes of a block of a message that it prunes. -/
def pruneBlock (opts : Options) (hard : Bool) (b : ContentBlock) : ContentBlock :=
  if !b.isToolResult then b
  else if hard then .makeToolResult b.toolUseId omittedResult
  else if opts.maxToolResultChars < b.content.length then
    .makeToolResult b.toolUseId (softPrune b.content opts.softPruneLines)
  else b

/-- What `Prune` makes of the `i`-th message. -/
def pruneMessage (opts : Options) (history : List Message) (i : Nat) (msg : Message) : Message :=
  let hasToolResult := msg.content.any (·.isToolResult)
  let bootstrap := (indicesOf "user" history).head?.any (i ≤ ·)
  match threshold history opts.protectRecent with
  | none => msg
  | some protect =>
    if !hasToolResult || protect ≤ i || bootstrap then msg
    else
      let hard := (threshold history opts.hardPruneAfter).any (i < ·)
      { role := msg.role, content := msg.content.map (pruneBlock opts hard) }

def prune (dumpSize : Json → Nat) (history : List Message) (opts : Options) :
    Option (List Message) :=
  if history.isEmpty then some history
  else (effectiveOptions dumpSize history opts).map fun effective =>
    history.mapIdx (pruneMessage effective history)

/-! ## Compression -/

/-- The options with which `Compress` prunes. -/
def compressOptions (targetTokens : Int) (reductionRatio : Float) (strategy : CompressionStrategy) :
    Options :=
  let scaled (least n : Nat) : Nat :=
    max least (truncToInt (Float.ofNat n * reductionRatio)).toNat
  { protectRecent := if strategy.preserveRecent then scaled 3 5 else 1
    maxToolResultChars := if strategy.preserveToolCalls then scaled 500 2000 else 200
    softPruneLines := if strategy.preserveToolCalls then 5 else 2
    hardPruneAfter := scaled 5 10
    contextWindow := targetTokens * 4
    maxTokens := 0
    pruneTargetRatio := 1.0 }

/-- Keep the last `keep` messages, and all system messages if `preserveSystem` says so. -/
def keepRecent (preserveSystem : Bool) (keep : Int) (messages : List Message) : List Message :=
  let recent := messages.drop (messages.length - keep).toNat
  if preserveSystem then messages.filter (·.isSystem) ++ recent.filter (!·.isSystem) else recent

/-- How many messages `Compress` keeps when it removes some. -/
def keptMessages (count : Nat) (reductionRatio : Float) (strategy : CompressionStrategy) : Int :=
  max strategy.minMessages (truncToInt (Float.ofNat count * reductionRatio))

def compress (dumpSize : Json → Nat) (messages : List Message) (targetTokens : Int)
    (strategy : CompressionStrategy := {}) : Option (List Message) :=
  if messages.isEmpty then some messages
  else do
    let currentTokens ← estimateTokens dumpSize messages
    if currentTokens ≤ targetTokens then return messages
    else
      let reductionRatio := Float.ofInt targetTokens / Float.ofNat currentTokens
      let result ← prune dumpSize messages (compressOptions targetTokens reductionRatio strategy)
      let resultTokens ← estimateTokens dumpSize result
      if targetTokens < resultTokens ∧ strategy.minMessages < result.length then
        return keepRecent strategy.preserveSystem
          (keptMessages result.length reductionRatio strategy) result
      else return result

end ContextPruner

end RavBot.Core
