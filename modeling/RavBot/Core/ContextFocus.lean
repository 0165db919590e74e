import RavBot.Core.RequestMessages

/-!
# The focus of the context

Before a request the history is narrowed to its latest turn, and left out when the new message of
the user has nothing to do with that turn.  Two texts are compared by their salient tokens: words
in ASCII, and pairs and triples of CJK characters that follow each other, each with a weight.
-/

namespace RavBot.Core

open RavBot.Lib

/-! ## Salient tokens -/

/-- `utf8_to_u32`: no characters when the text is not UTF-8. -/
def utf8ToU32 (text : String) : List Char :=
  if Text.validUtf8 text then Text.codepointsFrom 0 0 text.toList else []

def isCjkCodepoint (cp : Char) : Bool :=
  (0x3400 ≤ cp.toNat && cp.toNat ≤ 0x4DBF) || (0x4E00 ≤ cp.toNat && cp.toNat ≤ 0x9FFF) ||
    (0xF900 ≤ cp.toNat && cp.toNat ≤ 0xFAFF)

def isAsciiTokenChar (cp : Char) : Bool :=
  cp.toNat ≤ 0x7F && (cp.isAlphanum || "_-./:#".toList.contains cp)

def isLatinStopword (token : List Char) : Bool :=
  ["a", "an", "and", "are", "be", "but", "can", "check", "find", "for", "from", "help", "how",
    "i", "in", "into", "is", "it", "look", "me", "more", "need", "of", "on", "or", "please",
    "read", "search", "show", "tell", "that", "the", "this", "to", "up", "want", "what", "with",
    "you"].any (·.toList = token)

def isGenericCjkToken (token : List Char) : Bool :=
  token.isEmpty ||
    ["一个", "一下", "什么", "今天", "可以", "帮我", "帮忙", "现在", "相关", "需要"].any
      (·.toList = token) ||
    token.any fun cp =>
      ("的了吗呢吧啊我你他她它们是在有和与及并或就都很太也再还把被让给从向到将会能可要想来去说问做".toList).contains
        cp

structure SalientTokenStats where
  weights : List (List Char × Nat) := []
  anchorTokens : List (List Char) := []
  totalWeight : Nat := 0

/-- `add_salient_token`. -/
def SalientTokenStats.add (stats : SalientTokenStats) (token : List Char) (weight : Nat)
    (anchor : Bool) : SalientTokenStats :=
  if token.isEmpty || weight = 0 then stats
  else
    let stats :=
      if stats.weights.any (·.1 = token) then stats
      else { stats with
        weights := stats.weights ++ [(token, weight)]
        totalWeight := stats.totalWeight + weight }
    if anchor then { stats with anchorTokens := token :: stats.anchorTokens } else stats

def flushAscii (stats : SalientTokenStats) (run : List Char) : SalientTokenStats :=
  let token := Text.toLower run
  let hasSymbol := token.any ("0123456789/._-:#".toList.contains ·)
  if (3 ≤ token.length || hasSymbol) && !isLatinStopword token then
    let long := hasSymbol || 5 ≤ token.length
    stats.add token (if long then 3 else 2) long
  else stats

def flushCjk (stats : SalientTokenStats) (run : List Char) : SalientTokenStats :=
  let windows (window : Nat) : List (List Char) :=
    (List.range (run.length + 1 - window)).map fun i => (run.drop i).take window
  let flushed (window : Nat) (stats : SalientTokenStats) : SalientTokenStats :=
    (windows window).foldl (fun stats token =>
      if isGenericCjkToken token then stats
      else stats.add (token.flatMap Text.utf8Bytes) (if 3 ≤ window then 2 else 1) (3 ≤ window))
      stats
  if run.length < 2 then stats
  else if run.length < 3 then flushed 2 stats
  else flushed 3 (flushed 2 stats)

/-- The loop of `extract_salient_tokens`, with the runs that have begun. -/
def salientTokensFrom (stats : SalientTokenStats) (asciiRun cjkRun : List Char) :
    List Char → SalientTokenStats
  | [] => flushCjk (flushAscii stats asciiRun) cjkRun
  | cp :: rest =>
    if isAsciiTokenChar cp then
      salientTokensFrom (flushCjk stats cjkRun) (asciiRun ++ [cp]) [] rest
    else if isCjkCodepoint cp then
      salientTokensFrom (flushAscii stats asciiRun) [] (cjkRun ++ [cp]) rest
    else salientTokensFrom (flushCjk (flushAscii stats asciiRun) cjkRun) [] [] rest

def extractSalientTokens (text : String) : SalientTokenStats :=
  salientTokensFrom {} [] [] (utf8ToU32 text)

/-! ## The latest turn -/

def looksLikeFollowUpMessage (text : String) : Bool :=
  let lower := Text.toLower text.toList
  (["based on that", "continue", "elaborate", "expand on", "go on", "more detail",
      "tell me more", "what else"].map String.toList ++
    ["上面", "前面", "刚才", "再详细", "展开", "接着", "接着说", "继续", "继续说", "详细一点",
      "详细一些", "补充", "进一步"].map Text.ofUtf8).any fun marker =>
    (Text.find marker lower).isSome

def collectMessageText (msg : Message) : String :=
  msg.content.foldl (fun text b =>
    if b.isToolResult && b.content ≠ "" then
      (if text = "" then text else text ++ "\n") ++ String.ofList (b.content.toList.take 200)
    else text) msg.text

def collectTurnText (turn : List Message) : String :=
  turn.foldl (fun combined msg =>
    let text := collectMessageText msg
    if text = "" then combined
    else (if combined = "" then combined else combined ++ "\n") ++ text) ""

def latestMessageRelatesToRecentTurn (latestUserText recentTurnText : String) : Bool :=
  let latest := extractSalientTokens latestUserText
  let recent := extractSalientTokens recentTurnText
  let recentLower := Text.toLower recentTurnText.toList
  let asciiAnchors := latest.anchorTokens.filter fun token => token.all (·.toNat ≤ 0x7F)
  let matched := latest.weights.filter fun (token, _) => recent.weights.any (·.1 = token)
  let matchedWeight := (matched.map (·.2)).sum
  let matchedAnchor := latest.anchorTokens.isEmpty ||
    matched.any fun (token, _) => latest.anchorTokens.contains token
  if latest.totalWeight = 0 || recent.weights.isEmpty then false
  else if !asciiAnchors.isEmpty && !asciiAnchors.any fun token => (Text.find token recentLower).isSome
  then false
  else if !matchedAnchor || matchedWeight = 0 then false
  else 0.25 ≤ Float.ofNat matchedWeight / Float.ofNat latest.totalWeight

def lastUserTurn (history : List Message) : Option Nat :=
  (history.findIdxs hasNonToolResultBlocks).getLast?

/-- Where the part of the history starts that is kept when the latest turn starts at `turn`. -/
def sliceStart (history : List Message) (turn : Nat) : Nat :=
  if turn = history.length - 1 ∧ 0 < turn ∧ (history[turn]?.any (·.role = "user")) ∧
      (history[turn - 1]?.any (·.role = "assistant")) then turn - 1
  else turn

def keepRecentTurn (history : List Message) (turn : Nat) (latestUserText : String) : Bool :=
  looksLikeFollowUpMessage latestUserText ||
    latestMessageRelatesToRecentTurn latestUserText (collectTurnText (history.drop turn))

def focusHistoryOnLatestTurn (history : List Message) (latestUserText : String) : List Message :=
  match lastUserTurn history with
  | none => history
  | some turn =>
    if keepRecentTurn history turn latestUserText then history.drop (sliceStart history turn)
    else []

end RavBot.Core
