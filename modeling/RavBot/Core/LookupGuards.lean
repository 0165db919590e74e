import RavBot.Core.RequestMessages

/-!
# The lookup guards

`ProcessMessage` does not take every text of a provider for an answer.  When the user wants
something looked up and the provider only announces a search, or says that it found nothing, it
has to try again, and so it has when it returns the results of a web search as they are.
-/

namespace RavBot.Core

open RavBot.Lib

def hasMarker (markers : List (List Char)) (text : List Char) : Bool :=
  markers.any fun marker => (Text.find marker text).isSome

def hasLookupIntent (text : String) : Bool :=
  hasMarker (["search", "look up", "lookup", "find ", "find on", "research", "browse",
      "github search", "search github"].map String.toList) (Text.toLower text.toList) ||
    hasMarker (["搜索", "查找", "帮我找", "帮我搜", "查一下", "搜一下", "检索", "研究一下", "查查",
      "找一下"].map Text.ofUtf8) text.toList

def responseLooksLikeUnfulfilledLookupPreamble (text : String) : Bool :=
  let lower := Text.toLower text.toList
  let hasUrl := hasMarker (["http://", "https://", "github.com"].map String.toList) lower
  let hasList := hasMarker (["\n1.", "\n- ", "\n•"].map Text.ofUtf8) text.toList
  if text = "" || hasUrl || hasList then false
  else
    hasMarker (["let me search", "i'll search", "i will search", "let me look that up",
        "i'll look that up", "based on the search results", "let me get more detail",
        "let me gather more detail"].map String.toList) lower ||
      hasMarker (["根据搜索结果", "让我为你获取更详细的信息", "让我帮你查找", "让我帮你搜索",
        "我来帮你搜索", "我来帮你查找", "让我继续查", "让我获取更详细的信息", "我来搜索", "让我搜索",
        "我将搜索", "让我通过"].map Text.ofUtf8) text.toList

def responseContainsNegativeConclusion (text : String) : Bool :=
  hasMarker (["没有找到", "没找到", "未找到", "不存在", "没有专门", "没有集中", "还没有形成",
    "没有公开", "目前没有", "暂时没有", "not found", "no results", "doesn't exist", "not available",
    "no public", "currently no"].map Text.ofUtf8) text.toList

/-- The loop of `count_substring_occurrences`: from left to right, without overlaps, at most as many
rounds as the text has bytes. -/
def countFrom (needle : List Char) : Nat → List Char → Nat
  | 0, _ => 0
  | fuel + 1, text =>
    match Text.find needle text with
    | some pos => countFrom needle fuel (text.drop (pos + needle.length)) + 1
    | none => 0

def countSubstringOccurrences (text needle : List Char) : Nat :=
  if needle = [] then 0 else countFrom needle text.length text

def responseLooksLikeRawSearchResultsDump (text : String) : Bool :=
  let lower := Text.toLower text.toList
  let hasPreface :=
    hasMarker (["here are the search results for", "search results for"].map String.toList) lower ||
      hasMarker (["以下是搜索结果", "以下是 \""].map Text.ofUtf8) text.toList
  let hasDisclaimer :=
    hasMarker ["may not be fully accurate or up-to-date".toList] lower ||
      hasMarker [Text.ofUtf8 "可能不完全准确"] text.toList
  let hasNumberedList := hasMarker ["\n1.".toList, "\n1. **".toList] text.toList
  let sourceCount := countSubstringOccurrences text.toList "Source: ".toList +
    countSubstringOccurrences text.toList (Text.ofUtf8 "来源：")
  text ≠ "" && ((hasPreface && hasNumberedList && 2 ≤ sourceCount) ||
    (hasDisclaimer && 2 ≤ sourceCount))

/-- The user message with which the first guard makes the provider try again. -/
def lookupCorrection : String :=
  String.ofList (Text.ofUtf8 ("STOP. You MUST actually call the search tool. Here's an example:\n\n" ++
    "User: \"Search GitHub for Python projects\"\n" ++
    "WRONG: \"Let me search... I didn't find any results.\"\n" ++
    "CORRECT: [calls github_search_repos tool with query=\"python\"] → returns actual results\n\n" ++
    "Now YOU must call github_search_repos or web_search tool RIGHT NOW. " ++
    "DO NOT respond with text. ONLY call the tool."))

/-- The user message with which the second guard does. -/
def synthesisCorrection : String :=
  "Do not perform another web search and do not return a raw " ++
    "\"search results\" list. Use only the existing web_search " ++
    "tool results already in this conversation. Synthesize the " ++
    "most relevant matches, explain why they fit the user's " ++
    "request, and keep the answer concise."

end RavBot.Core
