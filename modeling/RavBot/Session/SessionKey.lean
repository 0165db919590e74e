import RavBot.Lib.Text

/-!
# Session keys

A session key in the format of OpenClaw is `agent:<agentId>:<rest>`.
`NormalizeSessionKey` brings any key into this format: it trims it, keeps it if it parses,
and otherwise wraps it as the rest of a key of the default agent.

`ParseAgentSessionKey` splits a key at its colons and joins what follows the second one, but
the split has no part after a colon that ends the key.  So a last colon is dropped
(`parseAgentSessionKey_eq_some_iff`), and normalizing is idempotent on a key exactly when
dropping it leaves nothing more to drop (`normalizeSessionKey_idem_iff`).
-/

open List

namespace RavBot.Session

open RavBot.Lib

/-- The loop that splits a key at its colons.  `part` is the part that was begun; the loop
ends without a part when the key ends right after a colon. -/
def splitLoop (part : List Char) : List Char → List (List Char)
  | [] => if part = [] then [] else [part]
  | c :: s => if c = ':' then part :: splitLoop [] s else splitLoop (part ++ [c]) s

def splitKey (key : List Char) : List (List Char) := splitLoop [] key

def joinParts : List (List Char) → List Char
  | [] => []
  | part :: parts => part ++ parts.flatMap (':' :: ·)

/-- The first part of a key in the format of OpenClaw, `agent`. -/
def agentPart : List Char := ['a', 'g', 'e', 'n', 't']

/-- The rest of the main session of an agent, `main`; also the id of the default agent. -/
def mainPart : List Char := ['m', 'a', 'i', 'n']

/-- `ParseAgentSessionKey`: the agent id and the rest of a key. -/
def parseAgentSessionKey (key : List Char) : Option (List Char × List Char) :=
  match splitKey key with
  | first :: agentId :: parts =>
    if first ≠ agentPart ∨ agentId = [] ∨ joinParts parts = [] then none
    else some (agentId, joinParts parts)
  | _ => none

def agentKey (agentId rest : List Char) : List Char :=
  agentPart ++ ':' :: agentId ++ ':' :: rest

def normalizeSessionKey (key : List Char) : List Char :=
  let trimmed := Text.trim key
  if trimmed = [] then agentKey (Text.toLower mainPart) mainPart
  else match parseAgentSessionKey trimmed with
    | some (agentId, rest) => agentKey (Text.toLower agentId) (Text.toLower rest)
    | none => agentKey (Text.toLower mainPart) (Text.toLower trimmed)

/-! ## Splitting and joining -/

variable {s : List Char}

theorem splitLoop_append_colon {part t : List Char} (hs : ':' ∉ s) :
    splitLoop part (s ++ ':' :: t) = (part ++ s) :: splitKey t := by
  induction s generalizing part with
  | nil => simp [splitLoop, splitKey]
  | cons c s ih =>
    rw [mem_cons, not_or] at hs
    rw [cons_append, splitLoop, if_neg (Ne.symm hs.1), ih hs.2]
    simp

theorem splitLoop_of_not_mem {part : List Char} (hs : ':' ∉ s) :
    splitLoop part s = if part ++ s = [] then [] else [part ++ s] := by
  induction s generalizing part with
  | nil => simp [splitLoop]
  | cons c s ih =>
    rw [mem_cons, not_or] at hs
    rw [splitLoop, if_neg (Ne.symm hs.1), ih hs.2]
    simp

theorem exists_first_part (s : List Char) :
    ':' ∉ s ∨ ∃ part rest, s = part ++ ':' :: rest ∧ ':' ∉ part := by
  by_cases h : ':' ∈ s
  · right
    obtain ⟨part, rest, heq, hnot⟩ := eq_append_cons_of_mem h
    exact ⟨part, rest, heq, hnot⟩
  · exact .inl h

theorem joinParts_cons_cons (p q : List Char) (ps : List (List Char)) :
    joinParts (p :: q :: ps) = p ++ ':' :: joinParts (q :: ps) := by
  simp [joinParts]

@[simp] theorem joinParts_singleton (p : List Char) : joinParts [p] = p := by
  simp [joinParts]

def dropColon (s : List Char) : List Char :=
  if s.getLast? = some ':' then s.dropLast else s

theorem dropColon_of_ne (h : s.getLast? ≠ some ':') : dropColon s = s :=
  if_neg h

@[simp] theorem dropColon_concat (s : List Char) : dropColon (s ++ [':']) = s := by
  simp [dropColon]

theorem dropColon_append {t : List Char} (ht : t ≠ []) : dropColon (s ++ t) = s ++ dropColon t := by
  rw [dropColon, dropColon, getLast?_append_of_ne_nil _ ht]
  split
  · rw [dropLast_append_of_ne_nil ht]
  · rfl

theorem splitLoop_eq_nil {part : List Char} : splitLoop part s = [] ↔ part = [] ∧ s = [] := by
  induction s generalizing part with
  | nil => simp [splitLoop]
  | cons c s ih =>
    rw [splitLoop]
    split <;> simp [ih]

theorem joinParts_splitLoop {part : List Char} (hpart : ':' ∉ part) :
    joinParts (splitLoop part s) = dropColon (part ++ s) := by
  induction s generalizing part with
  | nil =>
    have hlast : part.getLast? ≠ some ':' := fun h => hpart (mem_of_getLast? h)
    rw [append_nil, dropColon_of_ne hlast, splitLoop]
    split
    · next h => rw [h]; rfl
    · exact joinParts_singleton part
  | cons c s ih =>
    rw [splitLoop]
    split
    · next hc =>
        subst hc
        by_cases hs : s = []
        · subst hs
          rw [dropColon_concat, splitLoop, if_pos rfl, joinParts_singleton]
        · have ihs : joinParts (splitLoop [] s) = dropColon ([] ++ s) := ih not_mem_nil
          rw [nil_append] at ihs
          rw [append_cons, dropColon_append hs, ← ihs]
          cases hsplit : splitLoop [] s with
          | nil => exact (hs (splitLoop_eq_nil.1 hsplit).2).elim
          | cons q ps => rw [joinParts_cons_cons, append_cons]
    · next hc =>
        rw [ih (by simp [hpart, Ne.symm hc]), append_assoc, singleton_append]

/-- **What parses.**  A key parses exactly when it has the agent format and something is
left of its rest after a colon at its end was dropped. -/
theorem parseAgentSessionKey_eq_some_iff {key agentId rest : List Char} :
    parseAgentSessionKey key = some (agentId, rest) ↔
      ∃ u, key = agentKey agentId u ∧ agentId ≠ [] ∧ ':' ∉ agentId ∧ rest = dropColon u ∧
        rest ≠ [] := by
  have hagent : ':' ∉ agentPart := by decide
  constructor
  · intro h
    rcases exists_first_part key with hkey | ⟨first, t, rfl, hfirst⟩
    · rw [parseAgentSessionKey, splitKey, splitLoop_of_not_mem hkey] at h
      rw [nil_append] at h
      by_cases hnil : key = []
      · rw [if_pos hnil] at h
        cases h
      · rw [if_neg hnil] at h
        cases h
    · rw [parseAgentSessionKey, splitKey, splitLoop_append_colon hfirst, nil_append] at h
      rcases exists_first_part t with ht | ⟨a, u, rfl, ha⟩
      · rw [splitKey, splitLoop_of_not_mem ht] at h
        rw [nil_append] at h
        by_cases hnil : t = []
        · rw [if_pos hnil] at h
          cases h
        · rw [if_neg hnil] at h
          simp [joinParts] at h
      · rw [splitKey, splitLoop_append_colon ha, nil_append] at h
        simp only [splitKey, joinParts_splitLoop not_mem_nil, nil_append] at h
        split at h
        · cases h
        · next hcond =>
            simp only [not_or, not_not] at hcond
            obtain ⟨rfl, hne, hrest⟩ := hcond
            cases h
            exact ⟨u, by simp [agentKey], hne, ha, rfl, hrest⟩
  · rintro ⟨u, rfl, hne, hcolon, rfl, hrest⟩
    have hkey : agentKey agentId u = agentPart ++ ':' :: (agentId ++ ':' :: u) := by
      simp [agentKey]
    rw [parseAgentSessionKey, splitKey, hkey, splitLoop_append_colon hagent, splitKey,
      splitLoop_append_colon hcolon, splitKey]
    simp only [nil_append, joinParts_splitLoop not_mem_nil]
    rw [if_neg (by simp [hne, hrest])]

/-! ## When normalizing is idempotent -/

theorem normalizeSessionKey_eq (key : List Char) :
    ∃ a u, normalizeSessionKey key = agentKey (Text.toLower a) (Text.toLower u) ∧ a ≠ [] ∧
      ':' ∉ a ∧ u ≠ [] := by
  by_cases ht : Text.trim key = []
  · exact ⟨mainPart, mainPart, by simp only [normalizeSessionKey, if_pos ht]; rfl,
      by decide, by decide, by decide⟩
  · cases hp : parseAgentSessionKey (Text.trim key) with
    | none =>
      exact ⟨mainPart, Text.trim key, by simp [normalizeSessionKey, ht, hp], by decide,
        by decide, ht⟩
    | some r =>
      obtain ⟨a, rest⟩ := r
      obtain ⟨u, -, ha, hcolon, -, hrest⟩ := parseAgentSessionKey_eq_some_iff.1 hp
      exact ⟨a, rest, by simp [normalizeSessionKey, ht, hp], ha, hcolon, hrest⟩

theorem head?_agentKey (a u : List Char) : (agentKey a u).head? = some 'a' := rfl

theorem getLast?_agentKey {a u : List Char} (hu : u ≠ []) :
    (agentKey a u).getLast? = u.getLast? := by
  rw [agentKey, append_cons, getLast?_append_of_ne_nil _ hu]

theorem length_agentKey (a u : List Char) : (agentKey a u).length = 7 + a.length + u.length := by
  simp [agentKey, agentPart]
  omega

theorem length_dropColon (h : s.getLast? = some ':') : (dropColon s).length + 1 = s.length := by
  have hne : s ≠ [] := by
    rintro rfl
    cases h
  rw [dropColon, if_pos h, length_dropLast]
  have := length_pos_iff.2 hne
  omega

theorem length_dropColon_le (s : List Char) : (dropColon s).length ≤ s.length := by
  by_cases h : s.getLast? = some ':'
  · have := length_dropColon h
    omega
  · rw [dropColon_of_ne h]

theorem normalizeSessionKey_of_some {key a r : List Char}
    (h : parseAgentSessionKey (Text.trim key) = some (a, r)) :
    normalizeSessionKey key = agentKey (Text.toLower a) (Text.toLower r) := by
  have hne : Text.trim key ≠ [] := by
    intro hnil
    rw [hnil] at h
    cases h
  simp [normalizeSessionKey, hne, h]

theorem normalizeSessionKey_of_none {key : List Char} (hne : Text.trim key ≠ [])
    (h : parseAgentSessionKey (Text.trim key) = none) :
    normalizeSessionKey key =
      agentKey (Text.toLower mainPart) (Text.toLower (Text.trim key)) := by
  simp [normalizeSessionKey, hne, h]

theorem normalizeSessionKey_ne_of_space {n : List Char} {c : Char} (hc : n.getLast? = some c)
    (hspace : Text.isSpace c = true) : normalizeSessionKey n ≠ n := by
  intro heq
  have hnot : ¬ Text.Trimmed n := fun h => by
    rw [h c (.inr hc)] at hspace
    cases hspace
  have hshort := Text.length_trim_lt hnot
  by_cases hnil : Text.trim n = []
  · rw [← heq, normalizeSessionKey, if_pos hnil] at hc
    cases hc
    cases hspace
  · cases hp : parseAgentSessionKey (Text.trim n) with
    | some r =>
      -- the result is no longer than the trimmed key
      obtain ⟨a, r⟩ := r
      obtain ⟨u, hu, -, -, rfl, -⟩ := parseAgentSessionKey_eq_some_iff.1 hp
      have hlen := congrArg List.length (normalizeSessionKey_of_some hp)
      have hlen' := congrArg List.length hu
      have := length_dropColon_le u
      rw [heq, length_agentKey, Text.length_toLower, Text.length_toLower] at hlen
      rw [length_agentKey] at hlen'
      omega
    | none =>
      -- the result ends as the trimmed key does
      have hlast := congrArg List.getLast? (normalizeSessionKey_of_none hnil hp)
      rw [heq, getLast?_agentKey (by simpa using hnil), hc, Text.getLast?_toLower] at hlast
      obtain ⟨d, hd, rfl⟩ := Option.map_eq_some_iff.1 hlast.symm
      rw [(Text.lowerChar_spec d).2.1, Text.trim_trimmed n d (.inr hd)] at hspace
      cases hspace

theorem normalizeSessionKey_ne_of_colon {n : List Char} (htrim : Text.Trimmed n)
    (hc : n.getLast? = some ':') : normalizeSessionKey n ≠ n := by
  intro heq
  have hsame := Text.trim_eq_self htrim
  cases hp : parseAgentSessionKey n with
  | some r =>
    -- the result is shorter by the colon
    obtain ⟨a, r⟩ := r
    obtain ⟨u, rfl, -, -, rfl, hrest⟩ := parseAgentSessionKey_eq_some_iff.1 hp
    have hu : u ≠ [] := by
      rintro rfl
      exact hrest rfl
    rw [getLast?_agentKey hu] at hc
    have hlen := congrArg List.length (normalizeSessionKey_of_some (hsame.symm ▸ hp))
    have := length_dropColon hc
    rw [heq, length_agentKey, length_agentKey, Text.length_toLower, Text.length_toLower] at hlen
    omega
  | none =>
    -- the result is longer by the wrapping
    have hne : n ≠ [] := by
      rintro rfl
      cases hc
    have hlen := congrArg List.length
      (normalizeSessionKey_of_none (hsame.symm ▸ hne) (hsame.symm ▸ hp))
    rw [heq, hsame, length_agentKey, Text.length_toLower, Text.length_toLower] at hlen
    omega

/-- Normalizing twice is normalizing once exactly when the normalized key ends neither with
a colon nor with white space. -/
theorem normalizeSessionKey_idem_iff_last (key : List Char) :
    normalizeSessionKey (normalizeSessionKey key) = normalizeSessionKey key ↔
      ∀ c, (normalizeSessionKey key).getLast? = some c → c ≠ ':' ∧ Text.isSpace c = false := by
  obtain ⟨a, u, hkey, ha, hcolon, hu⟩ := normalizeSessionKey_eq key
  have hlast : (normalizeSessionKey key).getLast? = (Text.toLower u).getLast? := by
    rw [hkey, getLast?_agentKey (by simpa using hu)]
  have hhead : (normalizeSessionKey key).head? = some 'a' := by rw [hkey, head?_agentKey]
  constructor
  · intro hidem c hc
    have hspace : Text.isSpace c = false := Bool.eq_false_iff.2 fun h =>
      normalizeSessionKey_ne_of_space hc h hidem
    refine ⟨?_, hspace⟩
    rintro rfl
    refine normalizeSessionKey_ne_of_colon ?_ hc hidem
    rintro d (hd | hd)
    · rw [hhead] at hd
      cases hd
      rfl
    · rw [hc] at hd
      cases hd
      exact hspace
  · intro h
    have htrim : Text.trim (normalizeSessionKey key) = normalizeSessionKey key := by
      apply Text.trim_eq_self
      rintro d (hd | hd)
      · rw [hhead] at hd
        cases hd
        rfl
      · exact (h d hd).2
    have hparse : parseAgentSessionKey (Text.trim (normalizeSessionKey key)) =
        some (Text.toLower a, Text.toLower u) := by
      rw [htrim, parseAgentSessionKey_eq_some_iff]
      refine ⟨Text.toLower u, hkey, by simpa using ha, by simpa using hcolon, ?_, by simpa using hu⟩
      rw [dropColon_of_ne]
      intro hc
      exact (h ':' (hlast.trans hc)).1 rfl
    rw [normalizeSessionKey_of_some hparse, Text.toLower_toLower, Text.toLower_toLower, ← hkey]

/-- The keys on which normalizing is idempotent: without the white space around it, the key
does not end with a colon, or it has the agent format and its rest, without one colon at its
end, ends with something that is neither a colon nor white space. -/
def StableKey (key : List Char) : Prop :=
  (Text.trim key).getLast? ≠ some ':' ∨
    ∃ a r c, Text.trim key = agentKey a (r ++ [':']) ∧ a ≠ [] ∧ ':' ∉ a ∧
      r.getLast? = some c ∧ c ≠ ':' ∧ Text.isSpace c = false

theorem parseAgentSessionKey_concat {a r : List Char} (ha : a ≠ []) (hcolon : ':' ∉ a)
    (hr : r ≠ []) : parseAgentSessionKey (agentKey a (r ++ [':'])) = some (a, r) :=
  parseAgentSessionKey_eq_some_iff.2 ⟨r ++ [':'], rfl, ha, hcolon, (dropColon_concat r).symm, hr⟩

theorem normalizeSessionKey_idem_iff (key : List Char) :
    normalizeSessionKey (normalizeSessionKey key) = normalizeSessionKey key ↔
      StableKey key := by
  rw [normalizeSessionKey_idem_iff_last]
  have htrimmed := Text.trim_trimmed key
  by_cases hnil : Text.trim key = []
  · refine iff_of_true ?_ (.inl (by rw [hnil]; exact nofun))
    rw [normalizeSessionKey, if_pos hnil]
    rintro c hc
    cases hc
    decide
  · cases hp : parseAgentSessionKey (Text.trim key) with
    | none =>
      have hlast : (normalizeSessionKey key).getLast? =
          (Text.trim key).getLast?.map Text.lowerChar := by
        rw [normalizeSessionKey_of_none hnil hp, getLast?_agentKey (by simpa using hnil),
          Text.getLast?_toLower]
      rw [hlast]
      constructor
      · intro h
        refine .inl fun hc => ?_
        rw [hc] at h
        exact (h _ rfl).1 rfl
      · rintro (hne | ⟨a, r, c, hkey, ha, hcolon, hr, -⟩) d hd
        · obtain ⟨e, he, rfl⟩ := Option.map_eq_some_iff.1 hd
          obtain ⟨-, hsp, hco⟩ := Text.lowerChar_spec e
          refine ⟨fun h => hne (hco.1 h ▸ he), ?_⟩
          rw [hsp]
          exact htrimmed e (.inr he)
        · have hrne : r ≠ [] := by
            rintro rfl
            cases hr
          rw [hkey, parseAgentSessionKey_concat ha hcolon hrne] at hp
          cases hp
    | some p =>
      obtain ⟨a, r⟩ := p
      obtain ⟨u, hkey, ha, hcolon, hr, hrne⟩ := parseAgentSessionKey_eq_some_iff.1 hp
      have hlast : (normalizeSessionKey key).getLast? = r.getLast?.map Text.lowerChar := by
        rw [normalizeSessionKey_of_some hp, getLast?_agentKey (by simpa using hrne),
          Text.getLast?_toLower]
      have hu : u ≠ [] := by
        rintro rfl
        exact hrne hr
      have hend : (Text.trim key).getLast? = u.getLast? := by rw [hkey, getLast?_agentKey hu]
      -- the last byte of the rest decides, and lowering does not change its kind
      have hdecide : (∀ c, (normalizeSessionKey key).getLast? = some c →
          c ≠ ':' ∧ Text.isSpace c = false) ↔
          ∀ c, r.getLast? = some c → c ≠ ':' ∧ Text.isSpace c = false := by
        rw [hlast]
        constructor
        · intro h c hc
          have := h (Text.lowerChar c) (by rw [hc]; rfl)
          rwa [(Text.lowerChar_spec c).2.1, ne_eq, (Text.lowerChar_spec c).2.2] at this
        · intro h d hd
          obtain ⟨c, hc, rfl⟩ := Option.map_eq_some_iff.1 hd
          rw [(Text.lowerChar_spec c).2.1, ne_eq, (Text.lowerChar_spec c).2.2]
          exact h c hc
      rw [hdecide]
      by_cases hcolonEnd : u.getLast? = some ':'
      · obtain ⟨u₀, rfl⟩ : ∃ u₀, u = u₀ ++ [':'] :=
          ⟨u.dropLast, (dropLast_append_getLast? _ hcolonEnd).symm⟩
        rw [dropColon_concat] at hr
        subst hr
        constructor
        · intro h
          have hsome := getLast?_eq_getLast_of_ne_nil hrne
          exact .inr ⟨a, r, _, hkey, ha, hcolon, hsome, h _ hsome⟩
        · rintro (hne | ⟨a', r', c, hkey', ha', hcolon', hr', hgood⟩) d hd
          · exact (hne (hend.trans hcolonEnd)).elim
          · have hrne' : r' ≠ [] := by
              rintro rfl
              cases hr'
            have hparse := parseAgentSessionKey_concat ha' hcolon' hrne'
            rw [← hkey', hp] at hparse
            cases hparse
            rw [hr'] at hd
            cases hd
            exact hgood
      · rw [dropColon_of_ne hcolonEnd] at hr
        subst hr
        refine iff_of_true (fun c hc => ⟨?_, htrimmed c (.inr (hend.trans hc))⟩) (.inl ?_)
        · rintro rfl
          exact hcolonEnd hc
        · rw [hend]
          exact hcolonEnd

end RavBot.Session
