import RavBot.Session.SessionManager

/-!
# Session keys of direct messages

`ResolveSessionKey` joins the agent id and the ids that a scope keeps apart with colons, and
`NormalizeSessionKey` trims the result, drops a colon at its end and lowers it.  Two senders get
one session exactly when nothing is left of the difference between their ids
(`sessions_isolated_iff`).
-/

open List

namespace RavBot.Channels

open RavBot.Lib RavBot.Session

inductive DmScope where
  | main
  | perPeer
  | perChannelPeer
  | perAccountChannelPeer
  deriving DecidableEq, Repr

/-- The ids that come with a direct message; the account id may be empty. -/
structure Inbound where
  channelId : String
  senderId : String
  accountId : String
  deriving DecidableEq, Repr

/-- The account of a message, `default` when it has none. -/
def Inbound.account (m : Inbound) : String := if m.accountId = "" then "default" else m.accountId

def resolveSessionKey (scope : DmScope) (agentId : String) (m : Inbound) : String :=
  match scope with
  | .main => "agent:" ++ agentId ++ ":main"
  | .perPeer => "agent:" ++ agentId ++ ":peer:" ++ m.senderId
  | .perChannelPeer => "agent:" ++ agentId ++ ":" ++ m.channelId ++ ":" ++ m.senderId
  | .perAccountChannelPeer =>
    "agent:" ++ agentId ++ ":" ++ m.account ++ ":" ++ m.channelId ++ ":" ++ m.senderId

namespace DmScope

/-- The ids that a scope keeps apart. -/
def components (scope : DmScope) (m : Inbound) : List String :=
  match scope with
  | main => []
  | perPeer => [m.senderId]
  | perChannelPeer => [m.channelId, m.senderId]
  | perAccountChannelPeer => [m.account, m.channelId, m.senderId]

/-- What comes after the agent id in the key of a message. -/
def scopeKey (scope : DmScope) (m : Inbound) : String :=
  match scope with
  | main => "main"
  | perPeer => "peer:" ++ m.senderId
  | perChannelPeer => m.channelId ++ ":" ++ m.senderId
  | perAccountChannelPeer => m.account ++ ":" ++ m.channelId ++ ":" ++ m.senderId

theorem colon_mem_scopeKey {scope : DmScope} {m m' : Inbound}
    (hne : scope.components m ≠ scope.components m') (m₁ : Inbound) :
    ':' ∈ (scope.scopeKey m₁).toList := by
  cases scope with
  | main => exact absurd rfl hne
  | perPeer => simp [scopeKey]
  | perChannelPeer => simp [scopeKey]
  | perAccountChannelPeer => simp [scopeKey]

end DmScope

theorem toList_resolveSessionKey (scope : DmScope) (agentId : String) (m : Inbound) :
    (resolveSessionKey scope agentId m).toList =
      agentKey agentId.toList (scope.scopeKey m).toList := by
  cases scope <;> simp [resolveSessionKey, DmScope.scopeKey, agentKey, agentPart]

/-! ## What normalizing keeps of a key -/

def trimEnd (s : List Char) : List Char := s.rdropWhile Text.isSpace

/-- The agent id is empty or starts with a colon, so that no key with it parses. -/
def NoAgent (agentId : List Char) : Prop := agentId.head? = none ∨ agentId.head? = some ':'

instance (agentId : List Char) : Decidable (NoAgent agentId) :=
  inferInstanceAs (Decidable (_ ∨ _))

def keptRest (agentId rest : List Char) : List Char :=
  Text.toLower (if NoAgent agentId then trimEnd rest else dropColon (trimEnd rest))

/-- Of the first key nothing is left but a colon after the agent id, which is `main`.  It does not
parse, and is wrapped as the rest of another key of `main`, the second one. -/
def Wrapped (agentId rest rest' : List Char) : Prop :=
  Text.toLower agentId = mainPart ∧ trimEnd rest = [':'] ∧
    keptRest agentId rest' = agentKey mainPart [':']

def SameSession (agentId rest rest' : List Char) : Prop :=
  keptRest agentId rest = keptRest agentId rest' ∨
    Wrapped agentId rest rest' ∨ Wrapped agentId rest' rest

theorem trimEnd_append_colon (s t : List Char) :
    trimEnd (s ++ ':' :: t) = s ++ ':' :: trimEnd t := by
  induction t using List.reverseRecOn with
  | nil =>
    rw [trimEnd, rdropWhile_concat_neg _ _ _ (by decide)]
    rfl
  | append_singleton t c ih =>
    simp only [trimEnd] at ih ⊢
    rw [← cons_append, ← append_assoc, rdropWhile_concat, ih, rdropWhile_concat]
    split_ifs
    · rfl
    · rw [append_assoc, cons_append]

theorem trim_agentKey (a u : List Char) : Text.trim (agentKey a u) = agentKey a (trimEnd u) := by
  have hstart : (agentKey a u).dropWhile Text.isSpace = agentKey a u := rfl
  rw [Text.trim, hstart]
  have hcolon := trimEnd_append_colon (agentPart ++ ':' :: a) u
  rw [append_assoc, cons_append] at hcolon
  rw [agentKey, agentKey, append_assoc, append_assoc, cons_append, cons_append]
  exact hcolon

theorem colon_mem_trimEnd {s : List Char} (h : ':' ∈ s) : ':' ∈ trimEnd s := by
  obtain ⟨t, u, rfl⟩ := append_of_mem h
  rw [trimEnd_append_colon]
  simp

theorem dropColon_eq_nil_iff {s : List Char} (h : ':' ∈ s) : dropColon s = [] ↔ s = [':'] := by
  constructor
  · rintro hnil
    rw [dropColon] at hnil
    split_ifs at hnil with hlast
    · rw [← dropLast_append_getLast? _ hlast, hnil]
      rfl
    · rw [hnil] at h
      cases h
  · rintro rfl
    rfl

theorem agentKey_inj {a a' u u' : List Char} (ha : ':' ∉ a) (ha' : ':' ∉ a') :
    agentKey a u = agentKey a' u' ↔ a = a' ∧ u = u' := by
  constructor
  · rintro h
    rw [agentKey, agentKey, append_assoc, append_assoc, append_cancel_left_eq,
      cons_append, cons_append, List.cons.injEq] at h
    have hparts := congrArg splitKey h.2
    rw [splitKey, splitKey, splitLoop_append_colon ha, splitLoop_append_colon ha'] at hparts
    obtain rfl : a = a' := (List.cons.inj hparts).1
    exact ⟨rfl, by simpa using h.2⟩
  · rintro ⟨rfl, rfl⟩
    rfl

theorem toLower_agentKey (a u : List Char) :
    Text.toLower (agentKey a u) = agentKey (Text.toLower a) (Text.toLower u) := by
  simp only [agentKey, Text.toLower_append]
  rfl

/-! ## Normalizing the keys of an agent -/

section Normalize

variable {a t u : List Char}

theorem normalize_noAgent (ha : NoAgent a) :
    normalizeSessionKey (agentKey a u) =
      agentKey mainPart (agentKey (Text.toLower a) (Text.toLower (trimEnd u))) := by
  have hnone : parseAgentSessionKey (Text.trim (agentKey a u)) = none := by
    rw [trim_agentKey, Option.eq_none_iff_forall_not_mem]
    rintro ⟨part, rest⟩ hparse
    obtain ⟨v, hv, hne, hcolon, -, -⟩ := parseAgentSessionKey_eq_some_iff.1 hparse
    rcases exists_first_part a with hnot | ⟨p, t, rfl, hp⟩
    · rw [agentKey_inj hnot hcolon] at hv
      rcases ha with hnil | hhead
      · exact hne (hv.1 ▸ head?_eq_none_iff.1 hnil)
      · exact hnot (mem_of_mem_head? hhead)
    · have hsplit : agentKey (p ++ ':' :: t) (trimEnd u) = agentKey p (t ++ ':' :: trimEnd u) := by
        simp [agentKey]
      rw [hsplit, agentKey_inj hp hcolon] at hv
      cases p with
      | nil => exact hne hv.1.symm
      | cons c p =>
        rcases ha with hnil | hhead
        · cases hnil
        · cases hhead
          exact hp mem_cons_self
  rw [normalizeSessionKey_of_none _ hnone, trim_agentKey, toLower_agentKey]
  · rfl
  · rw [trim_agentKey]
    simp [agentKey]

theorem normalize_of_parts (hne : a ≠ []) (ha : ':' ∉ a) (hu : dropColon (trimEnd u) ≠ []) :
    normalizeSessionKey (agentKey a u) =
      agentKey (Text.toLower a) (Text.toLower (dropColon (trimEnd u))) := by
  apply normalizeSessionKey_of_some
  rw [trim_agentKey, parseAgentSessionKey_eq_some_iff]
  exact ⟨trimEnd u, rfl, hne, ha, rfl, hu⟩

theorem normalize_of_colon (ha : ':' ∉ a) (hu : trimEnd u = [':']) :
    normalizeSessionKey (agentKey a u) = agentKey mainPart (agentKey (Text.toLower a) [':']) := by
  have hnone : parseAgentSessionKey (Text.trim (agentKey a u)) = none := by
    rw [trim_agentKey, hu, Option.eq_none_iff_forall_not_mem]
    rintro ⟨part, rest⟩ hparse
    obtain ⟨v, hv, -, hcolon, hrest, hnil⟩ := parseAgentSessionKey_eq_some_iff.1 hparse
    rw [agentKey_inj ha hcolon] at hv
    rw [hrest, ← hv.2] at hnil
    exact hnil rfl
  rw [normalizeSessionKey_of_none _ hnone, trim_agentKey, toLower_agentKey, hu]
  · rfl
  · rw [trim_agentKey]
    simp [agentKey]

theorem normalize_of_colon_mem (hne : a ≠ []) (ha : ':' ∉ a) (hu : trimEnd u ≠ []) :
    normalizeSessionKey (agentKey (a ++ ':' :: t) u) =
      agentKey (Text.toLower a)
        (Text.toLower t ++ ':' :: Text.toLower (dropColon (trimEnd u))) := by
  have hsplit : agentKey (a ++ ':' :: t) u = agentKey a (t ++ ':' :: u) := by simp [agentKey]
  have hdrop : dropColon (trimEnd (t ++ ':' :: u)) = t ++ ':' :: dropColon (trimEnd u) := by
    rw [trimEnd_append_colon, append_cons, dropColon_append hu, append_assoc]
    rfl
  rw [hsplit, normalize_of_parts hne ha (by rw [hdrop]; simp), hdrop, Text.toLower_append]
  rfl

end Normalize

theorem not_noAgent {a : List Char} (hne : a ≠ []) (ha : ':' ∉ a) : ¬ NoAgent a := by
  rintro (hnil | hhead)
  · exact hne (head?_eq_none_iff.1 hnil)
  · exact ha (mem_of_mem_head? hhead)

theorem normalize_colon_eq_iff {a u u' : List Char} (hne : a ≠ []) (ha : ':' ∉ a)
    (hu : trimEnd u = [':']) (hu' : dropColon (trimEnd u') ≠ []) :
    normalizeSessionKey (agentKey a u) = normalizeSessionKey (agentKey a u') ↔ Wrapped a u u' := by
  have hno := not_noAgent hne ha
  have hlower : ':' ∉ Text.toLower a := mt Text.colon_mem_toLower.1 ha
  rw [normalize_of_colon ha hu, normalize_of_parts hne ha hu', agentKey_inj (by decide) hlower,
    Wrapped, keptRest, if_neg hno, and_iff_right hu]
  constructor
  · rintro ⟨hmain, hrest⟩
    exact ⟨hmain.symm, by rw [← hrest, ← hmain]⟩
  · rintro ⟨hmain, hrest⟩
    exact ⟨hmain.symm, by rw [hrest, hmain]⟩

theorem normalize_eq_iff_of_parts {a u u' : List Char} (hne : a ≠ []) (ha : ':' ∉ a)
    (hu : ':' ∈ trimEnd u) (hu' : ':' ∈ trimEnd u') :
    normalizeSessionKey (agentKey a u) = normalizeSessionKey (agentKey a u') ↔
      SameSession a u u' := by
  have hno := not_noAgent hne ha
  have hlower : ':' ∉ Text.toLower a := mt Text.colon_mem_toLower.1 ha
  have hkept (v : List Char) : keptRest a v = Text.toLower (dropColon (trimEnd v)) := by
    rw [keptRest, if_neg hno]
  rw [SameSession, hkept, hkept]
  by_cases hdrop : dropColon (trimEnd u) = []
  · have hcolon := (dropColon_eq_nil_iff hu).1 hdrop
    by_cases hdrop' : dropColon (trimEnd u') = []
    · have hcolon' := (dropColon_eq_nil_iff hu').1 hdrop'
      refine iff_of_true ?_ (.inl (by rw [hdrop, hdrop']))
      rw [normalize_of_colon ha hcolon, normalize_of_colon ha hcolon']
    · have hdiffer : Text.toLower [] ≠ Text.toLower (dropColon (trimEnd u')) := fun heq =>
        hdrop' (Text.toLower_eq_nil.1 heq.symm)
      rw [normalize_colon_eq_iff hne ha hcolon hdrop', hdrop, or_iff_right hdiffer, or_iff_left]
      rintro ⟨-, hcolon', -⟩
      exact hdrop' ((dropColon_eq_nil_iff hu').2 hcolon')
  · by_cases hdrop' : dropColon (trimEnd u') = []
    · have hcolon' := (dropColon_eq_nil_iff hu').1 hdrop'
      have hdiffer : Text.toLower (dropColon (trimEnd u)) ≠ Text.toLower [] := fun heq =>
        hdrop (Text.toLower_eq_nil.1 heq)
      rw [eq_comm, normalize_colon_eq_iff hne ha hcolon' hdrop, hdrop', or_iff_right hdiffer,
        or_iff_right]
      rintro ⟨-, hcolon, -⟩
      exact hdrop ((dropColon_eq_nil_iff hu).2 hcolon)
    · rw [normalize_of_parts hne ha hdrop, normalize_of_parts hne ha hdrop',
        agentKey_inj hlower hlower, and_iff_right rfl, or_iff_left]
      rintro (⟨-, hcolon, -⟩ | ⟨-, hcolon, -⟩)
      · exact hdrop ((dropColon_eq_nil_iff hu).2 hcolon)
      · exact hdrop' ((dropColon_eq_nil_iff hu').2 hcolon)

/-- Two keys of an agent are normalized to the same key exactly when nothing is left of the
difference between their rests. -/
theorem normalize_eq_iff (a : List Char) {u u' : List Char} (hu : ':' ∈ u) (hu' : ':' ∈ u') :
    normalizeSessionKey (agentKey a u) = normalizeSessionKey (agentKey a u') ↔
      SameSession a u u' := by
  have hmain : ':' ∉ mainPart := by decide
  have hmem := colon_mem_trimEnd hu
  have hmem' := colon_mem_trimEnd hu'
  by_cases hno : NoAgent a
  · have hnot (v v' : List Char) : ¬ Wrapped a v v' := by
      rintro ⟨hlower, -, -⟩
      rcases hno with hnil | hhead
      · rw [head?_eq_none_iff.1 hnil] at hlower
        cases hlower
      · exact hmain (hlower ▸ Text.colon_mem_toLower.2 (mem_of_mem_head? hhead))
    rw [normalize_noAgent hno, normalize_noAgent hno, agentKey_inj hmain hmain, SameSession,
      or_iff_left (not_or.2 ⟨hnot _ _, hnot _ _⟩), keptRest, keptRest, if_pos hno, if_pos hno]
    simp [agentKey]
  · rcases exists_first_part a with ha | ⟨p, t, rfl, hp⟩
    · refine normalize_eq_iff_of_parts ?_ ha hmem hmem'
      rintro rfl
      exact hno (.inl rfl)
    · have hne : p ≠ [] := by
        rintro rfl
        exact hno (.inr rfl)
      have hnot (v v' : List Char) : ¬ Wrapped (p ++ ':' :: t) v v' := by
        rintro ⟨hlower, -, -⟩
        exact hmain (hlower ▸ Text.colon_mem_toLower.2 (by simp))
      have hlower : ':' ∉ Text.toLower p := mt Text.colon_mem_toLower.1 hp
      rw [normalize_of_colon_mem hne hp (ne_nil_of_mem hmem),
        normalize_of_colon_mem hne hp (ne_nil_of_mem hmem'), agentKey_inj hlower hlower,
        SameSession, or_iff_left (not_or.2 ⟨hnot _ _, hnot _ _⟩), keptRest, keptRest, if_neg hno,
        if_neg hno]
      simp

/-! ## Isolation -/

/-- **Session isolation.**  Two messages to an agent that differ in the ids that a scope keeps
apart get different sessions exactly when something is left of the difference between their
keys. -/
theorem sessions_isolated_iff {scope : DmScope} {m m' : Inbound}
    (hne : scope.components m ≠ scope.components m') (agentId : String) :
    normalized (resolveSessionKey scope agentId m) ≠
        normalized (resolveSessionKey scope agentId m') ↔
      ¬ SameSession agentId.toList (scope.scopeKey m).toList (scope.scopeKey m').toList := by
  rw [normalized, normalized, ne_eq, String.ofList_inj, toList_resolveSessionKey,
    toList_resolveSessionKey]
  rw [normalize_eq_iff agentId.toList (DmScope.colon_mem_scopeKey hne m)
    (DmScope.colon_mem_scopeKey hne m')]

/-- Two senders on one channel get different sessions. -/
theorem sessions_isolated_two_senders :
    normalized (resolveSessionKey .perChannelPeer "main" ⟨"discord", "user1", ""⟩) ≠
      normalized (resolveSessionKey .perChannelPeer "main" ⟨"discord", "user2", ""⟩) := by
  refine (sessions_isolated_iff (by decide) "main").2 ?_
  rintro (hkept | ⟨-, hcolon, -⟩ | ⟨-, hcolon, -⟩)
  · revert hkept
    decide
  · revert hcolon
    decide
  · revert hcolon
    decide

/-- A colon in an id moves between the channel and the sender, and the case of letters is
lost. -/
theorem not_sessions_isolated :
    ¬ ∀ (scope : DmScope) (m m' : Inbound), scope.components m ≠ scope.components m' →
      ∀ agentId, normalized (resolveSessionKey scope agentId m) ≠
        normalized (resolveSessionKey scope agentId m') := by
  rintro h
  have hne := h .perChannelPeer ⟨"matrix", "room:bob", ""⟩ ⟨"matrix:room", "bob", ""⟩ (by decide)
    "main"
  revert hne
  decide

end RavBot.Channels
