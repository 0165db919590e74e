import RavBot.Lib.Run
import RavBot.Session.HistoryEffects

/-!
# Agent requests on one session

`execute_agent_request` appends the user's message to the transcript, fetches the last messages
and takes the last one off again, taking it for the user's message.  Each of these is a critical
section of its own, and nothing keeps two calls for one session apart.  A `/compact` is one too:
it fetches all messages, resets the session and appends the last ones again.

So a call sees the messages before its own, and no message gets lost, as long as nobody else
writes to the transcript between a call's message and its fetch, or during a `/compact`
(`requests_see_history`).
-/

namespace RavBot.Gateway

open RavBot.Lib RavBot.Core RavBot.Session SessionManager

/-- How far a call of `execute_agent_request` has come. -/
inductive Phase where
  /-- An ordinary message has come in. -/
  | arrived (message : String)
  /-- The session was got or created. -/
  | created (message : String)
  /-- The session was found to have its key as its display name. -/
  | unnamed (message : String)
  /-- The display name is settled. -/
  | named (message : String)
  /-- The message was appended to the messages that the session had before. -/
  | appended (before : List SessionMessage)
  /-- The agent loop runs. -/
  | inLoop
  /-- The messages of the agent loop are being appended. -/
  | persisting (msgs : List SessionMessage)
  /-- A `/compact` has come in. -/
  | compact
  /-- It has fetched the messages of the session. -/
  | compacting (history : List SessionMessage)
  /-- It has reset the session and has these messages left to append. -/
  | reappending (msgs : List SessionMessage)
  | done

/-- What the agent loop of a call was given, and what the session had before the call's own
message. -/
structure Handed where
  before : List SessionMessage
  history : List SessionMessage

/-- What a critical section gets from the outside: the session id that it draws, the times that
it reads, and the messages that the agent loop returns. -/
structure Outside where
  sid : String
  now : Timestamp
  later : Timestamp
  replies : List (String × List ContentBlock)

/-- The calls of `execute_agent_request` for one session key.  `messages` are the messages of the
session as it would have them if every `/compact` were a single step. -/
structure AgentRequests where
  manager : SessionManager
  phases : List Phase
  messages : List SessionMessage
  handed : List Handed

inductive RequestStep where
  /-- A call with an ordinary message comes in. -/
  | message (text : String)
  /-- A call with `/compact` comes in. -/
  | compact
  /-- A call goes on to the end of its next critical section. -/
  | next (i : Nat) (outside : Outside)

namespace AgentRequests

/-- The calls before the first one. -/
def start (key : String) (m : SessionManager) : AgentRequests where
  manager := m
  phases := []
  messages := m.getHistory key (-1)
  handed := []

/-- Whether `ListSessions` shows a session with the given key that has it as its display name. -/
def isUnnamed (m : SessionManager) (key : String) : Bool :=
  m.store.entries.any fun e => e.2.sessionKey == key && e.2.displayName == key

/-- The messages that `/compact` appends again, by their positions as `int`s. -/
def keptMessages (history : List SessionMessage) : List SessionMessage :=
  let size := Json.toInt32 history.length
  let keep := min 20 size
  (history.take size.toNat).drop (size - keep).toNat

/-- The next critical section of a call, and the phase after it.  A call that throws is done. -/
def advance (key : String) (s : AgentRequests) (outside : Outside) :
    Phase → Option (AgentRequests × Phase)
  | .arrived text =>
    let r := s.manager.getOrCreate key "" "cli" outside.sid outside.now
    some ({ s with manager := r.1 }, if r.2.isSome then .created text else .done)
  | .created text => some (s, if isUnnamed s.manager key then .unnamed text else .named text)
  | .unnamed text =>
    let r := s.manager.updateDisplayName key (displayName text)
    some ({ s with manager := r.1 }, if r.2.isSome then .named text else .done)
  | .named text =>
    let r := s.manager.appendText key "user" text none outside.now outside.later
    let own := s.manager.persisted (normalized key) (.ofText "user" text outside.now.text)
    some ({ s with manager := r.1, messages := s.messages ++ own },
      if r.2.isSome then .appended s.messages else .done)
  | .appended before =>
    let history := (s.manager.getHistory key 50).dropLast
    some ({ s with handed := s.handed ++ [⟨before, history⟩] }, .inLoop)
  | .inLoop =>
    some (s, .persisting (outside.replies.map fun (role, content) => ⟨role, content, "", none⟩))
  | .persisting [] => some (s, .done)
  | .persisting (msg :: msgs) =>
    let r := s.manager.appendMessage key msg outside.now
    some ({ s with manager := r.1, messages := s.messages ++ s.manager.persisted key msg },
      if r.2.isSome then .persisting msgs else .done)
  | .compact =>
    let history := s.manager.getHistory key (-1)
    some (s, if 20 < history.length then .compacting history else .done)
  | .compacting history =>
    let r := s.manager.resetSession key outside.sid outside.now outside.later
    let messages := (s.messages.rtake 20).map SessionMessage.readBack
    some ({ s with manager := r.1, messages := messages },
      if r.2.isSome then .reappending (keptMessages history) else .done)
  | .reappending [] => some (s, .done)
  | .reappending (msg :: msgs) =>
    let r := s.manager.appendMessage key msg outside.now
    some ({ s with manager := r.1 }, if r.2.isSome then .reappending msgs else .done)
  | .done => none

/-- A step of the system. -/
def step (key : String) (s : AgentRequests) : RequestStep → Option AgentRequests
  | .message text =>
    if text = "" then none else some { s with phases := s.phases ++ [.arrived text] }
  | .compact => some { s with phases := s.phases ++ [.compact] }
  | .next i outside =>
    (s.phases[i]?).bind fun phase =>
      (advance key s outside phase).map fun (s', phase') =>
        { s' with phases := s.phases.set i phase' }

end AgentRequests

/-! ## Nobody comes in between -/

namespace Phase

/-- The call is between its message and its fetch, or in the middle of a `/compact`. -/
def isOpen : Phase → Bool
  | appended _ => true
  | compacting _ => true
  | reappending (_ :: _) => true
  | _ => false

def isReappending : Phase → Bool
  | reappending (_ :: _) => true
  | _ => false

end Phase

namespace AgentRequests

def Alone (s : AgentRequests) (i : Nat) : Prop :=
  ∀ j phase, j ≠ i → s.phases[j]? = some phase → phase.isOpen = false

instance (s : AgentRequests) (i : Nat) : Decidable (s.Alone i) :=
  decidable_of_iff (∀ e ∈ s.phases.zipIdx, e.2 ≠ i → e.1.isOpen = false) (by
    constructor
    · rintro h j phase hji hj
      exact h (phase, j) (List.mem_zipIdx_iff_getElem?.2 hj) hji
    · rintro h ⟨phase, j⟩ hmem hji
      exact h j phase hji (List.mem_zipIdx_iff_getElem?.1 hmem))

/-- What the next critical section of a call is to meet.  One that writes to the transcript finds
no other call open; one of a `/compact` is not cut short by a string that is not UTF-8; an id
that is drawn has no transcript yet; and the messages can be counted by an `int`. -/
def Undisturbed (key : String) (s : AgentRequests) (i : Nat) (outside : Outside) : Phase → Prop
  | .arrived _ => s.manager.FreshId outside.sid
  | .named _ => s.Alone i
  | .appended _ => (s.manager.getHistory key (-1)).length < 2 ^ 31
  | .persisting (_ :: _) => s.Alone i
  | .compacting history =>
    s.Alone i ∧ s.manager.storeJson.isUtf8 = true ∧ Text.validUtf8 outside.sid ∧
      (s.manager.archived key outside.now).FreshId outside.sid ∧ history.length < 2 ^ 31
  | .reappending (msg :: _) =>
    s.Alone i ∧ s.manager.storeJson.isUtf8 = true ∧ msg.toJsonl.isUtf8 = true
  | _ => True

instance (key : String) (s : AgentRequests) (i : Nat) (outside : Outside) :
    ∀ phase, Decidable (s.Undisturbed key i outside phase)
  | .arrived _ => inferInstanceAs (Decidable (SessionManager.FreshId ..))
  | .named _ => inferInstanceAs (Decidable (s.Alone i))
  | .appended _ => inferInstanceAs (Decidable (_ < _))
  | .persisting (_ :: _) => inferInstanceAs (Decidable (s.Alone i))
  | .compacting _ => inferInstanceAs (Decidable (_ ∧ _ ∧ _ ∧ _ ∧ _ < _))
  | .reappending (_ :: _) => inferInstanceAs (Decidable (_ ∧ _ ∧ _))
  | .created _ | .unnamed _ | .inLoop | .persisting [] | .compact | .reappending [] | .done =>
    .isTrue trivial

def Ok (key : String) (s : AgentRequests) : RequestStep → Prop
  | .next i outside => ∀ phase, s.phases[i]? = some phase → s.Undisturbed key i outside phase
  | _ => True

instance (key : String) (s : AgentRequests) : ∀ a, Decidable (s.Ok key a)
  | .next i outside =>
    match h : s.phases[i]? with
    | none => .isTrue fun phase hphase => by cases h.symm.trans hphase
    | some phase =>
      decidable_of_iff (s.Undisturbed key i outside phase)
        ⟨fun hok phase' hphase => by cases h.symm.trans hphase; exact hok, fun hok => hok _ h⟩
  | .message _ | .compact => .isTrue trivial

/-! ## What holds in every state -/

/-- What the phase of a call says about the manager and the messages. -/
def PhaseInv (key : String) (m : SessionManager) (messages : List SessionMessage) : Phase → Prop
  | .created _ => m.found key = true
  | .unnamed _ => m.found key = true
  | .named _ => m.found key = true
  | .appended before => ∃ own, m.getHistory key (-1) = before ++ [own]
  | .compacting history => m.found key = true ∧ m.getHistory key (-1) = history
  | .reappending (msg :: msgs) =>
    m.found key = true ∧
      m.getHistory key (-1) ++ (msg :: msgs).map SessionMessage.readBack = messages
  | _ => True

/-- The invariant of the calls on a session. -/
structure Consistent (key : String) (s : AgentRequests) : Prop where
  phases : ∀ (i : Nat) (phase : Phase), s.phases[i]? = some phase →
    PhaseInv key s.manager s.messages phase
  /-- Unless messages are being appended again, the transcript has the messages. -/
  history : (∀ (i : Nat) (phase : Phase), s.phases[i]? = some phase → phase.isReappending = false) →
    s.manager.getHistory key (-1) = s.messages
  /-- Every agent loop was given the last messages that the session had before the call's own. -/
  handed : ∀ h ∈ s.handed, h.history = h.before.rtake 49

theorem dropLast_rtake {before : List SessionMessage} {own : SessionMessage} :
    ((before ++ [own]).rtake 50).dropLast = before.rtake 49 := by
  rw [List.rtake_concat_succ, List.dropLast_concat]

theorem keptMessages_eq {history : List SessionMessage} (hcount : history.length < 2 ^ 31) :
    keptMessages history = history.rtake 20 := by
  rw [keptMessages, UsageInfo.toInt32_eq_self (by omega) (by omega), List.rtake]
  rw [Int.toNat_natCast, List.take_length]
  congr 1
  omega

theorem found_of_lt_length {m : SessionManager} {key : String} {n : Nat}
    (h : n < (m.getHistory key (-1)).length) : m.found key = true := by
  rw [getHistory_eq_lines, lines] at h
  rw [found]
  cases hlookup : m.store.lookup (normalized key) with
  | none =>
    rw [hlookup] at h
    cases h
  | some info => rfl

theorem PhaseInv.of_eq {key : String} {m m' : SessionManager} {messages : List SessionMessage}
    {phase : Phase} (h : PhaseInv key m messages phase)
    (hfound : m.found key = true → m'.found key = true)
    (hhistory : m'.getHistory key (-1) = m.getHistory key (-1)) :
    PhaseInv key m' messages phase := by
  cases phase with
  | created _ => exact hfound h
  | unnamed _ => exact hfound h
  | named _ => exact hfound h
  | appended before =>
    obtain ⟨own, hown⟩ := h
    exact ⟨own, hhistory.trans hown⟩
  | compacting history => exact ⟨hfound h.1, hhistory.trans h.2⟩
  | reappending msgs =>
    cases msgs with
    | nil => trivial
    | cons msg msgs => exact ⟨hfound h.1, by rw [hhistory, h.2]⟩
  | _ => trivial

theorem PhaseInv.of_not_open {key : String} {m m' : SessionManager}
    {messages messages' : List SessionMessage} {phase : Phase} (h : PhaseInv key m messages phase)
    (hclosed : phase.isOpen = false) (hfound : m.found key = true → m'.found key = true) :
    PhaseInv key m' messages' phase := by
  cases phase with
  | created _ => exact hfound h
  | unnamed _ => exact hfound h
  | named _ => exact hfound h
  | appended before => cases hclosed
  | compacting history => cases hclosed
  | reappending msgs =>
    cases msgs with
    | nil => trivial
    | cons msg msgs => cases hclosed
  | _ => trivial

theorem isReappending_of_not_open {phase : Phase} (h : phase.isOpen = false) :
    phase.isReappending = false := by
  cases phase with
  | reappending msgs =>
    cases msgs with
    | nil => rfl
    | cons msg msgs => cases h
  | _ => rfl

section Next

variable {key : String} {s s' : AgentRequests} {i : Nat} {phase phase' : Phase}

theorem consistent_set (hi : s.phases[i]? = some phase)
    (hothers : ∀ (j : Nat) (q : Phase), j ≠ i → s.phases[j]? = some q →
      PhaseInv key s'.manager s'.messages q)
    (hself : PhaseInv key s'.manager s'.messages phase')
    (hhistory : (∀ (j : Nat) (q : Phase), j ≠ i → s.phases[j]? = some q → q.isReappending = false) →
      phase'.isReappending = false → s'.manager.getHistory key (-1) = s'.messages)
    (hhanded : ∀ h ∈ s'.handed, h.history = h.before.rtake 49) :
    Consistent key { s' with phases := s.phases.set i phase' } := by
  obtain ⟨hlt, -⟩ := List.getElem?_eq_some_iff.1 hi
  refine ⟨fun j q hj => ?_, fun hnone => ?_, hhanded⟩
  · rw [List.getElem?_set] at hj
    split_ifs at hj with hij
    · cases hj
      exact hself
    · exact hothers j q (Ne.symm hij) hj
  · refine hhistory (fun j q hji hj => hnone j q ?_) (hnone i phase' ?_)
    · exact (List.getElem?_set_ne (Ne.symm hji)).trans hj
    · exact List.getElem?_set_self hlt

theorem Consistent.quiet (hinv : Consistent key s) (hi : s.phases[i]? = some phase)
    (hmessages : s'.messages = s.messages)
    (hfound : s.manager.found key = true → s'.manager.found key = true)
    (hhistory : s'.manager.getHistory key (-1) = s.manager.getHistory key (-1))
    (hself : PhaseInv key s'.manager s'.messages phase') (hclosed : phase.isReappending = false)
    (hhanded : ∀ h ∈ s'.handed, h.history = h.before.rtake 49) :
    Consistent key { s' with phases := s.phases.set i phase' } := by
  refine consistent_set hi (fun j q _ hj => ?_) hself (fun hothers _ => ?_) hhanded
  · rw [hmessages]
    exact (hinv.phases j q hj).of_eq hfound hhistory
  · rw [hhistory, hmessages]
    refine hinv.history fun j q hj => ?_
    by_cases hji : j = i
    · rw [hji, hi] at hj
      cases hj
      exact hclosed
    · exact hothers j q hji hj

theorem Consistent.history_of_alone (hinv : Consistent key s) (hi : s.phases[i]? = some phase)
    (halone : s.Alone i) (hclosed : phase.isReappending = false) :
    s.manager.getHistory key (-1) = s.messages := by
  refine hinv.history fun j q hj => ?_
  by_cases hji : j = i
  · rw [hji, hi] at hj
    cases hj
    exact hclosed
  · exact isReappending_of_not_open (halone j q hji hj)

theorem Consistent.write (hinv : Consistent key s) (hi : s.phases[i]? = some phase)
    (halone : s.Alone i) (hfound : s.manager.found key = true → s'.manager.found key = true)
    (hself : PhaseInv key s'.manager s'.messages phase')
    (hhistory : phase'.isReappending = false →
      s'.manager.getHistory key (-1) = s'.messages)
    (hhanded : s'.handed = s.handed) :
    Consistent key { s' with phases := s.phases.set i phase' } := by
  refine consistent_set hi (fun j q hji hj => ?_) hself (fun _ => hhistory) ?_
  · exact (hinv.phases j q hj).of_not_open (halone j q hji hj) hfound
  · rw [hhanded]
    exact hinv.handed

variable {msgs : List SessionMessage}

theorem phaseInv_reappending {m : SessionManager} {messages : List SessionMessage}
    (hfound : m.found key = true)
    (hmsgs : m.getHistory key (-1) ++ msgs.map SessionMessage.readBack = messages) :
    PhaseInv key m messages (.reappending msgs) ∧
      ((Phase.reappending msgs).isReappending = false → m.getHistory key (-1) = messages) := by
  cases msgs with
  | nil => exact ⟨trivial, fun _ => (List.append_nil _).symm.trans hmsgs⟩
  | cons msg msgs => exact ⟨⟨hfound, hmsgs⟩, nofun⟩

variable {outside : Outside}

theorem Consistent.appendOwn (hkey : normalized (normalized key) = normalized key)
    (hinv : Consistent key s) {text : String} (hi : s.phases[i]? = some (.named text))
    (halone : s.Alone i)
    (hadvance : advance key s outside (.named text) = some (s', phase')) :
    Consistent key { s' with phases := s.phases.set i phase' } := by
  cases hadvance
  have hwritten := getHistory_appendMessage_eq s.manager hkey
    (.ofText "user" text outside.now.text) outside.later
  rw [hinv.history_of_alone hi halone rfl] at hwritten
  refine hinv.write hi halone (fun h => found_appendMessage h ..) ?_ (fun _ => hwritten) rfl
  split_ifs with hreturned
  · have hfound : s.manager.found (normalized key) = true := by
      rw [found, hkey]
      exact hinv.phases i _ hi
    rw [persisted, hfound] at hwritten
    cases hutf8 : (SessionMessage.ofText "user" text outside.now.text).toJsonl.isUtf8 with
    | true =>
      rw [hutf8, if_pos ⟨rfl, rfl⟩] at hwritten
      exact ⟨_, hwritten⟩
    | false =>
      have hthrown : (s.manager.appendText key "user" text none outside.now
          outside.later).2 = none :=
        appendMessage_snd_of_not_utf8 hfound hutf8 outside.later
      rw [hthrown] at hreturned
      cases hreturned
  · trivial

theorem Consistent.fetch (hinv : Consistent key s) {before : List SessionMessage}
    (hi : s.phases[i]? = some (.appended before))
    (hcount : (s.manager.getHistory key (-1)).length < 2 ^ 31)
    (hadvance : advance key s outside (.appended before) = some (s', phase')) :
    Consistent key { s' with phases := s.phases.set i phase' } := by
  cases hadvance
  obtain ⟨own, hown⟩ := hinv.phases i _ hi
  refine hinv.quiet hi rfl id rfl trivial rfl ?_
  rintro h hmem
  rcases List.mem_append.1 hmem with hold | hnew
  · exact hinv.handed h hold
  · rw [List.mem_singleton.1 hnew]
    dsimp only
    rw [getHistory_max (by decide) hcount, hown]
    exact dropLast_rtake

theorem Consistent.persist (hinv : Consistent key s) {msg : SessionMessage} (hi : s.phases[i]? = some (.persisting (msg :: msgs)))
    (halone : s.Alone i)
    (hadvance : advance key s outside (.persisting (msg :: msgs)) = some (s', phase')) :
    Consistent key { s' with phases := s.phases.set i phase' } := by
  cases hadvance
  have hwritten := getHistory_appendMessage_eq s.manager (rfl : normalized key = _) msg outside.now
  rw [hinv.history_of_alone hi halone rfl] at hwritten
  refine hinv.write hi halone (fun h => found_appendMessage h ..) ?_ (fun _ => hwritten) rfl
  split_ifs
  · trivial
  · trivial

theorem Consistent.reset (hinv : Consistent key s) {history : List SessionMessage}
    (hi : s.phases[i]? = some (.compacting history))
    (hok : s.Undisturbed key i outside (.compacting history))
    (hadvance : advance key s outside (.compacting history) = some (s', phase')) :
    Consistent key { s' with phases := s.phases.set i phase' } := by
  cases hadvance
  obtain ⟨halone, hutf8, hsid, hfresh, hcount⟩ := hok
  obtain ⟨hfound, hhistory⟩ := hinv.phases i _ hi
  rw [resetSession_snd hutf8 key hsid outside.now outside.later, Option.isSome_some, if_pos rfl]
  have hempty := getHistory_resetSession s.manager key outside.later hfresh
  have hmsgs : (s.manager.resetSession key outside.sid outside.now outside.later).1.getHistory
      key (-1) ++ (keptMessages history).map SessionMessage.readBack =
        (s.messages.rtake 20).map SessionMessage.readBack := by
    rw [hempty, List.nil_append, keptMessages_eq hcount, ← hhistory,
      hinv.history_of_alone hi halone rfl]
  generalize keptMessages history = msgs at hmsgs ⊢
  obtain ⟨hself, hdone⟩ := phaseInv_reappending (found_resetSession hfound ..) hmsgs
  exact hinv.write hi halone (fun h => found_resetSession h ..) hself hdone rfl

theorem Consistent.reappend (hinv : Consistent key s) {msg : SessionMessage} (hi : s.phases[i]? = some (.reappending (msg :: msgs))) (hok : s.Undisturbed key i outside (.reappending (msg :: msgs)))
    (hadvance : advance key s outside (.reappending (msg :: msgs)) = some (s', phase')) :
    Consistent key { s' with phases := s.phases.set i phase' } := by
  cases hadvance
  obtain ⟨halone, hutf8, hmsg⟩ := hok
  obtain ⟨hfound, hmessages⟩ := hinv.phases i _ hi
  rw [appendMessage_snd hutf8 key hmsg outside.now, Option.isSome_some, if_pos rfl]
  have hwritten := getHistory_appendMessage_eq s.manager (rfl : normalized key = _) msg outside.now
  have hmsgs : (s.manager.appendMessage key msg outside.now).1.getHistory key (-1) ++
      msgs.map SessionMessage.readBack = s.messages := by
    rw [hwritten, persisted, if_pos ⟨hfound, hmsg⟩, List.append_assoc]
    exact hmessages
  obtain ⟨hself, hdone⟩ := phaseInv_reappending (found_appendMessage hfound ..) hmsgs
  exact hinv.write hi halone (fun h => found_appendMessage h ..) hself hdone rfl

theorem Consistent.advance (hkey : normalized (normalized key) = normalized key)
    (hinv : Consistent key s) (hi : s.phases[i]? = some phase)
    (hok : s.Undisturbed key i outside phase)
    (hadvance : advance key s outside phase = some (s', phase')) :
    Consistent key { s' with phases := s.phases.set i phase' } := by
  have hphase := hinv.phases i phase hi
  cases phase with
  | arrived text =>
    cases hadvance
    refine hinv.quiet hi rfl (fun _ => found_getOrCreate ..) (getHistory_getOrCreate _ _ _ _ _ hok)
      ?_ rfl hinv.handed
    split_ifs
    · exact found_getOrCreate ..
    · trivial
  | created text =>
    cases hadvance
    refine hinv.quiet hi rfl id rfl ?_ rfl hinv.handed
    split_ifs
    · exact hphase
    · exact hphase
  | unnamed text =>
    cases hadvance
    refine hinv.quiet hi rfl (fun h => found_updateDisplayName h ..)
      (getHistory_updateDisplayName ..) ?_ rfl hinv.handed
    split_ifs
    · exact found_updateDisplayName hphase ..
    · trivial
  | named text => exact hinv.appendOwn hkey hi hok hadvance
  | appended before => exact hinv.fetch hi hok hadvance
  | inLoop =>
    cases hadvance
    exact hinv.quiet hi rfl id rfl trivial rfl hinv.handed
  | persisting msgs =>
    cases msgs with
    | nil =>
      cases hadvance
      exact hinv.quiet hi rfl id rfl trivial rfl hinv.handed
    | cons msg msgs => exact hinv.persist hi hok hadvance
  | compact =>
    cases hadvance
    refine hinv.quiet hi rfl id rfl ?_ rfl hinv.handed
    split_ifs with hlong
    · exact ⟨found_of_lt_length hlong, rfl⟩
    · trivial
  | compacting history => exact hinv.reset hi hok hadvance
  | reappending msgs =>
    cases msgs with
    | nil =>
      cases hadvance
      exact hinv.quiet hi rfl id rfl trivial rfl hinv.handed
    | cons msg msgs => exact hinv.reappend hi hok hadvance
  | done => cases hadvance

end Next

theorem Consistent.arrive {key : String} {s : AgentRequests} {phase : Phase}
    (hinv : Consistent key s) (hphase : PhaseInv key s.manager s.messages phase) :
    Consistent key { s with phases := s.phases ++ [phase] } := by
  refine ⟨fun j q hj => ?_, fun hnone => hinv.history fun j q hj => ?_, hinv.handed⟩
  · rcases List.mem_append.1 (List.mem_of_getElem? hj) with hold | hnew
    · obtain ⟨k, hk⟩ := List.getElem?_of_mem hold
      exact hinv.phases k q hk
    · rw [List.mem_singleton.1 hnew]
      exact hphase
  · obtain ⟨hlt, -⟩ := List.getElem?_eq_some_iff.1 hj
    exact hnone j q ((List.getElem?_append_left hlt).trans hj)

theorem Consistent.step {key : String} (hkey : normalized (normalized key) = normalized key)
    {s s' : AgentRequests} {a : RequestStep} (hinv : Consistent key s) (hok : s.Ok key a)
    (hstep : step key s a = some s') : Consistent key s' := by
  cases a with
  | message text =>
    rw [AgentRequests.step] at hstep
    split_ifs at hstep
    cases hstep
    exact hinv.arrive trivial
  | compact =>
    cases hstep
    exact hinv.arrive trivial
  | next i outside =>
    obtain ⟨phase, hi, hnext⟩ := Option.bind_eq_some_iff.1 hstep
    obtain ⟨⟨s₁, phase'⟩, hadvance, rfl⟩ := Option.map_eq_some_iff.1 hnext
    exact hinv.advance hkey hi (hok phase hi) hadvance

/-- **The requests see the history of their session.**  In every run whose steps meet the
condition, for a key on which normalizing is idempotent: every agent loop is given the last of
the messages that the session had before the call's own, and unless a `/compact` is appending
messages again, no message is missing from the transcript. -/
theorem requests_see_history {key : String} (hkey : StableKey key.toList) {m : SessionManager}
    {as : List RequestStep} {s : AgentRequests} (hrun : exec (step key) (start key m) as = some s)
    (hok : Along (step key) (Ok key) (start key m) as) :
    (∀ h ∈ s.handed, h.history = h.before.rtake 49) ∧
      ((∀ phase ∈ s.phases, phase.isReappending = false) →
        s.manager.getHistory key (-1) = s.messages) := by
  have hstable := (normalized_idem_iff key).2 hkey
  have hstart : Consistent key (start key m) := ⟨nofun, fun _ => rfl, nofun⟩
  have hinv : Consistent key s :=
    exec_invariant (fun _ _ _ h hok hstep => h.step hstable hok hstep) hstart hok hrun
  exact ⟨hinv.handed, fun hnone =>
    hinv.history fun _ phase hj => hnone phase (List.mem_of_getElem? hj)⟩

def quiet : Outside :=
  ⟨"1", .empty, .empty, [("assistant", [ContentBlock.makeText "ok"])]⟩

/-- One request after the other, and a `/compact` that finds too few messages. -/
def oneByOne : List RequestStep :=
  .message "a" :: List.replicate 7 (.next 0 quiet) ++
    .message "b" :: List.replicate 6 (.next 1 quiet) ++ [.compact, .next 2 quiet]

/-- The second request sees the messages of the first one. -/
theorem requests_see_history_oneByOne :
    ∃ s, exec (step "agent:main:main") (start "agent:main:main" emptySession) oneByOne = some s ∧
      (∀ h ∈ s.handed, h.history = h.before.rtake 49) ∧
        ((∀ phase ∈ s.phases, phase.isReappending = false) →
          s.manager.getHistory "agent:main:main" (-1) = s.messages) := by
  refine ⟨_, (Option.some_get (by decide +kernel)).symm, ?_⟩
  exact requests_see_history ((normalized_idem_iff _).1 (by decide +kernel))
    (Option.some_get _).symm (by decide +kernel)

/-- Two requests append their messages before the first one fetches the history. -/
def bothAppend : List RequestStep :=
  [.message "a", .message "b"] ++ List.replicate 4 (.next 0 quiet) ++
    List.replicate 3 (.next 1 quiet) ++ [.next 0 quiet]

/-- The first request then sees its own message. -/
theorem not_requests_see_history :
    ¬ ∀ (key : String) (m : SessionManager) (as : List RequestStep) (s : AgentRequests),
      StableKey key.toList → exec (step key) (start key m) as = some s →
        (∀ h ∈ s.handed, h.history = h.before.rtake 49) ∧
          ((∀ phase ∈ s.phases, phase.isReappending = false) →
            s.manager.getHistory key (-1) = s.messages) := by
  rintro h
  have hseen := (h "agent:main:main" emptySession bothAppend _
    ((normalized_idem_iff _).1 (by decide +kernel))
    (Option.some_get (by decide +kernel)).symm).1
  have hlength := fun e he => congrArg List.length (hseen e he)
  revert hlength
  decide +kernel

end AgentRequests

end RavBot.Gateway
