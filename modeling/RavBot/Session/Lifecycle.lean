import RavBot.Session.HistoryEffects

/-!
# The life of a session

The policies of the sessions are in a table of their own, which `DeleteSession` does not look at; so a session that is
created after a deletion has the policy of the one that was deleted.  And a text that is appended goes to the session
of the key that was normalized twice.  `session_lifecycle_iff` says when a deleted session leaves nothing behind, and
when an operation keeps to the session of its key.
-/

namespace RavBot.Session

open RavBot.Lib RavBot.Core

structure SessionPolicy where
  modelOverride : Option String := none
  toolWhitelist : List String := []
  outputFormat : Option String := none
  rateLimit : Option (BitVec 32) := none
  customSettings : List (String × String) := []
  deriving DecidableEq

/-- `SessionManager` with its policies. -/
structure ManagedSessions extends SessionManager where
  policies : Table String SessionPolicy

/-- A call of an operation that changes a session or a policy. -/
inductive SessionOp where
  | store (op : StoreOp)
  | setPolicy (key : String) (policy : SessionPolicy)

/-- The key of a call. -/
def StoreOp.key : StoreOp → String
  | getOrCreate key _ _ _ _ => key
  | appendMessage key _ _ => key
  | appendText key _ _ _ _ _ => key
  | appendTranscriptEntry key _ _ => key
  | deleteSession key => key
  | updateDisplayName key _ => key
  | resetSession key _ _ _ => key
  | incrementCompactionCount key => key

def SessionOp.key : SessionOp → String
  | store op => op.key
  | setPolicy key _ => key

def SessionManager.getCompactionCount (m : SessionManager) (key : String) : Int :=
  match m.store.lookup (normalized key) with
  | some info => info.compactionCount
  | none => 0

namespace ManagedSessions

/-- A manager of an empty directory. -/
def fresh (sessionsDir : String) : ManagedSessions where
  sessionsDir := sessionsDir
  store := ∅
  indexFile := none
  transcripts := ∅
  policies := ∅

def setPolicy (s : ManagedSessions) (key : String) (policy : SessionPolicy) : ManagedSessions :=
  { s with policies := s.policies.insert (normalized key) policy }

def getPolicy (s : ManagedSessions) (key : String) : SessionPolicy :=
  (s.policies.lookup (normalized key)).getD {}

def step (s : ManagedSessions) : SessionOp → ManagedSessions
  | .store op => { s with toSessionManager := (op.run s.toSessionManager).1 }
  | .setPolicy key policy => s.setPolicy key policy

def run (s : ManagedSessions) (ops : List SessionOp) : ManagedSessions := ops.foldl step s

end ManagedSessions

/-! ## Session ids -/

/-- A text that `generate_session_id` returns. -/
def IsSessionId (sid : String) : Prop :=
  sid.toList.length = 12 ∧ ∀ c ∈ sid.toList, c ∈ "0123456789abcdef".toList

/-- The id is none of the sessions and of the transcripts. -/
structure SessionManager.NewId (m : SessionManager) (sid : String) : Prop where
  generated : IsSessionId sid
  unused : ∀ key info, m.store.lookup key = some info → info.sessionId ≠ sid
  fresh : m.FreshId sid

def StoreOp.sid? : StoreOp → Option String
  | getOrCreate _ _ _ sid _ => some sid
  | resetSession _ sid _ _ => some sid
  | _ => none

def SessionOp.DrawsNew (s : ManagedSessions) : SessionOp → Prop
  | store op => ∀ sid ∈ op.sid?, s.toSessionManager.NewId sid
  | setPolicy _ _ => True

/-- A manager after some calls that got new ids. -/
inductive ManagedSessions.Reachable : ManagedSessions → Prop
  | fresh (sessionsDir : String) : Reachable (fresh sessionsDir)
  | step {s : ManagedSessions} (h : Reachable s) (op : SessionOp) (hnew : op.DrawsNew s) : Reachable (s.step op)

/-! ## What is to hold -/

namespace ManagedSessions

/-- The sessions of all other keys have the histories, the entries and the policies that they had. -/
def KeepsOthers (s s' : ManagedSessions) (key : String) : Prop :=
  ∀ key', normalized key' ≠ normalized key →
    (∀ n, s'.getHistory key' n = s.getHistory key' n) ∧
      s'.store.lookup (normalized key') = s.store.lookup (normalized key') ∧ s'.getPolicy key' = s.getPolicy key'

def policyFor (key : String) : SessionOp → Option SessionPolicy
  | .setPolicy key' policy => if normalized key' = normalized key then some policy else none
  | .store _ => none

def policySince (key : String) (ops : List SessionOp) : Option SessionPolicy := ops.reverse.findSome? (policyFor key)

/-- The session of a key was deleted, and some calls were made. -/
def deletedAnd (s : ManagedSessions) (key : String) (ops : List SessionOp) : ManagedSessions :=
  (s.step (.store (.deleteSession key))).run ops

def created (s : ManagedSessions) (key displayName channel sid : String) (now : Timestamp) : ManagedSessions :=
  s.step (.store (.getOrCreate key displayName channel sid now))

/-- A session has no messages and no compactions, and the given policy. -/
structure Blank (s : ManagedSessions) (key : String) (policy : SessionPolicy) : Prop where
  history (n : Int) : s.getHistory key n = []
  count : s.getCompactionCount key = 0
  policy : s.getPolicy key = policy

/-- After a session was deleted and some calls were made, the session that is created is blank, with the policy that was
set since. -/
def LeavesNothing (s : ManagedSessions) (key : String) (ops : List SessionOp) (key' displayName channel sid : String)
    (now : Timestamp) : Prop :=
  Blank ((s.deletedAnd key ops).created key' displayName channel sid now) key' ((policySince key ops).getD {})

end ManagedSessions

/-- A text goes to the session of its key: normalizing is idempotent on the key, or there is no session under the key
that was normalized twice, or the message is not UTF-8. -/
def SessionOp.StaysWithKey (s : ManagedSessions) : SessionOp → Prop
  | store (.appendText key role text usage now _) =>
    normalized (normalized key) = normalized key ∨ s.found (normalized key) = false ∨
      (SessionMessage.toJsonl ⟨role, [ContentBlock.makeText text], now.text, usage⟩).isUtf8 = false
  | _ => True

/-! ## What an operation touches -/

namespace SessionManager

/-- Only the entry of a normalized key and the transcript of its session are touched, and the session keeps its id or
gets the given one. -/
structure Touches (key : String) (drawn : Option String) (m m' : SessionManager) : Prop where
  dir : m'.sessionsDir = m.sessionsDir
  entries : ∀ k ≠ key, m'.store.lookup k = m.store.lookup k
  own : ∀ info', m'.store.lookup key = some info' →
    (∃ info, m.store.lookup key = some info ∧ info.sessionId = info'.sessionId) ∨ info'.sessionId ∈ drawn
  transcripts : ∀ sid, IsSessionId sid → (∀ info, m.store.lookup key = some info → info.sessionId ≠ sid) →
    m'.transcripts.lookup (m.transcriptPath sid) = m.transcripts.lookup (m.transcriptPath sid)

theorem touches_refl (key : String) (drawn : Option String) (m : SessionManager) : Touches key drawn m m :=
  ⟨rfl, fun _ _ => rfl, fun info h => .inl ⟨info, h, rfl⟩, fun _ _ _ => rfl⟩

variable {key : String} {drawn : Option String} {m : SessionManager}

variable {m' : SessionManager}

theorem Touches.saveStore (h : Touches key drawn m m') : Touches key drawn m m'.saveStore.1 := by
  obtain ⟨file, hfile⟩ := saveStore_fst m'
  rw [hfile]
  exact ⟨h.dir, h.entries, h.own, h.transcripts⟩

theorem Touches.insert (h : Touches key drawn m m')
    (info : SessionInfo) (hinfo : (∃ info', m.store.lookup key = some info' ∧ info'.sessionId = info.sessionId) ∨
      info.sessionId ∈ drawn) : Touches key drawn m { m' with store := m'.store.insert key info } := by
  refine ⟨h.dir, fun k hk => (AList.lookup_insert_ne hk).trans (h.entries k hk), fun info' hinfo' => ?_, h.transcripts⟩
  rw [AList.lookup_insert] at hinfo'
  cases hinfo'
  exact hinfo

theorem Touches.erase (h : Touches key drawn m m') :
    Touches key drawn m { m' with store := m'.store.erase key } := by
  refine ⟨h.dir, fun k hk => (AList.lookup_erase_ne hk).trans (h.entries k hk), fun info' hinfo' => ?_, h.transcripts⟩
  rw [AList.lookup_erase] at hinfo'
  cases hinfo'

theorem transcriptPath_injective (m : SessionManager) : Function.Injective m.transcriptPath := by
  intro sid sid' h
  have hlist := congrArg String.toList h
  simp only [transcriptPath, String.toList_append, List.append_assoc, List.append_cancel_left_eq] at hlist
  exact String.toList_injective (List.append_cancel_right hlist)

theorem archive_ne_transcriptPath (m : SessionManager) {sid sid' : String} (hsid : IsSessionId sid)
    (hsid' : IsSessionId sid') (stamp : String) :
    m.transcriptPath sid ++ ".reset." ++ stamp ≠ m.transcriptPath sid' := by
  intro h
  have hlength := congrArg (fun path => path.toList.length) h
  simp only [transcriptPath, String.toList_append, List.length_append, hsid.1, hsid'.1] at hlength
  have hreset : ".reset.".toList.length = 7 := rfl
  omega

variable {info : SessionInfo}

theorem touches_transcript (drawn : Option String)
    (hlookup : m.store.lookup key = some info) (lines : List (Option Json)) :
    Touches key drawn m { m with transcripts := m.transcripts.insert (m.transcriptPath info.sessionId) lines } := by
  refine ⟨rfl, fun _ _ => rfl, fun info h => .inl ⟨info, h, rfl⟩, fun sid _ hsid => AList.lookup_insert_ne ?_⟩
  exact fun hpath => hsid info hlookup (m.transcriptPath_injective hpath).symm

theorem touches_removed (drawn : Option String)
    (hlookup : m.store.lookup key = some info) :
    Touches key drawn m { m with transcripts := m.transcripts.erase (m.transcriptPath info.sessionId) } := by
  refine ⟨rfl, fun _ _ => rfl, fun info h => .inl ⟨info, h, rfl⟩, fun sid _ hsid => AList.lookup_erase_ne ?_⟩
  exact fun hpath => hsid info hlookup (m.transcriptPath_injective hpath).symm

theorem touches_archived (drawn : Option String)
    (hlookup : m.store.lookup key = some info) (hid : IsSessionId info.sessionId) (stamp : String) :
    Touches key drawn m (m.renameTranscript (m.transcriptPath info.sessionId)
      (m.transcriptPath info.sessionId ++ ".reset." ++ stamp)) := by
  rw [renameTranscript]
  cases m.transcripts.lookup (m.transcriptPath info.sessionId) with
  | none => exact touches_refl key drawn m
  | some lines =>
    refine ⟨rfl, fun _ _ => rfl, fun info h => .inl ⟨info, h, rfl⟩, fun sid hsid hother => ?_⟩
    dsimp only
    rw [AList.lookup_insert_ne (m.archive_ne_transcriptPath hid hsid stamp).symm, AList.lookup_erase_ne]
    exact fun hpath => hother info hlookup (m.transcriptPath_injective hpath).symm

/-- The sessions have ids of their own. -/
structure IdsDistinct (m : SessionManager) : Prop where
  generated : ∀ key info, m.store.lookup key = some info → IsSessionId info.sessionId
  distinct : ∀ key key' info info', m.store.lookup key = some info → m.store.lookup key' = some info' →
    info.sessionId = info'.sessionId → key = key'

theorem touches_appendMessage (m : SessionManager) (key : String) (msg : SessionMessage) (now : Timestamp) :
    Touches (normalized key) none m (m.appendMessage key msg now).1 := by
  rw [appendMessage]
  cases hlookup : m.store.lookup (normalized key) with
  | none => exact touches_refl _ _ _
  | some info =>
    dsimp only
    cases msg.toJsonl.dump with
    | none => exact touches_transcript none hlookup (m.transcript info.sessionId)
    | some line =>
      have happended := touches_transcript none hlookup (m.transcript info.sessionId ++ [some line])
      have hupdated := happended.insert { info with updatedAt := now.text } (.inl ⟨info, hlookup, rfl⟩)
      exact hupdated.saveStore

end SessionManager

namespace StoreOp

open SessionManager

def target : StoreOp → String
  | appendText key _ _ _ _ _ => normalized (normalized key)
  | op => normalized op.key

theorem touches_run {m : SessionManager} (hm : m.IdsDistinct) (op : StoreOp) :
    Touches op.target op.sid? m (op.run m).1 := by
  cases op with
  | getOrCreate key displayName channel sid now =>
    show Touches (normalized key) (some sid) m (m.getOrCreate key displayName channel sid now).1
    rw [SessionManager.getOrCreate]
    cases m.store.lookup (normalized key) with
    | some info => exact touches_refl _ _ _
    | none =>
      have hcreated := (touches_refl (normalized key) (some sid) m).insert
        (newSession (normalized key) displayName channel sid now) (.inr rfl)
      exact hcreated.saveStore
  | appendMessage key msg now => exact touches_appendMessage m key msg now
  | appendText key role text usage now later => exact touches_appendMessage m (normalized key) _ later
  | appendTranscriptEntry key entry now =>
    show Touches (normalized key) none m (m.appendTranscriptEntry key entry now).1
    rw [SessionManager.appendTranscriptEntry]
    cases hlookup : m.store.lookup (normalized key) with
    | none => exact touches_refl _ _ _
    | some info =>
      dsimp only
      cases entry.dump with
      | none => exact touches_transcript none hlookup (m.transcript info.sessionId)
      | some line =>
        have happended := touches_transcript none hlookup (m.transcript info.sessionId ++ [some line])
        have hupdated := happended.insert { info with updatedAt := now.text } (.inl ⟨info, hlookup, rfl⟩)
        exact hupdated.saveStore
  | deleteSession key =>
    show Touches (normalized key) none m (m.deleteSession key).1
    rw [SessionManager.deleteSession]
    cases hlookup : m.store.lookup (normalized key) with
    | none => exact touches_refl _ _ _
    | some info => exact (touches_removed none hlookup).erase.saveStore
  | updateDisplayName key name =>
    show Touches (normalized key) none m (m.updateDisplayName key name).1
    rw [SessionManager.updateDisplayName]
    cases hlookup : m.store.lookup (normalized key) with
    | none => exact touches_refl _ _ _
    | some info =>
      have hrenamed := (touches_refl (normalized key) none m).insert { info with displayName := name }
        (.inl ⟨info, hlookup, rfl⟩)
      exact hrenamed.saveStore
  | resetSession key sid now later =>
    show Touches (normalized key) (some sid) m (m.resetSession key sid now later).1
    rw [SessionManager.resetSession]
    cases hlookup : m.store.lookup (normalized key) with
    | none => exact touches_refl _ _ _
    | some info =>
      have harchived := touches_archived (some sid) hlookup (hm.generated _ _ hlookup) now.text
      have hreset := harchived.insert { info with sessionId := sid, updatedAt := later.text } (.inr rfl)
      exact hreset.saveStore
  | incrementCompactionCount key =>
    show Touches (normalized key) none m (m.incrementCompactionCount key).1
    rw [SessionManager.incrementCompactionCount, countCompaction]
    cases hlookup : m.store.lookup (normalized key) with
    | none => exact touches_refl _ _ _
    | some info =>
      have hcounted := (touches_refl (normalized key) none m).insert
        { info with compactionCount := info.compactionCount + 1 } (.inl ⟨info, hlookup, rfl⟩)
      exact hcounted.saveStore

end StoreOp

/-! ## Ids stay distinct -/

theorem SessionManager.Touches.idsDistinct {key : String} {drawn : Option String} {m m' : SessionManager}
    (h : Touches key drawn m m') (hm : m.IdsDistinct) (hnew : ∀ sid ∈ drawn, m.NewId sid) : m'.IdsDistinct := by
  -- a session has an id that it had, or the new one
  have hid (k : String) (info' : SessionInfo) (hlookup : m'.store.lookup k = some info') :
      (∃ info, m.store.lookup k = some info ∧ info.sessionId = info'.sessionId) ∨
        k = key ∧ m.NewId info'.sessionId := by
    by_cases hk : k = key
    · subst hk
      exact (h.own info' hlookup).imp_right fun hdrawn => ⟨rfl, hnew _ hdrawn⟩
    · exact .inl ⟨info', (h.entries k hk) ▸ hlookup, rfl⟩
  constructor
  · intro k info' hlookup
    rcases hid k info' hlookup with ⟨info, hinfo, heq⟩ | ⟨-, hfresh⟩
    · exact heq ▸ hm.generated k info hinfo
    · exact hfresh.generated
  · intro k₁ k₂ info₁ info₂ hlookup₁ hlookup₂ heq
    rcases hid k₁ info₁ hlookup₁ with ⟨i₁, hi₁, heq₁⟩ | ⟨hk₁, hfresh₁⟩ <;>
      rcases hid k₂ info₂ hlookup₂ with ⟨i₂, hi₂, heq₂⟩ | ⟨hk₂, hfresh₂⟩
    · exact hm.distinct k₁ k₂ i₁ i₂ hi₁ hi₂ (by rw [heq₁, heq, heq₂])
    · exact absurd (heq₁.trans heq) (hfresh₂.unused k₁ i₁ hi₁)
    · exact absurd (heq₂.trans heq.symm) (hfresh₁.unused k₂ i₂ hi₂)
    · exact hk₁.trans hk₂.symm

namespace ManagedSessions

variable {s : ManagedSessions}

theorem Reachable.idsDistinct (h : Reachable s) : s.IdsDistinct := by
  induction h with
  | fresh sessionsDir =>
    constructor
    · intro key info hlookup
      cases hlookup
    · intro key key' info info' hlookup
      cases hlookup
  | step _ op hnew ih =>
    cases op with
    | store op => exact (op.touches_run ih).idsDistinct ih hnew
    | setPolicy key policy => exact ih

/-! ## Other sessions -/

variable {key : String}

theorem keepsOthers_of_touches {s' : ManagedSessions} {drawn : Option String} (hs : s.IdsDistinct)
    (h : SessionManager.Touches (normalized key) drawn s.toSessionManager s'.toSessionManager)
    (hpolicies : s'.policies = s.policies) : KeepsOthers s s' key := by
  intro key' hkey'
  have hentry := h.entries _ hkey'
  refine ⟨fun n => ?_, hentry, by rw [getPolicy, getPolicy, hpolicies]⟩
  rw [SessionManager.getHistory, SessionManager.getHistory, hentry]
  cases hlookup : s.store.lookup (normalized key') with
  | none => rfl
  | some info =>
    have hother (info' : SessionInfo) (hinfo' : s.store.lookup (normalized key) = some info') :
        info'.sessionId ≠ info.sessionId := by
      exact fun heq => hkey' (hs.distinct _ _ _ _ hinfo' hlookup heq).symm
    have htranscript : s'.transcript info.sessionId = s.transcript info.sessionId := by
      have hpath : s'.transcriptPath info.sessionId = s.transcriptPath info.sessionId := by
        rw [SessionManager.transcriptPath, SessionManager.transcriptPath, h.dir]
      rw [SessionManager.transcript, SessionManager.transcript, hpath,
        h.transcripts _ (hs.generated _ _ hlookup) hother]
    dsimp only
    rw [htranscript]

theorem keepsOthers_step_iff (hs : s.IdsDistinct) (op : SessionOp) :
    KeepsOthers s (s.step op) op.key ↔ op.StaysWithKey s := by
  cases op with
  | setPolicy key policy =>
    refine iff_of_true (fun key' hkey' => ⟨fun _ => rfl, rfl, ?_⟩) trivial
    have hne : (s.policies.insert (normalized key) policy).lookup (normalized key') =
        s.policies.lookup (normalized key') := AList.lookup_insert_ne hkey'
    exact congrArg (Option.getD · {}) hne
  | store op =>
    have htouches := op.touches_run hs
    cases op with
    | appendText key role text usage now later =>
      let msg : SessionMessage := ⟨role, [ContentBlock.makeText text], now.text, usage⟩
      show _ ↔ _ ∨ _ ∨ msg.toJsonl.isUtf8 = false
      constructor
      · intro hkeeps
        rw [or_iff_not_imp_left]
        intro hunstable
        by_contra hfound
        rw [not_or, Bool.not_eq_false, Bool.not_eq_false] at hfound
        have hhistory := (hkeeps (normalized key) hunstable).1 (-1)
        obtain ⟨info, hlookup⟩ := Option.isSome_iff_exists.1 hfound.1
        have happended : (s.appendMessage (normalized key) msg later).1.getHistory (normalized key) (-1) =
            s.getHistory (normalized key) (-1) ++ [msg.readBack] :=
          SessionManager.getHistory_appendMessage hlookup rfl hfound.2
        have hlonger := congrArg List.length (happended.symm.trans hhistory)
        rw [List.length_append, List.length_singleton] at hlonger
        omega
      · rintro (hstable | hmissing | hutf8)
        · rw [StoreOp.target, hstable] at htouches
          exact keepsOthers_of_touches hs htouches rfl
        · have hnone : s.store.lookup (normalized (normalized key)) = none :=
            Option.isNone_iff_eq_none.1 (Option.isSome_eq_false_iff.1 hmissing)
          have hsame : (s.appendMessage (normalized key) msg later).1 = s.toSessionManager := by
            rw [SessionManager.appendMessage, hnone]
          intro key' _
          refine ⟨fun n => ?_, ?_, rfl⟩
          · exact congrArg (fun m => m.getHistory key' n) hsame
          · exact congrArg (fun m => m.store.lookup (normalized key')) hsame
        · intro key' _
          refine ⟨fun n => ?_, ?_, rfl⟩
          · exact SessionManager.getHistory_appendMessage_of_not_utf8 hutf8 (normalized key) key' n later
          · have hfails : (StoreOp.appendText key role text usage now later).LineFails := ⟨_, rfl, hutf8⟩
            exact congrArg (AList.lookup (normalized key')) (StoreOp.run_of_lineFails s.toSessionManager hfails).1
    | _ => exact iff_of_true (keepsOthers_of_touches hs htouches rfl) trivial

/-! ## Deleted sessions -/

theorem getPolicy_run (s : ManagedSessions) (key : String) (ops : List SessionOp) :
    (s.run ops).getPolicy key = (policySince key ops).getD (s.getPolicy key) := by
  induction ops using List.reverseRecOn with
  | nil => rfl
  | append_singleton ops op ih =>
    have hrun : s.run (ops ++ [op]) = (s.run ops).step op := by
      rw [run, List.foldl_append, List.foldl_cons, List.foldl_nil, run]
    have hsince : policySince key (ops ++ [op]) = (policySince key [op]).or (policySince key ops) := by
      rw [policySince, policySince, policySince, List.reverse_append, List.findSome?_append]
    rw [hrun, hsince]
    cases op with
    | store op => exact ih
    | setPolicy key' policy =>
      have hsingle : policySince key [SessionOp.setPolicy key' policy] =
          if normalized key' = normalized key then some policy else none := by
        rw [policySince, List.reverse_singleton, List.findSome?_cons, List.findSome?_nil, policyFor]
        split_ifs <;> rfl
      rw [hsingle, getPolicy, step, setPolicy, Table.lookup_insert_ite]
      by_cases hkey : normalized key' = normalized key
      · rw [if_pos hkey.symm, if_pos hkey]
        rfl
      · rw [if_neg (Ne.symm hkey), if_neg hkey, Option.none_or, ← ih, getPolicy]

theorem getHistory_eq_nil {m : SessionManager} (h : m.getHistory key (-1) = []) (n : Int) :
    m.getHistory key n = [] := by
  cases hlookup : m.store.lookup (normalized key) with
  | none => rw [SessionManager.getHistory, hlookup]
  | some info =>
    rw [SessionManager.getHistory_of_lookup hlookup] at h
    rw [SessionManager.getHistory, hlookup]
    dsimp only
    rw [h, List.drop_nil, ite_self]

theorem blank_created {sid : String} (hmissing : s.found key = false) (hnew : s.NewId sid)
    (displayName channel : String) (now : Timestamp) :
    Blank (s.created key displayName channel sid now) key (s.getPolicy key) := by
  have hnone : s.store.lookup (normalized key) = none :=
    Option.isNone_iff_eq_none.1 (Option.isSome_eq_false_iff.1 hmissing)
  refine ⟨getHistory_eq_nil ?_, ?_, rfl⟩
  · have hkept : (s.created key displayName channel sid now).getHistory key (-1) = s.getHistory key (-1) :=
      s.getHistory_getOrCreate key displayName channel now hnew.fresh
    rw [hkept, SessionManager.getHistory, hnone]
  · have hentry : (s.created key displayName channel sid now).store.lookup (normalized key) =
        some (SessionManager.newSession (normalized key) displayName channel sid now) := by
      show (s.getOrCreate key displayName channel sid now).1.store.lookup (normalized key) = _
      rw [SessionManager.getOrCreate, hnone]
      dsimp only
      rw [SessionManager.saveStore_store, AList.lookup_insert]
    rw [SessionManager.getCompactionCount, hentry]
    rfl

theorem leavesNothing_iff {ops : List SessionOp} {key' sid : String}
    (hkey' : normalized key' = normalized key) (hmissing : (s.deletedAnd key ops).found key' = false)
    (hnew : (s.deletedAnd key ops).NewId sid) (displayName channel : String) (now : Timestamp) :
    s.LeavesNothing key ops key' displayName channel sid now ↔
      s.getPolicy key = {} ∨ (policySince key ops).isSome := by
  have hblank := blank_created hmissing hnew displayName channel now
  have hpolicy : (s.deletedAnd key ops).getPolicy key' = (policySince key ops).getD (s.getPolicy key) := by
    rw [getPolicy, hkey', ← getPolicy, deletedAnd, getPolicy_run]
    rfl
  rw [hpolicy] at hblank
  constructor
  · intro h
    have hsame := hblank.policy.symm.trans h.policy
    cases hsince : policySince key ops with
    | none =>
      rw [hsince] at hsame
      exact .inl hsame
    | some policy => exact .inr rfl
  · intro h
    have hsame : (policySince key ops).getD (s.getPolicy key) = (policySince key ops).getD {} := by
      rcases h with h | h
      · rw [h]
      · obtain ⟨policy, hsince⟩ := Option.isSome_iff_exists.1 h
        rw [hsince]
        rfl
    rw [LeavesNothing, ← hsame]
    exact hblank

/-- **The life of a session.**  In every state, an operation keeps the sessions of other keys exactly when it stays with
the session of its key; and a deleted session leaves nothing behind exactly when it had the default policy, or a policy
was set since. -/
theorem session_lifecycle_iff {s : ManagedSessions} (hs : s.Reachable) :
    (∀ op : SessionOp, KeepsOthers s (s.step op) op.key ↔ op.StaysWithKey s) ∧
      ∀ (key : String) (ops : List SessionOp) (key' displayName channel sid : String) (now : Timestamp),
        normalized key' = normalized key → (s.deletedAnd key ops).found key' = false →
          (s.deletedAnd key ops).NewId sid →
            (s.LeavesNothing key ops key' displayName channel sid now ↔
              s.getPolicy key = {} ∨ (policySince key ops).isSome) :=
  ⟨keepsOthers_step_iff hs.idsDistinct, fun _ _ _ displayName channel _ now hkey' hmissing hnew =>
    leavesNothing_iff hkey' hmissing hnew displayName channel now⟩

def firstSession : SessionOp := .store (.getOrCreate "a" "" "cli" "000000000000" .empty)

theorem newId_of_empty {m : SessionManager} (hstore : m.store = ∅) (htranscripts : m.transcripts = ∅) {sid : String}
    (hsid : IsSessionId sid) : m.NewId sid := by
  refine ⟨hsid, fun key info hlookup => ?_, ?_⟩
  · rw [hstore] at hlookup
    cases hlookup
  · rw [SessionManager.FreshId, htranscripts]
    rfl

theorem isSessionId_zeros : IsSessionId "000000000000" :=
  ⟨by decide, Text.forall_of_all (by decide)⟩

theorem reachable_firstSession : Reachable ((fresh "").step firstSession) := by
  refine .step (.fresh "") firstSession fun sid hsid => ?_
  cases hsid
  exact newId_of_empty rfl rfl isSessionId_zeros

/-- The first session is deleted and created again. -/
theorem session_lifecycle_first :
    KeepsOthers ((fresh "").step firstSession) (((fresh "").step firstSession).step
        (.store (.appendText "a" "user" "hi" none .empty .empty))) "a" ∧
      ((fresh "").step firstSession).LeavesNothing "a" [] "agent:main:a" "" "cli" "000000000000" .empty := by
  obtain ⟨hkeeps, hleaves⟩ := session_lifecycle_iff reachable_firstSession
  refine ⟨(hkeeps _).2 (.inl (by decide)), (hleaves _ _ _ _ _ _ _ (by decide) (by decide) ?_).2 (.inl (by decide))⟩
  exact newId_of_empty rfl rfl isSessionId_zeros

def restricted : ManagedSessions :=
  ((fresh "").step firstSession).step (.setPolicy "a" { toolWhitelist := ["read"] })

/-- The session that is created after a restricted one was deleted is restricted. -/
theorem not_session_lifecycle :
    ¬ ∀ s : ManagedSessions, s.Reachable → (∀ op : SessionOp, KeepsOthers s (s.step op) op.key) ∧
      ∀ (key : String) (ops : List SessionOp) (key' displayName channel sid : String) (now : Timestamp),
        normalized key' = normalized key → (s.deletedAnd key ops).found key' = false →
          (s.deletedAnd key ops).NewId sid → s.LeavesNothing key ops key' displayName channel sid now := by
  intro h
  have hreachable : restricted.Reachable := .step reachable_firstSession _ trivial
  have hblank := (h restricted hreachable).2 "a" [] "a" "" "cli" "000000000000" .empty rfl (by decide)
    (newId_of_empty rfl rfl isSessionId_zeros)
  exact absurd hblank.policy (by decide)

end ManagedSessions

end RavBot.Session
