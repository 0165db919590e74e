import RavBot.Gateway.CommandQueue.Summaries

/-!
# What the waiting entries stand for

Under `summarize` an entry of a queue may stand for several submitted messages, but it keeps the id
of one.  `Tracked` adds to the system a history variable that the program does not have: for every
message that was submitted, the id of the entry that stands for it.  A merge hands the messages of
the entries it drops to the entry at the front.

`overflow_laws` uses it to say what a summary tells, `cancel_keeps_iff` to say what `Cancel` takes
away.
-/

open List

namespace RavBot.Gateway

open RavBot.Lib

/-- A submitted message, and the id of the entry that stands for it. -/
structure Message where
  id : String
  text : String
  holder : String
  deriving DecidableEq, Inhabited, Repr

def held (messages : List Message) (id : String) : List (List Char) :=
  (messages.filter (·.holder = id)).map (·.text.toList)

namespace SessionLane

/-- The queue to which `Submit` applies the cap. -/
def overflowing (lane : SessionLane) (cmd : QueuedCommand) : SessionLane :=
  (if cmd.mode = .interrupt ∧ lane.hasActive then lane.interruptActive.1 else lane).enqueue cmd

def Steers (lane : SessionLane) (mode : QueueMode) : Prop :=
  (mode = .steer ∨ mode = .steerBacklog) ∧ lane.hasActive

/-- Whether a command steers can be computed. -/
instance (lane : SessionLane) (mode : QueueMode) : Decidable (lane.Steers mode) :=
  inferInstanceAs (Decidable ((mode = .steer ∨ mode = .steerBacklog) ∧ lane.hasActive))

theorem submit_eq (lane : SessionLane) (cmd : QueuedCommand) :
    lane.submit cmd =
      if lane.Steers cmd.mode then (lane.overflowing cmd, [])
      else (lane.overflowing cmd).applyCapOverflow := by
  rw [submit, overflowing]
  by_cases hint : cmd.mode = .interrupt ∧ lane.hasActive
  · have hsteer : ¬ lane.Steers cmd.mode := by
      rw [Steers, hint.1]
      simp
    rw [if_neg hsteer]
    simp only [hint, and_self, if_true]
    rw [if_neg]
    simp
  · simp only [hint, if_false]
    rfl

end SessionLane

/-- What is merged into the front of a queue is told by its text: an entry that stands for one message
does not look like a summary, and the number of messages stays in the range of `int`. -/
def MergeTold (messages : List Message) (queue : SessionLane) : Prop :=
  match queue.pending with
  | front :: _ =>
    ((held messages front.id).length = 1 →
      ¬ SessionLane.summaryHead.isPrefixOf front.message.toList) ∧
      (held messages front.id).length + queue.merges ≤ 2147483647
  | [] => True

/-- Whether a merge is told can be computed. -/
instance (messages : List Message) (queue : SessionLane) : Decidable (MergeTold messages queue) :=
  match h : queue.pending with
  | front :: _ =>
    decidable_of_iff (((held messages front.id).length = 1 →
        ¬ SessionLane.summaryHead.isPrefixOf front.message.toList) ∧
        (held messages front.id).length + queue.merges ≤ 2147483647)
      (by rw [MergeTold, h])
  | [] => .isTrue (by rw [MergeTold, h]; trivial)

/-- What `Submit` merges in a lane is told. -/
def SubmitTold (messages : List Message) (lane : SessionLane) (cmd : QueuedCommand) : Prop :=
  ¬ lane.Steers cmd.mode → lane.drop = .summarize → 0 < (lane.overflowing cmd).merges →
    MergeTold messages (lane.overflowing cmd)

/-- Whether what `Submit` merges is told can be computed. -/
instance (messages : List Message) (lane : SessionLane) (cmd : QueuedCommand) :
    Decidable (SubmitTold messages lane cmd) :=
  inferInstanceAs (Decidable (¬ lane.Steers cmd.mode → lane.drop = .summarize →
    0 < (lane.overflowing cmd).merges → MergeTold messages (lane.overflowing cmd)))

/-- A message after an overflow that left this lane and dropped these ids: what was merged is held by
the entry at the front. -/
def takeOver (lane : SessionLane) (dropped : List String) (m : Message) : Message :=
  match lane.drop, lane.pending with
  | .summarize, front :: _ => if m.holder ∈ dropped then { m with holder := front.id } else m
  | _, _ => m

/-- The system, and what became of every message that was submitted. -/
structure Tracked where
  sys : System
  messages : List Message := []

/-! ## What an overflow hands over -/

section Held

variable {messages : List Message}

theorem held_cons (m : Message) (messages : List Message) (id : String) :
    held (m :: messages) id =
      if m.holder = id then m.text.toList :: held messages id else held messages id := by
  rw [held, filter_cons]
  by_cases h : m.holder = id
  · simp only [h, decide_true, if_true, map_cons]
    rfl
  · simp only [h, decide_false, Bool.false_eq_true, if_false]
    rfl

theorem held_append (messages messages' : List Message) (id : String) :
    held (messages ++ messages') id = held messages id ++ held messages' id := by
  rw [held, held, held, filter_append, map_append]

theorem held_eq_nil {id : String} (h : ∀ m ∈ messages, m.holder ≠ id) : held messages id = [] := by
  rw [held, map_eq_nil_iff, filter_eq_nil_iff]
  simpa using h

theorem takeOver_eq_self {lane : SessionLane} {dropped : List String}
    (h : lane.drop = .summarize → dropped = []) (m : Message) : takeOver lane dropped m = m := by
  rw [takeOver]
  split
  · next hdrop _ =>
      rw [h hdrop]
      exact if_neg not_mem_nil
  · rfl

variable {lane : SessionLane} {dropped : List String} {front : QueuedCommand}
  {kept : List QueuedCommand}

theorem holder_takeOver (dropped : List String) (hdrop : lane.drop = .summarize)
    (hp : lane.pending = front :: kept) (m : Message) :
    (takeOver lane dropped m).text = m.text ∧
      (takeOver lane dropped m).holder = if m.holder ∈ dropped then front.id else m.holder := by
  rw [takeOver, hdrop, hp]
  dsimp only
  split_ifs
  · exact ⟨rfl, rfl⟩
  · exact ⟨rfl, rfl⟩

theorem holder_takeOver_cases (lane : SessionLane) (dropped : List String) (m : Message) :
    (takeOver lane dropped m).holder = m.holder ∨
      ∃ front ∈ lane.pending, (takeOver lane dropped m).holder = front.id := by
  rw [takeOver]
  split
  · next front rest _ hp =>
      split_ifs
      · exact .inr ⟨front, hp ▸ mem_cons_self, rfl⟩
      · exact .inl rfl
  · exact .inl rfl

theorem held_takeOver_of_notMem {lane : SessionLane} {id : String} (hid : id ∉ dropped)
    (hne : ∀ front ∈ lane.pending.head?, front.id ≠ id) (messages : List Message) :
    held (messages.map (takeOver lane dropped)) id = held messages id := by
  have hsame (m : Message) : (takeOver lane dropped m).text = m.text ∧
      ((takeOver lane dropped m).holder = id ↔ m.holder = id) := by
    rw [takeOver]
    split
    · next front rest _ hp =>
        rw [hp, head?_cons] at hne
        split_ifs with hmem
        · refine ⟨rfl, iff_of_false (hne front rfl) ?_⟩
          rintro rfl
          exact hid hmem
        · exact ⟨rfl, .rfl⟩
    · exact ⟨rfl, .rfl⟩
  induction messages with
  | nil => rfl
  | cons m messages ih =>
    rw [map_cons, held_cons, held_cons, (hsame m).1, ih]
    simp only [(hsame m).2]

theorem flatMap_held_cons {m : Message} (hnodup : dropped.Nodup) (hmem : m.holder ∈ dropped) :
    (dropped.flatMap (held (m :: messages))).Perm
      (m.text.toList :: dropped.flatMap (held messages)) := by
  induction dropped with
  | nil => exact absurd hmem not_mem_nil
  | cons id dropped ih =>
    rw [nodup_cons] at hnodup
    rw [flatMap_cons, flatMap_cons, held_cons]
    by_cases h : m.holder = id
    · have hrest : dropped.flatMap (held (m :: messages)) = dropped.flatMap (held messages) := by
        refine flatMap_congr fun k hk => ?_
        rw [held_cons, if_neg]
        rintro rfl
        exact hnodup.1 (h ▸ hk)
      rw [if_pos h, hrest]
      exact .refl _
    · have hrest : m.holder ∈ dropped := (mem_cons.1 hmem).resolve_left h
      rw [if_neg h]
      exact ((ih hnodup.2 hrest).append_left _).trans perm_middle

theorem flatMap_held_of_notMem {m : Message} (hmem : m.holder ∉ dropped) :
    dropped.flatMap (held (m :: messages)) = dropped.flatMap (held messages) := by
  refine flatMap_congr fun k hk => ?_
  rw [held_cons, if_neg]
  rintro rfl
  exact hmem hk

/-- What the front holds after an overflow that summarizes: what it held, and what the entries held
that were merged into it. -/
theorem held_takeOver_front (hdrop : lane.drop = .summarize) (hp : lane.pending = front :: kept)
    (hnodup : dropped.Nodup) (hfront : front.id ∉ dropped) :
    (held (messages.map (takeOver lane dropped)) front.id).Perm
      (held messages front.id ++ dropped.flatMap (held messages)) := by
  induction messages with
  | nil =>
    have hnone : dropped.flatMap (held []) = [] := flatMap_eq_nil_iff.2 fun _ _ => rfl
    rw [hnone]
    exact .refl _
  | cons m messages ih =>
    obtain ⟨htext, hholder⟩ := holder_takeOver dropped hdrop hp m
    rw [map_cons, held_cons, held_cons, htext, hholder]
    by_cases hmem : m.holder ∈ dropped
    · have hne : m.holder ≠ front.id := by
        intro h
        exact hfront (h ▸ hmem)
      rw [if_pos hmem, if_pos rfl, if_neg hne]
      refine (List.Perm.cons _ ih).trans ?_
      refine (perm_middle.symm).trans ?_
      exact (flatMap_held_cons hnodup hmem).symm.append_left _
    · rw [if_neg hmem, flatMap_held_of_notMem hmem]
      split_ifs
      · exact ih.cons _
      · exact ih

end Held

/-! ## Queues whose texts tell what they stand for -/

/-- The entry at the front tells the messages it stands for, and each of the others stands for its own
message. -/
def Kept (messages : List Message) : List QueuedCommand → Prop
  | [] => True
  | front :: rest =>
    SessionLane.Recounts front.message.toList (held messages front.id) ∧
      ∀ c ∈ rest, held messages c.id = [c.message.toList]

namespace Kept

variable {messages messages' : List Message} {pending pending' : List QueuedCommand}

theorem recounts (h : Kept messages pending) {c : QueuedCommand} (hc : c ∈ pending) :
    SessionLane.Recounts c.message.toList (held messages c.id) := by
  cases pending with
  | nil => exact absurd hc not_mem_nil
  | cons front rest =>
    rcases mem_cons.1 hc with rfl | hc
    · exact h.1
    · exact .inl (h.2 c hc)

theorem sublist (h : Kept messages pending) (hsub : pending'.Sublist pending) :
    Kept messages pending' := by
  cases pending' with
  | nil => trivial
  | cons front rest =>
    cases pending with
    | nil => exact absurd (sublist_nil.1 hsub) (cons_ne_nil _ _)
    | cons front' rest' =>
      refine ⟨h.recounts (hsub.subset mem_cons_self), fun c hc => h.2 c ?_⟩
      exact hsub.of_cons_cons.subset hc

theorem congr (h : Kept messages pending)
    (hheld : ∀ c ∈ pending, held messages' c.id = held messages c.id) : Kept messages' pending := by
  cases pending with
  | nil => trivial
  | cons front rest =>
    rw [forall_mem_cons] at hheld
    refine ⟨hheld.1 ▸ h.1, fun c hc => ?_⟩
    rw [hheld.2 c hc]
    exact h.2 c hc

theorem concat (h : Kept messages pending) {cmd : QueuedCommand}
    (hcmd : held messages cmd.id = [cmd.message.toList]) : Kept messages (pending ++ [cmd]) := by
  cases pending with
  | nil => exact ⟨.inl hcmd, fun c hc => absurd hc not_mem_nil⟩
  | cons front rest =>
    refine ⟨h.1, fun c hc => ?_⟩
    rcases mem_append.1 hc with hc | hc
    · exact h.2 c hc
    · rw [mem_singleton.1 hc]
      exact hcmd

theorem overflow {lane : SessionLane} (h : Kept messages lane.pending)
    (hnodup : (lane.pending.map (·.id)).Nodup)
    (htold : lane.drop = .summarize → 0 < lane.merges → MergeTold messages lane) :
    Kept (messages.map (takeOver lane.applyCapOverflow.1 lane.applyCapOverflow.2))
      lane.applyCapOverflow.1.pending := by
  have hsame : lane.applyCapOverflow.1.drop = lane.drop := by
    obtain ⟨pending, lost, hover, -⟩ := lane.applyCapOverflow_spec
    rw [hover]
  by_cases hdrop : lane.drop = .summarize
  · cases hp : lane.pending with
    | nil =>
      have hover : lane.applyCapOverflow = (lane, []) := by
        rw [SessionLane.applyCapOverflow, SessionLane.overflowLoop, SessionLane.overflowTurn, hdrop, hp]
        dsimp only
        split_ifs <;> rfl
      rw [hover, hp]
      trivial
    | cons front rest =>
      obtain ⟨merged, kept, rfl, hlen, hover⟩ := SessionLane.applyCapOverflow_summarize hdrop hp
      rw [hp, map_cons, map_append, nodup_cons, mem_append, not_or,
        nodup_append] at hnodup
      obtain ⟨⟨hfront, hfrontKept⟩, hmerged, -, hdisjoint⟩ := hnodup
      rw [hp] at h
      rw [hover]
      obtain ⟨after, hafter⟩ : ∃ after : SessionLane,
          after = { lane with pending := SessionLane.mergeInto front merged :: kept } := ⟨_, rfl⟩
      have hdrop' : after.drop = .summarize := by rw [hafter]; exact hdrop
      have hp' : after.pending = SessionLane.mergeInto front merged :: kept := by rw [hafter]
      rw [← hafter]
      dsimp only
      rw [hp']
      have hheld : (held (messages.map (takeOver after (merged.map (·.id))))
          (SessionLane.mergeInto front merged).id).Perm
            (held messages front.id ++ (merged.map (·.id)).flatMap (held messages)) :=
        held_takeOver_front hdrop' hp' hmerged hfront
      have htexts : (merged.map (·.id)).flatMap (held messages) =
          merged.map (·.message.toList) := by
        rw [flatMap_map, map_eq_flatMap]
        refine flatMap_congr fun c hc => ?_
        exact h.2 c (mem_append_left _ hc)
      rw [htexts] at hheld
      constructor
      · refine SessionLane.Recounts.perm ?_ hheld.symm
        have hmany (hne : merged.map (·.message.toList) ≠ []) :
            ((held messages front.id).length = 1 →
              ¬ SessionLane.summaryHead.isPrefixOf front.message.toList) ∧
              (held messages front.id).length + lane.merges ≤ 2147483647 := by
          have hpos : 0 < merged.length := by
            rw [length_pos_iff]
            rintro rfl
            exact hne rfl
          have hlane := htold hdrop (by omega)
          rwa [MergeTold, hp] at hlane
        show SessionLane.Recounts (String.ofList _).toList _
        rw [String.toList_ofList]
        refine h.1.merge_all (fun hne => (hmany hne).1) fun hne => ?_
        rw [length_map]
        exact (Nat.add_le_add_left hlen _).trans (hmany hne).2
      · rintro c hc
        have hmem : c.id ∈ kept.map (·.id) := mem_map_of_mem hc
        have haway : ∀ entry ∈ after.pending.head?, entry.id ≠ c.id := by
          rw [hp', head?_cons]
          rintro _ ⟨⟩ heq
          exact hfrontKept (heq ▸ hmem)
        rw [held_takeOver_of_notMem (fun hin => hdisjoint _ hin _ hmem rfl) haway]
        exact h.2 c (mem_append_right _ hc)
  · have hid : messages.map (takeOver lane.applyCapOverflow.1 lane.applyCapOverflow.2) = messages :=
      map_id'' (takeOver_eq_self fun heq => absurd (hsame ▸ heq) hdrop) _
    rw [hid]
    exact h.sublist (SessionLane.overflowLoop_pending_sublist hdrop _)

end Kept

/-! ## What the steps do to the queues -/

namespace CommandQueue

theorem pending_cancel (q : CommandQueue) (commandId key : String) :
    ((q.cancel commandId).1.getLane key).pending.Sublist (q.getLane key).pending := by
  rw [cancel]
  cases hl : q.commandToSession.lookup commandId with
  | none => exact .refl _
  | some k =>
    dsimp only
    rw [pending_getLane_insert rfl]
    split_ifs with hkey
    · rw [hkey]
      exact eraseP_sublist
    · exact .refl _

theorem pending_abortSession (q : CommandQueue) (sessionKey key : String) :
    ((q.abortSession sessionKey).1.getLane key).pending.Sublist (q.getLane key).pending := by
  cases hl : q.lanes.lookup sessionKey with
  | none =>
    rw [abortSession, hl]
  | some lane =>
    have hlanes : (q.abortSession sessionKey).1.lanes =
        q.lanes.insert sessionKey lane.interruptActive.1 := by
      rw [abortSession, hl]
      dsimp only
      split <;> rfl
    have hlane : q.getLane sessionKey = lane := by rw [getLane, hl, Option.getD_some]
    rw [pending_getLane_insert hlanes]
    split_ifs with hkey
    · rw [hkey, hlane]
      exact SessionLane.keepNewest_sublist lane.pending
    · exact .refl _

theorem pending_cleanUpIdle (q : CommandQueue) (key : String) :
    (q.cleanUpIdle.getLane key).pending = (q.getLane key).pending := by
  rw [getLane, cleanUpIdle, Table.lookup_filterValues, getLane]
  cases hl : q.lanes.lookup key with
  | none => rfl
  | some lane =>
    by_cases h : lane.isIdle
    · have hp : lane.pending = [] := by
        simpa [SessionLane.isIdle, SessionLane.hasPending] using (Bool.and_eq_true_iff.1 h).2
      simp [Option.filter, h, SessionLane.ofConfig, hp]
    · simp [Option.filter, h]

theorem pending_submit (q : CommandQueue) (cmdId : String) (now : Int) (s : Submission)
    (key : String) :
    ((q.submit cmdId now s).1.getLane key).pending =
      if key = s.sessionKey then
        ((q.getLane s.sessionKey).submit (q.makeCommand cmdId now s)).1.pending
      else (q.getLane key).pending :=
  pending_getLane_insert (q.lanes_submit cmdId now s) key

end CommandQueue

theorem System.pending_step {sys sys' : System} {a : Action} (hstep : sys.step a = some sys')
    (hno : ∀ cmdId now s, a ≠ .submit cmdId now s) (key : String) :
    (sys'.queue.getLane key).pending.Sublist (sys.queue.getLane key).pending := by
  cases a with
  | submit cmdId now s => exact absurd rfl (hno cmdId now s)
  | cancel commandId =>
    cases hstep
    exact sys.queue.pending_cancel commandId key
  | abortSession sessionKey =>
    cases hstep
    exact sys.queue.pending_abortSession sessionKey key
  | configureSession sessionKey mode debounceMs cap drop =>
    cases hstep
    dsimp only
    rw [CommandQueue.configureSession, CommandQueue.pending_getLane_insert rfl]
    by_cases hkey : key = sessionKey
    · rw [if_pos hkey, hkey]
    · rw [if_neg hkey]
  | setConfig config =>
    cases hstep
    show ((sys.queue.setConfig config).getLane key).pending.Sublist _
    rw [CommandQueue.getLane, CommandQueue.getLane]
    show (((sys.queue.lanes.lookup key).getD _).pending).Sublist _
    cases sys.queue.lanes.lookup key with
    | none => exact .refl _
    | some lane => exact .refl _
  | dispatch now order =>
    obtain ⟨-, q, out, hkeys, rfl⟩ := System.step_dispatch hstep
    rw [CommandQueue.pending_cleanUpIdle]
    refine CommandQueue.dispatchKeys_induction (P := fun _ _ => True)
      (motive := fun q _ => (q.getLane key).pending.Sublist (sys.queue.getLane key).pending)
      (fun hact _ hsub => ?_) (CommandQueue.eachActivation_true ..) hkeys (.refl _)
    rw [CommandQueue.pending_getLane_insert hact.lanes_after]
    split_ifs with hkey
    · refine .trans ?_ hsub
      rw [hkey, CommandQueue.getLane, hact.found, Option.getD_some, hact.pending]
      exact (SessionLane.unbatched_sublist _ _).cons _
    · exact hsub
  | start i =>
    obtain ⟨l₁, command, l₂, -, rfl⟩ := System.step_start hstep
    exact .refl _
  | respond i outcome =>
    obtain ⟨l₁, command, l₂, -, rfl⟩ := System.step_respond hstep
    exact .refl _
  | complete i =>
    obtain ⟨l₁, command, l₂, -, rfl⟩ := System.step_complete hstep
    dsimp only
    rw [CommandQueue.finish]
    cases hl : sys.queue.lanes.lookup command.sessionKey with
    | none => exact .refl _
    | some lane =>
      dsimp only
      rw [CommandQueue.pending_getLane_insert rfl]
      split_ifs with hkey
      · rw [hkey, CommandQueue.getLane, hl]
        exact .refl _
      · exact .refl _

namespace Tracked

def init (config : QueueConfig) : Tracked := { sys := .init config }

/-- The messages after a step. -/
def remember (t : Tracked) : Action → List Message
  | .submit cmdId now s =>
    let (lane, dropped) := (t.sys.queue.getLane s.sessionKey).submit
      (t.sys.queue.makeCommand cmdId now s)
    (t.messages ++ [Message.mk cmdId s.message cmdId]).map (takeOver lane dropped)
  | _ => t.messages

def step (t : Tracked) (a : Action) : Option Tracked :=
  (t.sys.step a).map fun sys => { sys, messages := t.remember a }

def Reaches (config : QueueConfig) (as : List Action) (t : Tracked) : Prop :=
  exec step (init config) as = some t

theorem step_eq_some {t t' : Tracked} {a : Action} (h : t.step a = some t') :
    t.sys.step a = some t'.sys ∧ t'.messages = t.remember a := by
  obtain ⟨sys, hsys, rfl⟩ := Option.map_eq_some_iff.1 h
  exact ⟨hsys, rfl⟩

/-- The merges that a step makes are told. -/
def MergesWell (t : Tracked) : Action → Prop
  | .submit cmdId now s =>
    SubmitTold (t.messages ++ [Message.mk cmdId s.message cmdId])
      (t.sys.queue.getLane s.sessionKey) (t.sys.queue.makeCommand cmdId now s)
  | _ => True

/-- Whether a step merges well can be computed. -/
instance : ∀ t a, Decidable (MergesWell t a)
  | t, .submit cmdId now s =>
    inferInstanceAs (Decidable (SubmitTold (t.messages ++ [Message.mk cmdId s.message cmdId])
      (t.sys.queue.getLane s.sessionKey) (t.sys.queue.makeCommand cmdId now s)))
  | _, .cancel _ | _, .abortSession _ | _, .configureSession .. | _, .setConfig _ | _, .dispatch ..
  | _, .start _ | _, .respond .. | _, .complete _ => .isTrue trivial

/-! ## The invariants of a run -/

section Known

variable {config : QueueConfig} {as : List Action} {t t' : Tracked}

/-- A run of the tracked system is one of the system, and the entries that stand for messages were
submitted. -/
structure Known (config : QueueConfig) (t : Tracked) : Prop where
  reached : ∃ as, System.Reaches config as t.sys
  holder : ∀ m ∈ t.messages, m.holder ∈ t.sys.submitted.map Request.id

variable {a : Action}

theorem reaches_concat {as : List Action} {sys sys' : System}
    (hrun : System.Reaches config as sys) (hstep : sys.step a = some sys') :
    System.Reaches config (as ++ [a]) sys' :=
  exec_append.2 ⟨sys, hrun, exec_cons.2 ⟨sys', hstep, rfl⟩⟩

theorem remember_eq (t : Tracked) (hno : ∀ cmdId now s, a ≠ .submit cmdId now s) :
    t.remember a = t.messages := by
  cases a with
  | submit cmdId now s => exact absurd rfl (hno cmdId now s)
  | _ => rfl

theorem Known.step (h : Known config t) (hstep : t.step a = some t') : Known config t' := by
  obtain ⟨as, hrun⟩ := h.reached
  obtain ⟨hsys, hmessages⟩ := step_eq_some hstep
  have hrun' := reaches_concat hrun hsys
  refine ⟨⟨_, hrun'⟩, ?_⟩
  by_cases hno : ∀ cmdId now s, a ≠ .submit cmdId now s
  · rw [hmessages, remember_eq t hno, System.submitted_step hsys, map_append]
    exact fun m hm => mem_append_left _ (h.holder m hm)
  · push Not at hno
    obtain ⟨cmdId, now, s, rfl⟩ := hno
    have hsub := System.submitted_step hsys
    rw [hmessages]
    intro m hm
    obtain ⟨m₀, hm₀, rfl⟩ := mem_map.1 hm
    have hold : m₀.holder ∈ t'.sys.submitted.map Request.id := by
      rw [hsub, map_append]
      rcases mem_append.1 hm₀ with hm₀ | hm₀
      · exact mem_append_left _ (h.holder m₀ hm₀)
      · rw [mem_singleton.1 hm₀]
        exact mem_append_right _ (mem_singleton_self _)
    rcases holder_takeOver_cases ((t.sys.queue.getLane s.sessionKey).submit
        (t.sys.queue.makeCommand cmdId now s)).1 ((t.sys.queue.getLane s.sessionKey).submit
        (t.sys.queue.makeCommand cmdId now s)).2 m₀ with heq | ⟨front, hfront, heq⟩
    · exact heq ▸ hold
    · have hpending : front ∈ (t'.sys.queue.getLane s.sessionKey).pending := by
        obtain ⟨-, hqueue⟩ := System.step_submit hsys
        rw [hqueue, CommandQueue.pending_submit, if_pos rfl]
        exact hfront
      exact heq ▸ hrun'.id_mem_submitted hpending

theorem known (hrun : Reaches config as t) : Known config t := by
  refine exec_invariant' (motive := Known config) (fun _ _ _ h hstep => h.step hstep) ?_ hrun
  exact ⟨⟨[], rfl⟩, nofun⟩

/-- Every entry tells the messages it stands for. -/
structure Told (config : QueueConfig) (t : Tracked) : Prop extends Known config t where
  kept : ∀ key, Kept t.messages (t.sys.queue.getLane key).pending

theorem Told.overflowing (h : Told config t) {cmdId : String} (now : Int) (s : Submission)
    (hfresh : cmdId ∉ t.sys.submitted.map Request.id) :
    Kept (t.messages ++ [Message.mk cmdId s.message cmdId])
        ((t.sys.queue.getLane s.sessionKey).overflowing (t.sys.queue.makeCommand cmdId now s)).pending ∧
      (((t.sys.queue.getLane s.sessionKey).overflowing
        (t.sys.queue.makeCommand cmdId now s)).pending.map (·.id)).Nodup := by
  obtain ⟨as, hrun⟩ := h.reached
  obtain ⟨older, hsub, hpending⟩ : ∃ older : List QueuedCommand,
      older.Sublist (t.sys.queue.getLane s.sessionKey).pending ∧
        ((t.sys.queue.getLane s.sessionKey).overflowing
          (t.sys.queue.makeCommand cmdId now s)).pending =
            older ++ [t.sys.queue.makeCommand cmdId now s] := by
    rw [SessionLane.overflowing]
    split_ifs
    · exact ⟨_, SessionLane.keepNewest_sublist _, rfl⟩
    · exact ⟨_, .refl _, rfl⟩
  have hid (c : QueuedCommand) (hc : c ∈ older) : c.id ≠ cmdId := by
    rintro rfl
    exact hfresh (hrun.id_mem_submitted (hsub.subset hc))
  rw [hpending]
  constructor
  · refine Kept.concat (((h.kept s.sessionKey).sublist hsub).congr fun c hc => ?_) ?_
    · rw [held_append, held_cons, if_neg (Ne.symm (hid c hc))]
      exact append_nil _
    · have hnone : held t.messages cmdId = [] := by
        refine held_eq_nil fun m hm heq => ?_
        exact hfresh (heq ▸ h.holder m hm)
      show held _ cmdId = _
      rw [held_append, hnone, held_cons, if_pos rfl]
      rfl
  · rw [map_append, nodup_append]
    refine ⟨(hrun.nodup_ids s.sessionKey).sublist (hsub.map _), nodup_singleton _, ?_⟩
    rintro x hx y hy rfl
    obtain ⟨c, hc, rfl⟩ := mem_map.1 hx
    exact hid c hc (mem_singleton.1 hy)

theorem id_of_submit {lane : SessionLane} {cmd : QueuedCommand} {id : String}
    (h : id ∈ (lane.submit cmd).1.pending.map (·.id) ∨ id ∈ (lane.submit cmd).2) :
    id = cmd.id ∨ ∃ c ∈ lane.pending, c.id = id := by
  have hqueue : id ∈ (lane.overflowing cmd).pending.map (·.id) := by
    rw [SessionLane.submit_eq] at h
    split_ifs at h
    · exact h.resolve_right not_mem_nil
    · rw [(SessionLane.ids_applyCapOverflow _).mem_iff]
      exact mem_append.2 h
  obtain ⟨c, hc, rfl⟩ := mem_map.1 hqueue
  rw [SessionLane.overflowing] at hc
  rcases mem_append.1 hc with hc | hc
  · refine .inr ⟨c, ?_, rfl⟩
    split_ifs at hc
    · exact (SessionLane.keepNewest_sublist _).subset hc
    · exact hc
  · exact .inl (congrArg _ (mem_singleton.1 hc))

theorem Told.step (h : Told config t) (hok : MergesWell t a)
    (hstep : t.step a = some t') : Told config t' := by
  obtain ⟨hsys, hmessages⟩ := step_eq_some hstep
  refine ⟨h.toKnown.step hstep, fun key => ?_⟩
  by_cases hno : ∀ cmdId now s, a ≠ .submit cmdId now s
  · rw [hmessages, remember_eq t hno]
    exact (h.kept key).sublist (System.pending_step hsys hno key)
  · push Not at hno
    obtain ⟨cmdId, now, s, rfl⟩ := hno
    obtain ⟨as, hrun⟩ := h.reached
    obtain ⟨hfresh, hqueue⟩ := System.step_submit hsys
    obtain ⟨hover, hnodup⟩ := h.overflowing now s hfresh
    have hok : SubmitTold (t.messages ++ [Message.mk cmdId s.message cmdId])
        (t.sys.queue.getLane s.sessionKey) (t.sys.queue.makeCommand cmdId now s) := hok
    rw [hqueue, CommandQueue.pending_submit, hmessages]
    show Kept (List.map (takeOver ((t.sys.queue.getLane s.sessionKey).submit _).1
      ((t.sys.queue.getLane s.sessionKey).submit _).2) _) _
    have haway (id : String) := @id_of_submit (t.sys.queue.getLane s.sessionKey)
      (t.sys.queue.makeCommand cmdId now s) id
    split_ifs with hkey
    · -- the lane of the command
      rw [SubmitTold] at hok
      rw [SessionLane.submit_eq]
      split_ifs with hsteer
      · rw [map_id'' (takeOver_eq_self fun _ => rfl)]
        exact hover
      · refine hover.overflow hnodup fun hdrop => hok hsteer ?_
        rw [SessionLane.overflowing] at hdrop
        split_ifs at hdrop
        · exact hdrop
        · exact hdrop
    · -- another lane: none of its entries is merged or merged into
      refine (h.kept key).congr fun c hc => ?_
      have hold (hid : c.id = cmdId ∨ ∃ c' ∈ (t.sys.queue.getLane s.sessionKey).pending,
          c'.id = c.id) : False := by
        rcases hid with hid | ⟨c', hc', hid⟩
        · exact hfresh (hid ▸ hrun.id_mem_submitted hc)
        · exact hkey (hrun.session_eq hc hc' hid.symm)
      rw [held_takeOver_of_notMem (fun hin => hold (haway c.id (.inr hin))), held_append, held_cons,
        if_neg]
      · exact append_nil _
      · intro heq
        exact hold (.inl heq.symm)
      · intro front hfront heq
        have hmem : front ∈ ((t.sys.queue.getLane s.sessionKey).submit
            (t.sys.queue.makeCommand cmdId now s)).1.pending := mem_of_mem_head? hfront
        exact hold (haway c.id (.inl (heq ▸ mem_map_of_mem hmem)))

end Known

/-! ## What a summary tells -/

/-- The entry that stands for a message in a queue waits in another in the same lane, with the same
text. -/
def Keeps (q q' : CommandQueue) (m : Message) : Prop :=
  ∀ key, ∀ c ∈ (q.getLane key).pending, c.id = m.holder → c ∈ (q'.getLane key).pending

/-- **Cancelling.**  In every state that a run reaches, `Cancel` changes no queue when it answers
false; and when it answers true, the content of all other messages still waits if and only if
no other message was merged into the entry with that id. -/
theorem cancel_keeps_iff {config : QueueConfig} {as : List Action} {t : Tracked}
    (hrun : Reaches config as t) (commandId : String) :
    ((t.sys.queue.cancel commandId).2 = false →
      ∀ key, ((t.sys.queue.cancel commandId).1.getLane key).pending =
        (t.sys.queue.getLane key).pending) ∧
    ((t.sys.queue.cancel commandId).2 = true →
      ((∀ m ∈ t.messages, m.id ≠ commandId →
          Keeps t.sys.queue (t.sys.queue.cancel commandId).1 m) ↔
        ∀ m ∈ t.messages, m.holder = commandId → m.id = commandId)) := by
  obtain ⟨bs, hreach⟩ := (known hrun).reached
  rw [CommandQueue.cancel]
  cases hl : t.sys.queue.commandToSession.lookup commandId with
  | none => exact ⟨fun _ _ => rfl, fun h => absurd h Bool.false_ne_true⟩
  | some session =>
    dsimp only
    rcases (t.sys.queue.getLane session).cancelPending_spec commandId with
      ⟨before, c, rest, hpending, hid, hcancel⟩ | ⟨-, hcancel⟩
    · rw [hcancel]
      refine ⟨fun h => absurd h.symm Bool.false_ne_true, fun _ => ?_⟩
      have hnodup := hreach.nodup_ids session
      rw [hpending, map_append, map_cons, nodup_middle, nodup_cons,
        ← map_append] at hnodup
      constructor
      · rintro hkeeps m hm hholder
        by_contra hne
        have hmem := hkeeps m hm hne session c (by rw [hpending]; simp) (hid.trans hholder.symm)
        rw [CommandQueue.pending_getLane_insert rfl, if_pos rfl] at hmem
        exact hnodup.1 (mem_map_of_mem hmem)
      · rintro hown m hm hne key c' hc' hheld
        rw [CommandQueue.pending_getLane_insert rfl]
        split_ifs with hkey
        · rw [hkey, hpending] at hc'
          have hother : c' ≠ c := by
            rintro rfl
            exact hne (hown m hm (hheld.symm.trans hid))
          simpa [hother] using hc'
        · exact hc'
    · rw [hcancel]
      refine ⟨fun _ key => ?_, fun h => absurd h Bool.false_ne_true⟩
      rw [CommandQueue.pending_getLane_insert rfl]
      split_ifs with hkey
      · rw [hkey]
      · rfl

/-- Cancelling a message that waits for itself. -/
theorem cancel_keeps_two :
    ∃ t, Reaches {} [.submit "a" 0 { sessionKey := "s", message := "one" },
        .submit "b" 0 { sessionKey := "s", message := "two" }] t ∧
      ∀ m ∈ t.messages, m.id ≠ "a" → Keeps t.sys.queue (t.sys.queue.cancel "a").1 m := by
  refine ⟨_, (Option.some_get (by decide)).symm, ?_⟩
  exact ((cancel_keeps_iff (Option.some_get _).symm "a").2 (by decide)).2 (by decide)

def mergedPair : List Action :=
  [.submit "a" 0 { sessionKey := "s", message := "one" },
    .submit "b" 0 { sessionKey := "s", message := "two" }]

theorem isSome_mergedPair : (exec step (init { cap := 1 }) mergedPair).isSome := by decide

/-- Cancelling a message that others were merged into takes them away as well. -/
theorem not_cancel_keeps : ¬ ∀ config as t commandId, Reaches config as t →
    (t.sys.queue.cancel commandId).2 = true → ∀ m ∈ t.messages, m.id ≠ commandId →
      Keeps t.sys.queue (t.sys.queue.cancel commandId).1 m := by
  intro h
  have hkeeps := h _ _ ((exec step (init { cap := 1 }) mergedPair).get isSome_mergedPair) "a"
    (Option.some_get isSome_mergedPair).symm (by decide) ⟨"b", "two", "a"⟩ (by decide) (by decide)
  have hids : (((exec step (init { cap := 1 }) mergedPair).get
      isSome_mergedPair).sys.queue.getLane "s").pending.map (·.id) = ["a"] := by decide
  obtain ⟨c, hc, hid⟩ := mem_map.1 (hids ▸ mem_singleton_self _)
  have hgone : ((((exec step (init { cap := 1 }) mergedPair).get
      isSome_mergedPair).sys.queue.cancel "a").1.getLane "s").pending.length = 0 := by decide
  have hempty := hkeeps "s" c hc hid
  rw [length_eq_zero_iff.1 hgone] at hempty
  exact not_mem_nil hempty

end Tracked

end RavBot.Gateway
