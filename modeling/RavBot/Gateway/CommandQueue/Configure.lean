import RavBot.Gateway.CommandQueue.System

/-!
# Session settings in force

`ConfigureSession` writes the settings of a session into its lane object, and a lane object
lives until a dispatcher pass finds it idle.  The next `Submit` to the session then gets a
new lane, with the global defaults.  The settings that a `Submit` would be handled with are
those of the lane that `get_lane` returns.

`configuredSettings_iff` says exactly when these are the configured ones: always, if they
happen to be the defaults, and otherwise as long as no pass has found the lane idle.
-/

namespace RavBot.Gateway

open RavBot.Lib

namespace CommandQueue

def defaultSettings (config : QueueConfig) : LaneSettings :=
  ⟨config.defaultMode, config.debounceMs, config.cap, config.drop⟩

/-- The settings that a `Submit` to a session is handled with. -/
def settingsOf (q : CommandQueue) (key : String) : LaneSettings := (q.getLane key).settings

def HasLane (q : CommandQueue) (key : String) : Prop := (q.lanes.lookup key).isSome

variable {q : CommandQueue} {key : String}

theorem settingsOf_of_not_hasLane (h : ¬ q.HasLane key) :
    q.settingsOf key = defaultSettings q.config := by
  rw [HasLane, Option.not_isSome_iff_eq_none] at h
  simp [settingsOf, getLane, h, SessionLane.ofConfig, SessionLane.settings, defaultSettings]

/-- The queue `q'` treats the session as `q` does: same settings, its lane not removed. -/
structure KeepsSettings (key : String) (q q' : CommandQueue) : Prop where
  settings : q'.settingsOf key = q.settingsOf key
  lane : q.HasLane key → q'.HasLane key
  config : q'.config = q.config

theorem KeepsSettings.refl (key : String) (q : CommandQueue) : KeepsSettings key q q :=
  ⟨rfl, id, rfl⟩

variable {q' : CommandQueue}

theorem KeepsSettings.trans {q'' : CommandQueue}
    (h : KeepsSettings key q q') (h' : KeepsSettings key q' q'') : KeepsSettings key q q'' :=
  ⟨h'.settings.trans h.settings, h'.lane ∘ h.lane, h'.config.trans h.config⟩

variable {lane : SessionLane}

theorem keepsSettings_insert
    (hlanes : q'.lanes = q.lanes.insert key lane) (hconfig : q'.config = q.config)
    (hlane : lane.settings = q.settingsOf key) (k : String) : KeepsSettings k q q' := by
  have hlookup := Table.lookup_insert_ite q.lanes key k lane
  rw [← hlanes] at hlookup
  by_cases hk : k = key
  · subst hk
    rw [if_pos rfl] at hlookup
    exact ⟨by rw [settingsOf, getLane, hlookup]; exact hlane,
      fun _ => by simp [HasLane, hlookup], hconfig⟩
  · rw [if_neg hk] at hlookup
    exact ⟨by rw [settingsOf, settingsOf, getLane, getLane, hlookup, hconfig],
      fun h => by rwa [HasLane, hlookup], hconfig⟩

theorem settingsOf_of_lookup
    (h : q.lanes.lookup key = some lane) : q.settingsOf key = lane.settings := by
  simp [settingsOf, getLane, h]

theorem keepsSettings_submit (q : CommandQueue) (cmdId : String) (now : Int) (s : Submission)
    (k : String) : KeepsSettings k q (q.submit cmdId now s).1 := by
  obtain ⟨pending, lost, hsub, -⟩ :=
    (q.getLane s.sessionKey).submit_spec (q.makeCommand cmdId now s)
  have hlanes : (q.submit cmdId now s).1.lanes = q.lanes.insert s.sessionKey
      ((q.getLane s.sessionKey).submit (q.makeCommand cmdId now s)).1 := by
    simp only [submit]
    split <;> rfl
  have hconfig : (q.submit cmdId now s).1.config = q.config := by
    simp only [submit]
    split <;> rfl
  refine keepsSettings_insert hlanes hconfig ?_ k
  rw [hsub]
  rfl

theorem keepsSettings_cancel (q : CommandQueue) (commandId : String) (k : String) :
    KeepsSettings k q (q.cancel commandId).1 := by
  cases hl : q.commandToSession.lookup commandId with
  | none =>
    rw [cancel, hl]
    exact .refl k q
  | some key =>
    have hlanes : (q.cancel commandId).1.lanes =
        q.lanes.insert key ((q.getLane key).cancelPending commandId).1 := by
      simp [cancel, hl]
    exact keepsSettings_insert hlanes (by simp [cancel, hl]) rfl k

theorem keepsSettings_abortSession (q : CommandQueue) (sessionKey : String) (k : String) :
    KeepsSettings k q (q.abortSession sessionKey).1 := by
  cases hl : q.lanes.lookup sessionKey with
  | none =>
    rw [abortSession, hl]
    exact .refl k q
  | some lane =>
    have hlanes : (q.abortSession sessionKey).1.lanes =
        q.lanes.insert sessionKey lane.interruptActive.1 := by
      simp only [abortSession, hl]
      split <;> rfl
    have hconfig : (q.abortSession sessionKey).1.config = q.config := by
      simp only [abortSession, hl]
      split <;> rfl
    exact keepsSettings_insert hlanes hconfig (settingsOf_of_lookup hl).symm k

theorem keepsSettings_configureSession (q : CommandQueue) {sessionKey k : String}
    (mode : QueueMode) (debounceMs cap : Int) (drop : String) (hk : k ≠ sessionKey) :
    KeepsSettings k q (q.configureSession sessionKey mode debounceMs cap drop) := by
  have hlookup : (q.configureSession sessionKey mode debounceMs cap drop).lanes.lookup k =
      q.lanes.lookup k := by
    simp [configureSession, AList.lookup_insert_ne hk]
  exact ⟨by rw [settingsOf, settingsOf, getLane, getLane, hlookup]; rfl,
    fun h => by rwa [HasLane, hlookup], rfl⟩

theorem keepsSettings_finish (q : CommandQueue) (command : QueuedCommand) (k : String) :
    KeepsSettings k q (q.finish command) := by
  cases hl : q.lanes.lookup command.sessionKey with
  | none =>
    have hlanes : (q.finish command).lanes = q.lanes := by simp [finish, hl]
    exact ⟨by rw [settingsOf, settingsOf, getLane, getLane, hlanes]; rfl,
      fun h => by rwa [HasLane, hlanes], rfl⟩
  | some lane =>
    have hlanes : (q.finish command).lanes =
        q.lanes.insert command.sessionKey lane.completeActive.1 := by simp [finish, hl]
    exact keepsSettings_insert hlanes rfl (settingsOf_of_lookup hl).symm k

def IdleLane (q : CommandQueue) (key : String) : Prop :=
  q.HasLane key ∧ q.activeOf key = none ∧ q.pendingOf key = []

theorem keepsSettings_activation
    {front command : QueuedCommand} {rest : List QueuedCommand}
    (h : Activation q key lane front rest q' command) (k : String) :
    KeepsSettings k q q' ∧ (q'.activeOf k = none ∧ q'.pendingOf k = [] ↔
      q.activeOf k = none ∧ q.pendingOf k = []) := by
  constructor
  · refine keepsSettings_insert h.lanes_after (by rw [h.queue]) ?_ k
    exact (settingsOf_of_lookup h.found).symm
  · rw [h.activeOf_after, h.pendingOf_after]
    by_cases hk : k = key
    · subst hk
      simp [h.pendingOf_before]
    · rw [if_neg hk, if_neg hk]

/-- The clean-up at the end of a pass removes the idle lanes, and keeps the settings of the
sessions whose lanes are not. -/
theorem cleanUpIdle_settings (q : CommandQueue) (k : String) :
    (q.IdleLane k → ¬ q.cleanUpIdle.HasLane k) ∧
      (¬ q.IdleLane k → KeepsSettings k q q.cleanUpIdle) := by
  have hlookup : q.cleanUpIdle.lanes.lookup k =
      (q.lanes.lookup k).filter fun lane => !lane.isIdle :=
    Table.lookup_filterValues _ _ _
  cases hl : q.lanes.lookup k with
  | none =>
    rw [hl] at hlookup
    refine ⟨fun _ => by simp [HasLane, hlookup], fun _ => ?_⟩
    exact ⟨by rw [settingsOf, settingsOf, getLane, getLane, hlookup, hl]; rfl,
      fun h => by simp [HasLane, hl] at h, rfl⟩
  | some lane =>
    have hidle : q.IdleLane k ↔ lane.isIdle := by
      simp [IdleLane, HasLane, activeOf, pendingOf, hl, SessionLane.requests,
        SessionLane.isIdle, SessionLane.hasActive, SessionLane.hasPending]
    rw [hidle]
    rw [hl] at hlookup
    refine ⟨fun h => by simp [HasLane, hlookup, Option.filter, h], fun h => ?_⟩
    have hsame : q.cleanUpIdle.lanes.lookup k = some lane := by
      simp [hlookup, Option.filter, h]
    exact ⟨by rw [settingsOf_of_lookup hsame, settingsOf_of_lookup hl],
      fun _ => by simp [HasLane, hsame], rfl⟩

/-- The settings that `ConfigureSession` puts in force: the given ones, and for a negative
number or an empty name the one that was in force. -/
def configured (old : LaneSettings) (mode : QueueMode) (debounceMs cap : Int)
    (drop : String) : LaneSettings where
  mode := mode
  debounceMs := if 0 ≤ debounceMs then debounceMs else old.debounceMs
  cap := if 0 ≤ cap then cap else old.cap
  drop := if drop ≠ "" then dropPolicyFromString drop else old.drop

theorem configureSession_settings (q : CommandQueue) (sessionKey : String) (mode : QueueMode)
    (debounceMs cap : Int) (drop : String) :
    (q.configureSession sessionKey mode debounceMs cap drop).HasLane sessionKey ∧
      (q.configureSession sessionKey mode debounceMs cap drop).settingsOf sessionKey =
        configured (q.settingsOf sessionKey) mode debounceMs cap drop := by
  constructor
  · simp [HasLane, configureSession]
  · simp [settingsOf, getLane, configureSession, SessionLane.settings, configured]

end CommandQueue

namespace System

open CommandQueue

/-- A step after which the settings of a session are somebody else's business: another
`ConfigureSession` of it, or a new global configuration. -/
def Reconfigures (key : String) : Action → Prop
  | .configureSession sessionKey .. => sessionKey = key
  | .setConfig _ => True
  | _ => False

/-- A dispatcher pass that finds the lane of the session idle, and removes it. -/
def RemovesLane (key : String) (sys : System) : Action → Prop
  | .dispatch .. => sys.queue.IdleLane key
  | _ => False

/-- Whether a step removes the lane of a session can be computed. -/
instance (key : String) : ∀ sys a, Decidable (RemovesLane key sys a)
  | sys, .dispatch .. =>
    inferInstanceAs (Decidable ((sys.queue.lanes.lookup key).isSome = true ∧
      sys.queue.activeOf key = none ∧ sys.queue.pendingOf key = []))
  | _, .submit .. | _, .cancel _ | _, .abortSession _ | _, .configureSession ..
  | _, .setConfig _ | _, .start _ | _, .respond .. | _, .complete _ => .isFalse id

variable {sys sys' : System}

/-- A pass keeps the settings of a session whose lane is not idle, and removes its lane if
it is. -/
theorem dispatch_settings {now : Int} {order : List String}
    (h : sys.step (.dispatch now order) = some sys') (k : String) :
    (sys.queue.IdleLane k → ¬ sys'.queue.HasLane k) ∧
      (¬ sys.queue.IdleLane k → KeepsSettings k sys.queue sys'.queue) ∧
      sys'.queue.config = sys.queue.config := by
  obtain ⟨-, q, out, hkeys, rfl⟩ := step_dispatch h
  obtain ⟨hkeeps, hidle⟩ : KeepsSettings k sys.queue q ∧
      (q.activeOf k = none ∧ q.pendingOf k = [] ↔
        sys.queue.activeOf k = none ∧ sys.queue.pendingOf k = []) := by
    refine dispatchKeys_induction (P := fun _ _ => True)
      (motive := fun q _ => KeepsSettings k sys.queue q ∧
        (q.activeOf k = none ∧ q.pendingOf k = [] ↔
          sys.queue.activeOf k = none ∧ sys.queue.pendingOf k = []))
      (fun hact _ hq => ?_) (eachActivation_true ..) hkeys ⟨.refl k _, .rfl⟩
    have hstep := keepsSettings_activation hact k
    exact ⟨hq.1.trans hstep.1, hstep.2.trans hq.2⟩
  obtain ⟨hremove, hkeep⟩ := q.cleanUpIdle_settings k
  refine ⟨fun ⟨hlane, hnothing⟩ => hremove ⟨hkeeps.lane hlane, hidle.2 hnothing⟩,
    fun hnot => ?_, hkeeps.config⟩
  by_cases hq : q.IdleLane k
  · by_cases hlane : sys.queue.HasLane k
    · exact (hnot ⟨hlane, hidle.1 hq.2⟩).elim
    · -- the session had no lane, so it had the default settings, and has them again
      have hgone := hremove hq
      refine ⟨?_, fun h => (hlane h).elim, hkeeps.config⟩
      rw [settingsOf_of_not_hasLane hgone, settingsOf_of_not_hasLane hlane]
      exact congrArg defaultSettings hkeeps.config
  · exact hkeeps.trans (hkeep hq)

variable {k : String}

/-- Every step that neither reconfigures a session nor removes its lane keeps its
settings. -/
theorem keepsSettings_step {a : Action}
    (hquiet : ¬ Reconfigures k a) (hno : ¬ RemovesLane k sys a)
    (hstep : sys.step a = some sys') : KeepsSettings k sys.queue sys'.queue := by
  cases a with
  | submit cmdId now s =>
    obtain ⟨-, rfl⟩ := step_submit hstep
    exact keepsSettings_submit _ cmdId now s k
  | cancel commandId =>
    cases hstep
    exact keepsSettings_cancel _ commandId k
  | abortSession sessionKey =>
    cases hstep
    exact keepsSettings_abortSession _ sessionKey k
  | configureSession sessionKey mode debounceMs cap drop =>
    cases hstep
    exact keepsSettings_configureSession _ mode debounceMs cap drop fun heq => hquiet heq.symm
  | setConfig config => exact (hquiet trivial).elim
  | dispatch now order => exact (dispatch_settings hstep k).2.1 hno
  | start i =>
    obtain ⟨l₁, command, l₂, -, rfl⟩ := step_start hstep
    exact .refl k _
  | respond i outcome =>
    obtain ⟨l₁, command, l₂, -, rfl⟩ := step_respond hstep
    exact .refl k _
  | complete i =>
    obtain ⟨l₁, command, l₂, -, rfl⟩ := step_complete hstep
    exact keepsSettings_finish _ command k

theorem removesLane_step {a : Action}
    (hremoves : RemovesLane k sys a) (hstep : sys.step a = some sys') :
    ¬ sys'.queue.HasLane k ∧ sys'.queue.config = sys.queue.config := by
  cases a with
  | dispatch now order =>
    have h := dispatch_settings hstep k
    exact ⟨h.1 hremoves, h.2.2⟩
  | _ => exact hremoves.elim

theorem defaultSettings_stay {as : List Action}
    (hquiet : ∀ a ∈ as, ¬ Reconfigures k a) (hrun : exec step sys as = some sys')
    (h : sys.queue.settingsOf k = defaultSettings sys.queue.config) :
    sys'.queue.settingsOf k = defaultSettings sys.queue.config := by
  induction as generalizing sys with
  | nil =>
    cases hrun
    exact h
  | cons a as ih =>
    obtain ⟨sys₁, hstep, hrun⟩ := exec_cons.1 hrun
    have hquiet' : ∀ a ∈ as, ¬ Reconfigures k a := fun b hb =>
      hquiet b (List.mem_cons_of_mem _ hb)
    by_cases hremoves : RemovesLane k sys a
    · obtain ⟨hgone, hconfig⟩ := removesLane_step hremoves hstep
      rw [← hconfig]
      exact ih hquiet' hrun (settingsOf_of_not_hasLane hgone)
    · have hkeeps := keepsSettings_step (hquiet a (List.mem_cons_self ..)) hremoves hstep
      rw [← hkeeps.config]
      exact ih hquiet' hrun (by rw [hkeeps.settings, hkeeps.config, h])

/-- The settings of a session that has a lane are kept by a run exactly when they are the
default ones or no pass of the run finds the lane idle. -/
theorem settings_kept_iff {as : List Action}
    (hquiet : ∀ a ∈ as, ¬ Reconfigures k a) (hrun : exec step sys as = some sys')
    (hlane : sys.queue.HasLane k) :
    sys'.queue.settingsOf k = sys.queue.settingsOf k ↔
      sys.queue.settingsOf k = defaultSettings sys.queue.config ∨
        Along step (fun s a => ¬ RemovesLane k s a) sys as := by
  induction as generalizing sys with
  | nil =>
    cases hrun
    exact iff_of_true rfl (.inr trivial)
  | cons a as ih =>
    obtain ⟨sys₁, hstep, hrun⟩ := exec_cons.1 hrun
    have hquiet' : ∀ a ∈ as, ¬ Reconfigures k a := fun b hb =>
      hquiet b (List.mem_cons_of_mem _ hb)
    by_cases hremoves : RemovesLane k sys a
    · obtain ⟨hgone, hconfig⟩ := removesLane_step hremoves hstep
      have hdefault := defaultSettings_stay hquiet' hrun (settingsOf_of_not_hasLane hgone)
      rw [hdefault, hconfig, eq_comm]
      exact ⟨.inl, fun h => h.resolve_right fun hall => hall.1 hremoves⟩
    · have hkeeps := keepsSettings_step (hquiet a (List.mem_cons_self ..)) hremoves hstep
      have h := ih hquiet' hrun (hkeeps.lane hlane)
      rw [hkeeps.settings, hkeeps.config] at h
      rw [h]
      refine or_congr_right ⟨fun hall => ⟨hremoves, fun s hs => ?_⟩, fun hall =>
        hall.2 sys₁ hstep⟩
      obtain rfl : sys₁ = s := Option.some.inj (hstep.symm.trans hs)
      exact hall

/-- The step is a `Submit` to the session. -/
def SubmitsTo (key : String) : Action → Prop
  | .submit _ _ s => s.sessionKey = key
  | _ => False

/-- **Settings stay in force until the lane is found idle.**  In a run after
`ConfigureSession` of a session, without a new configuration of it, every `Submit` to the
session is handled with the configured settings if and only if these are the global
defaults, or no pass that a `Submit` to the session follows finds the lane idle. -/
theorem configuredSettings_iff {sys sys₁ sys' : System} {as : List Action} {k : String}
    {mode : QueueMode} {debounceMs cap : Int} {drop : String}
    (hconfigure : sys.step (.configureSession k mode debounceMs cap drop) = some sys₁)
    (hquiet : ∀ a ∈ as, ¬ Reconfigures k a) (hrun : exec step sys₁ as = some sys') :
    Along step (fun s a => SubmitsTo k a → s.queue.settingsOf k =
        configured (sys.queue.settingsOf k) mode debounceMs cap drop) sys₁ as ↔
      configured (sys.queue.settingsOf k) mode debounceMs cap drop =
          defaultSettings sys.queue.config ∨
        ∀ before a after, as = before ++ a :: after → SubmitsTo k a →
          Along step (fun s a => ¬ RemovesLane k s a) sys₁ before := by
  cases hconfigure
  obtain ⟨hlane, hsettings⟩ :=
    configureSession_settings sys.queue k mode debounceMs cap drop
  set S := configured (sys.queue.settingsOf k) mode debounceMs cap drop
  -- what the run up to one `Submit` says about the settings that it is handled with
  have hupTo : ∀ before a after s₁, as = before ++ a :: after →
      exec step { sys with queue := sys.queue.configureSession k mode debounceMs cap drop }
        before = some s₁ →
      (s₁.queue.settingsOf k = S ↔ S = defaultSettings sys.queue.config ∨
        Along step (fun s a => ¬ RemovesLane k s a)
          { sys with queue := sys.queue.configureSession k mode debounceMs cap drop } before) := by
    intro before a after s₁ heq hbefore
    have h := settings_kept_iff
      (fun b hb => hquiet b (heq ▸ List.mem_append_left _ hb)) hbefore hlane
    rw [hsettings] at h
    exact h
  rw [along_iff]
  constructor
  · intro h
    by_cases hdefault : S = defaultSettings sys.queue.config
    · exact .inl hdefault
    · refine .inr fun before a after heq hsubmit => ?_
      rw [heq] at hrun
      obtain ⟨s₁, hbefore, -⟩ := exec_append.1 hrun
      have hS := h before a after s₁ heq hbefore hsubmit
      exact ((hupTo before a after s₁ heq hbefore).1 hS).resolve_left hdefault
  · intro h before a after s₁ heq hbefore hsubmit
    refine (hupTo before a after s₁ heq hbefore).2 ?_
    exact h.imp_right fun hall => hall before a after heq hsubmit

/-- Settings that a busy lane keeps through a pass. -/
theorem configuredSettings_busy_lane :
    ∃ sys₁, (init {}).step (.configureSession "s" .followup 0 5 "reject") = some sys₁ ∧
      Along step (fun s a => SubmitsTo "s" a → s.queue.settingsOf "s" =
          configured ((init {}).queue.settingsOf "s") .followup 0 5 "reject")
        sys₁ [.submit "a" 0 { sessionKey := "s", message := "one" }, .dispatch 0 ["s"],
          .submit "b" 0 { sessionKey := "s", message := "two" }] := by
  refine ⟨_, rfl, (configuredSettings_iff rfl ?_ (Option.some_get ?_).symm).2 (.inr ?_)⟩
  · simp [Reconfigures]
  · decide
  · intro before a after heq hsubmit
    rcases before with _ | ⟨b, _ | ⟨c, _ | ⟨d, before⟩⟩⟩
    · trivial
    · cases heq
      exact hsubmit.elim
    · cases heq
      decide
    · simp at heq

/-- A pass that finds the lane idle costs the session its settings. -/
theorem not_configuredSettings : ¬ ∀ (sys sys₁ sys' : System) (as : List Action) (k : String)
    (mode : QueueMode) (debounceMs cap : Int) (drop : String),
    sys.step (.configureSession k mode debounceMs cap drop) = some sys₁ →
    (∀ a ∈ as, ¬ Reconfigures k a) → exec step sys₁ as = some sys' →
    Along step (fun s a => SubmitsTo k a → s.queue.settingsOf k =
      configured (sys.queue.settingsOf k) mode debounceMs cap drop) sys₁ as := by
  intro h
  have hall := h (init {}) _ _
    [.dispatch 0 ["s"], .submit "a" 0 { sessionKey := "s", message := "one" }] "s"
    .followup 0 5 "reject" rfl (by simp [Reconfigures]) (Option.some_get (by decide)).symm
  have hsettings := (hall.2 _ rfl).1 rfl
  revert hsettings
  decide

end System

end RavBot.Gateway
