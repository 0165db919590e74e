import RavBot.Lib.Run
import RavBot.Lib.Table

/-!
# Paired devices

`ApprovePairing` adds a record for a device whether or not it has one, and `RotateDeviceToken` takes the
scopes of the new token from its caller.  `secure_iff` says along which runs of the manager devices are
paired once, and their tokens stay within what was approved.
-/

open List

namespace RavBot.Gateway

open RavBot.Lib

structure PairingRequest where
  requestId : String
  deviceId : String
  deviceName : String
  role : String
  scopes : List String
  requestedAtMs : Int
  clientInfo : String
deriving DecidableEq

structure DeviceToken where
  role : String
  token : String
  scopes : List String
  createdAtMs : Int
  rotatedAtMs : Int
deriving DecidableEq

/-- `tokens` are the tokens of a device by their roles. -/
structure PairedDevice where
  deviceId : String
  deviceName : String
  role : String
  approvedScopes : List String
  tokens : Table String DeviceToken
  pairedAtMs : Int

structure DevicePairingManager where
  pendingRequests : List PairingRequest := []
  pairedDevices : List PairedDevice := []

/-- A call of the manager, with the token that it draws and what the clock says. -/
inductive PairingCall where
  | addPairingRequest (request : PairingRequest)
  | approvePairing (requestId token : String) (nowMs : Int)
  | rejectPairing (requestId : String)
  | removePairedDevice (deviceId : String)
  | rotateDeviceToken (deviceId role : String) (scopes : List String) (token : String) (nowMs : Int)
  | revokeDeviceToken (deviceId role : String)

namespace DevicePairingManager

/-! ## The operations -/

def findPendingRequest (m : DevicePairingManager) (requestId : String) : Option PairingRequest :=
  m.pendingRequests.find? (·.requestId = requestId)

def findPairedDevice (m : DevicePairingManager) (deviceId : String) : Option PairedDevice :=
  m.pairedDevices.find? (·.deviceId = deviceId)

/-- Change the record that `FindPairedDevice` points to. -/
def modifyFirst (deviceId : String) (f : PairedDevice → PairedDevice) :
    List PairedDevice → List PairedDevice
  | [] => []
  | dev :: devs => if dev.deviceId = deviceId then f dev :: devs else dev :: modifyFirst deviceId f devs

def dropRequest (m : DevicePairingManager) (requestId : String) : DevicePairingManager :=
  { m with pendingRequests := m.pendingRequests.filter (·.requestId ≠ requestId) }

/-- The device that a request pairs, with its first token. -/
def deviceOf (request : PairingRequest) (token : String) (nowMs : Int) : PairedDevice where
  deviceId := request.deviceId
  deviceName := request.deviceName
  role := request.role
  approvedScopes := request.scopes
  pairedAtMs := nowMs
  tokens := (∅ : Table String DeviceToken).insert request.role
    { role := request.role, token, scopes := request.scopes, createdAtMs := nowMs, rotatedAtMs := 0 }

def addPairingRequest (m : DevicePairingManager) (request : PairingRequest) : DevicePairingManager :=
  { m with pendingRequests := m.pendingRequests ++ [request] }

def approvePairing (m : DevicePairingManager) (requestId token : String) (nowMs : Int) :
    DevicePairingManager × Option PairingRequest :=
  match m.findPendingRequest requestId with
  | none => (m, none)
  | some request =>
    let m := { m with pairedDevices := m.pairedDevices ++ [deviceOf request token nowMs] }
    (m.dropRequest requestId, some request)

def rejectPairing (m : DevicePairingManager) (requestId : String) :
    DevicePairingManager × Option PairingRequest :=
  match m.findPendingRequest requestId with
  | none => (m, none)
  | some request => (m.dropRequest requestId, some request)

def removePairedDevice (m : DevicePairingManager) (deviceId : String) :
    DevicePairingManager × Option PairedDevice :=
  match m.findPairedDevice deviceId with
  | none => (m, none)
  | some dev =>
    ({ m with pairedDevices := m.pairedDevices.filter (·.deviceId ≠ deviceId) }, some dev)

/-- The token that a rotation gives to a device. -/
def rotatedToken (dev : PairedDevice) (role : String) (scopes : List String) (token : String)
    (nowMs : Int) : DeviceToken where
  role
  token
  scopes := if scopes = [] then dev.approvedScopes else scopes
  createdAtMs := ((dev.tokens.lookup role).map DeviceToken.createdAtMs).getD nowMs
  rotatedAtMs := nowMs

def setToken (role : String) (token : DeviceToken) (dev : PairedDevice) : PairedDevice :=
  { dev with tokens := dev.tokens.insert role token }

def rotateDeviceToken (m : DevicePairingManager) (deviceId role : String) (scopes : List String)
    (token : String) (nowMs : Int) : DevicePairingManager × Option DeviceToken :=
  match m.findPairedDevice deviceId with
  | none => (m, none)
  | some dev =>
    let new := rotatedToken dev role scopes token nowMs
    ({ m with pairedDevices := modifyFirst deviceId (setToken role new) m.pairedDevices }, some new)

def dropToken (role : String) (dev : PairedDevice) : PairedDevice :=
  { dev with tokens := dev.tokens.erase role }

def revokeDeviceToken (m : DevicePairingManager) (deviceId role : String) :
    DevicePairingManager × Bool :=
  match m.findPairedDevice deviceId with
  | none => (m, false)
  | some dev =>
    match dev.tokens.lookup role with
    | none => (m, false)
    | some _ =>
      ({ m with pairedDevices := modifyFirst deviceId (dropToken role) m.pairedDevices }, true)

/-- A call of the manager. -/
def apply (m : DevicePairingManager) : PairingCall → DevicePairingManager
  | .addPairingRequest request => m.addPairingRequest request
  | .approvePairing requestId token nowMs => (m.approvePairing requestId token nowMs).1
  | .rejectPairing requestId => (m.rejectPairing requestId).1
  | .removePairedDevice deviceId => (m.removePairedDevice deviceId).1
  | .rotateDeviceToken deviceId role scopes token nowMs =>
    (m.rotateDeviceToken deviceId role scopes token nowMs).1
  | .revokeDeviceToken deviceId role => (m.revokeDeviceToken deviceId role).1

def step (m : DevicePairingManager) (c : PairingCall) : Option DevicePairingManager := some (m.apply c)

/-! ## The statement -/

def Scoped (dev : PairedDevice) : Prop :=
  ∀ role token, dev.tokens.lookup role = some token → token.scopes ⊆ dev.approvedScopes

/-- Each device is paired once, and its tokens have approved scopes only. -/
structure Sound (m : DevicePairingManager) : Prop where
  once : (m.pairedDevices.map PairedDevice.deviceId).Nodup
  within : ∀ dev ∈ m.pairedDevices, Scoped dev

/-- A call leaves the devices sound, and no record, and so no token, of a device that it removes. -/
def Secure (m : DevicePairingManager) (c : PairingCall) : Prop :=
  (m.apply c).Sound ∧
    ∀ deviceId, c = .removePairedDevice deviceId →
      ∀ dev ∈ (m.apply c).pairedDevices, dev.deviceId ≠ deviceId

/-- A request is approved for a device that is not paired, and a token is rotated to approved scopes, or
to all of them. -/
def Proper (m : DevicePairingManager) : PairingCall → Prop
  | .approvePairing requestId _ _ => ∀ request, m.findPendingRequest requestId = some request →
      m.findPairedDevice request.deviceId = none
  | .rotateDeviceToken deviceId _ scopes _ _ => ∀ dev, m.findPairedDevice deviceId = some dev →
      scopes ⊆ dev.approvedScopes
  | _ => True

/-! ## The records -/

variable {m : DevicePairingManager} {deviceId : String} {dev : PairedDevice}

theorem exists_split
    (h : m.findPairedDevice deviceId = some dev) :
    ∃ before after, m.pairedDevices = before ++ dev :: after ∧
      ∀ f, modifyFirst deviceId f m.pairedDevices = before ++ f dev :: after := by
  obtain ⟨hdev, before, after, hsplit, hbefore⟩ := find?_eq_some_iff_append.1 h
  refine ⟨before, after, hsplit, fun f => ?_⟩
  rw [hsplit]
  clear hsplit
  induction before with
  | nil => exact if_pos (of_decide_eq_true hdev)
  | cons d before ih =>
    rw [forall_mem_cons] at hbefore
    have hne : d.deviceId ≠ deviceId := by simpa using hbefore.1
    rw [cons_append, modifyFirst, if_neg hne, ih hbefore.2]
    rfl

theorem findPairedDevice_eq_none_iff :
    m.findPairedDevice deviceId = none ↔ deviceId ∉ m.pairedDevices.map PairedDevice.deviceId := by
  rw [findPairedDevice, find?_eq_none, mem_map]
  simp only [decide_eq_true_eq]
  exact ⟨fun h ⟨dev, hdev, hid⟩ => h dev hdev hid, fun h dev hdev hid => h ⟨dev, hdev, hid⟩⟩

theorem sound_modifyFirst_iff (h : m.Sound) (hdev : m.findPairedDevice deviceId = some dev) {f : PairedDevice → PairedDevice}
    (hf : (f dev).deviceId = dev.deviceId) :
    Sound { m with pairedDevices := modifyFirst deviceId f m.pairedDevices } ↔ Scoped (f dev) := by
  obtain ⟨before, after, hsplit, hmodify⟩ := exists_split hdev
  have honce := h.once
  have hscoped := h.within
  rw [hsplit] at honce hscoped
  rw [hmodify]
  refine ⟨fun hsound => hsound.within _ (by simp), fun hnew => ⟨?_, fun d hd => ?_⟩⟩
  · simpa [hf] using honce
  · rcases mem_append.1 hd with hd | hd
    · exact hscoped d (mem_append_left _ hd)
    · rcases mem_cons.1 hd with rfl | hd
      · exact hnew
      · exact hscoped d (mem_append_right _ (mem_cons_of_mem _ hd))

theorem scoped_deviceOf (request : PairingRequest) (token : String) (nowMs : Int) :
    Scoped (deviceOf request token nowMs) := by
  intro role t ht
  rw [deviceOf, Table.lookup_insert_ite] at ht
  by_cases hrole : role = request.role
  · rw [if_pos hrole] at ht
    obtain rfl := Option.some.inj ht
    exact List.Subset.refl _
  · rw [if_neg hrole] at ht
    cases ht

theorem scoped_setToken_iff (h : Scoped dev) (role : String) (scopes : List String)
    (token : String) (nowMs : Int) :
    Scoped (setToken role (rotatedToken dev role scopes token nowMs) dev) ↔
      scopes ⊆ dev.approvedScopes := by
  have hlookup : ∀ role', (setToken role (rotatedToken dev role scopes token nowMs) dev).tokens.lookup role' =
      if role' = role then some (rotatedToken dev role scopes token nowMs) else dev.tokens.lookup role' :=
    fun role' => Table.lookup_insert_ite _ _ _ _
  have hnew : (rotatedToken dev role scopes token nowMs).scopes ⊆ dev.approvedScopes ↔
      scopes ⊆ dev.approvedScopes := by
    rw [rotatedToken]
    by_cases hempty : scopes = []
    · rw [if_pos hempty, hempty]
      exact iff_of_true (List.Subset.refl _) (nil_subset _)
    · rw [if_neg hempty]
  rw [← hnew]
  constructor
  · intro hscoped
    exact hscoped role _ (by rw [hlookup, if_pos rfl])
  · intro hsub role' t ht
    rw [hlookup] at ht
    by_cases hrole : role' = role
    · rw [if_pos hrole] at ht
      obtain rfl := Option.some.inj ht
      exact hsub
    · rw [if_neg hrole] at ht
      exact h role' t ht

theorem scoped_dropToken (h : Scoped dev) (role : String) : Scoped (dropToken role dev) := by
  intro role' t ht
  rw [dropToken, Table.lookup_erase_ite] at ht
  by_cases hrole : role' = role
  · rw [if_pos hrole] at ht
    cases ht
  · rw [if_neg hrole] at ht
    exact h role' t ht

/-! ## Calls -/

theorem sound_approvePairing_iff (h : m.Sound) (requestId token : String)
    (nowMs : Int) :
    (m.approvePairing requestId token nowMs).1.Sound ↔ m.Proper (.approvePairing requestId token nowMs) := by
  rw [approvePairing, Proper]
  cases m.findPendingRequest requestId with
  | none => exact iff_of_true h nofun
  | some request =>
    have honce : ((m.pairedDevices ++ [deviceOf request token nowMs]).map PairedDevice.deviceId).Nodup ↔
        m.findPairedDevice request.deviceId = none := by
      rw [findPairedDevice_eq_none_iff, map_append, map_singleton, nodup_append_comm,
        singleton_append, nodup_cons, and_iff_left h.once]
      rfl
    constructor
    · rintro hsound request' heq
      obtain rfl := Option.some.inj heq
      exact honce.1 hsound.once
    · intro hproper
      refine ⟨honce.2 (hproper request rfl), fun dev hdev => ?_⟩
      rcases mem_append.1 hdev with hdev | hdev
      · exact h.within dev hdev
      · rw [mem_singleton.1 hdev]
        exact scoped_deviceOf request token nowMs

theorem sound_rotateDeviceToken_iff (h : m.Sound) (deviceId role : String)
    (scopes : List String) (token : String) (nowMs : Int) :
    (m.rotateDeviceToken deviceId role scopes token nowMs).1.Sound ↔
      m.Proper (.rotateDeviceToken deviceId role scopes token nowMs) := by
  rw [rotateDeviceToken, Proper]
  cases hdev : m.findPairedDevice deviceId with
  | none => exact iff_of_true h nofun
  | some dev =>
    have hscoped : Scoped dev := h.within dev (mem_of_find?_eq_some hdev)
    refine (sound_modifyFirst_iff h hdev rfl).trans ((scoped_setToken_iff hscoped _ _ _ _).trans ?_)
    refine ⟨fun hsub dev' heq => ?_, fun hproper => hproper dev rfl⟩
    obtain rfl := Option.some.inj heq
    exact hsub

theorem sound_revokeDeviceToken (h : m.Sound) (deviceId role : String) :
    (m.revokeDeviceToken deviceId role).1.Sound := by
  rw [revokeDeviceToken]
  cases hdev : m.findPairedDevice deviceId with
  | none => exact h
  | some dev =>
    simp only
    cases dev.tokens.lookup role with
    | none => exact h
    | some token =>
      have hscoped : Scoped dev := h.within dev (mem_of_find?_eq_some hdev)
      exact (sound_modifyFirst_iff h hdev rfl).2 (scoped_dropToken hscoped role)

theorem removePairedDevice_spec (h : m.Sound) (deviceId : String) :
    (m.removePairedDevice deviceId).1.Sound ∧
      ∀ dev ∈ (m.removePairedDevice deviceId).1.pairedDevices, dev.deviceId ≠ deviceId := by
  rw [removePairedDevice]
  cases hdev : m.findPairedDevice deviceId with
  | none =>
    refine ⟨h, fun dev hmem hid => findPairedDevice_eq_none_iff.1 hdev ?_⟩
    exact mem_map.2 ⟨dev, hmem, hid⟩
  | some dev =>
    refine ⟨⟨?_, fun d hd => h.within d (mem_filter.1 hd).1⟩, fun d hd => ?_⟩
    · exact h.once.sublist (filter_sublist.map _)
    · exact of_decide_eq_true (mem_filter.1 hd).2

theorem secure_iff_proper (h : m.Sound) (c : PairingCall) : m.Secure c ↔ m.Proper c := by
  cases c with
  | addPairingRequest request => exact iff_of_true ⟨⟨h.once, h.within⟩, nofun⟩ trivial
  | approvePairing requestId token nowMs =>
    exact (and_iff_left nofun).trans (sound_approvePairing_iff h requestId token nowMs)
  | rejectPairing requestId =>
    refine iff_of_true ⟨?_, nofun⟩ trivial
    rw [apply, rejectPairing]
    cases m.findPendingRequest requestId with
    | none => exact h
    | some request => exact ⟨h.once, h.within⟩
  | removePairedDevice deviceId =>
    obtain ⟨hsound, hgone⟩ := removePairedDevice_spec h deviceId
    refine iff_of_true ⟨hsound, fun deviceId' heq => ?_⟩ trivial
    cases heq
    exact hgone
  | rotateDeviceToken deviceId role scopes token nowMs =>
    exact (and_iff_left nofun).trans (sound_rotateDeviceToken_iff h deviceId role scopes token nowMs)
  | revokeDeviceToken deviceId role =>
    exact iff_of_true ⟨sound_revokeDeviceToken h deviceId role, nofun⟩ trivial

/-- **Tokens stay within the approval.**  Along a run of a new manager devices are paired once, tokens have
approved scopes, and removed devices leave no token exactly when every call is proper. -/
theorem secure_iff (calls : List PairingCall) :
    Along step Secure {} calls ↔ Along step Proper {} calls := by
  refine along_congr (motive := Sound) ?_ (fun m c h => secure_iff_proper h c) ⟨nodup_nil, nofun⟩
  intro m c m' h hproper hstep
  rw [← Option.some.inj hstep]
  exact ((secure_iff_proper h c).2 hproper).1

/-- A device with the scope to read gets a token to write. -/
theorem not_secure : ¬ ∀ calls : List PairingCall, Along step Secure {} calls := by
  intro h
  obtain ⟨-, hrest⟩ := h [.addPairingRequest ⟨"r", "phone", "Phone", "operator", ["read"], 0, ""⟩,
    .approvePairing "r" "qc_0" 0, .rotateDeviceToken "phone" "operator" ["write"] "qc_1" 1]
  obtain ⟨-, hrest⟩ := hrest _ rfl
  obtain ⟨⟨hsound, -⟩, -⟩ := hrest _ rfl
  have hscoped := hsound.within _ mem_cons_self "operator" _ rfl
  have hmem : "write" ∈ ["read"] := hscoped mem_cons_self
  revert hmem
  decide

end DevicePairingManager

end RavBot.Gateway
