import RavBot.Lib.Run
import RavBot.Lib.Table

/-!
# Routes of messages

Model of `RouteManager`, which the gateway asks for a route for every request frame and tells how the answer fared.
It keeps the routes under their ids and, for every session, the ids of its messages.  What it is for is a log of
the routes in the order in which they were attached (`RouteLog`), and for as long as its counter does not wrap no
caller can tell the two apart.
-/

open List

namespace RavBot.Gateway

open Lib

inductive MessagePriority where
  | low | normal | high | urgent
  deriving DecidableEq

inductive DeliveryStatus where
  | pending | delivered | failed
  deriving DecidableEq

structure RouteMetadata where
  messageId : String
  sourceChannel : String := ""
  targetSession : String
  parentMessageId : String := ""
  timestamp : Int
  priority : MessagePriority := .normal
  status : DeliveryStatus := .pending
  isExternal : Bool := false
  deriving DecidableEq

/-- `RouteManager`.  The counter is a `uint64_t`. -/
structure RouteManager where
  routes : Table String RouteMetadata := ∅
  sessionMessages : Table String (List String) := ∅
  messageCounter : Nat := 0

/-- The id of the message with a number, made at `now` milliseconds. -/
def messageIdOf (now : Int) (counter : Nat) : String := "msg_" ++ toString now ++ "_" ++ toString counter

namespace RouteManager

/-- `generate_message_id`, at `now` milliseconds; the counter moves on in `save`. -/
def generateMessageId (m : RouteManager) (now : Int) : String := messageIdOf now m.messageCounter

/-- Keep a new route. -/
def save (m : RouteManager) (r : RouteMetadata) : RouteManager where
  routes := m.routes.insert r.messageId r
  sessionMessages := m.sessionMessages.appendTo r.targetSession [r.messageId]
  messageCounter := (m.messageCounter + 1) % 2 ^ 64

def attachMetadata (m : RouteManager) (now timestamp : Int) (sourceChannel targetSession : String)
    (isExternal : Bool) : RouteMetadata × RouteManager :=
  let metadata := { messageId := m.generateMessageId now, sourceChannel, targetSession, timestamp, isExternal }
  (metadata, m.save metadata)

end RouteManager

/-- The attributes that a message takes from its parent, if that is known. -/
def RouteMetadata.inherit (metadata : RouteMetadata) : Option RouteMetadata → RouteMetadata
  | some parent =>
    { metadata with
      sourceChannel := parent.sourceChannel, isExternal := parent.isExternal, priority := parent.priority }
  | none => metadata

namespace RouteManager

def inheritRoute (m : RouteManager) (now timestamp : Int) (parentMessageId targetSession : String) :
    RouteMetadata × RouteManager :=
  let metadata : RouteMetadata := { messageId := m.generateMessageId now, parentMessageId, targetSession, timestamp }
  let metadata := metadata.inherit (m.routes.lookup parentMessageId)
  (metadata, m.save metadata)

/-- Change the route with an id, if there is one. -/
def update (m : RouteManager) (id : String) (change : RouteMetadata → RouteMetadata) : RouteManager :=
  match m.routes.lookup id with
  | some r => { m with routes := m.routes.insert id (change r) }
  | none => m

def recordDelivery (m : RouteManager) (messageId : String) (status : DeliveryStatus) : RouteManager :=
  m.update messageId ({ · with status })

def setPriority (m : RouteManager) (messageId : String) (priority : MessagePriority) : RouteManager :=
  m.update messageId ({ · with priority })

def getDeliveryStatus (m : RouteManager) (messageId : String) : DeliveryStatus :=
  ((m.routes.lookup messageId).map (·.status)).getD .pending

def getSessionMessages (m : RouteManager) (sessionId : String) : List RouteMetadata :=
  ((m.sessionMessages.lookup sessionId).getD []).filterMap m.routes.lookup

end RouteManager

/-- A call, with what its two readings of the clock gave. -/
inductive RouteCall where
  | attachMetadata (now timestamp : Int) (sourceChannel targetSession : String) (isExternal : Bool)
  | inheritRoute (now timestamp : Int) (parentMessageId targetSession : String)
  | recordDelivery (messageId : String) (status : DeliveryStatus)
  | setPriority (messageId : String) (priority : MessagePriority)
  | getDeliveryStatus (messageId : String)
  | getSessionMessages (sessionId : String)

/-- What a call returns. -/
inductive RouteAnswer where
  | route (metadata : RouteMetadata)
  | status (status : DeliveryStatus)
  | messages (messages : List RouteMetadata)

/-- What a call returns, and the manager after it. -/
def RouteManager.call (m : RouteManager) : RouteCall → List RouteAnswer × RouteManager
  | .attachMetadata now timestamp source target isExternal =>
    let (metadata, m) := m.attachMetadata now timestamp source target isExternal
    ([.route metadata], m)
  | .inheritRoute now timestamp parent target =>
    let (metadata, m) := m.inheritRoute now timestamp parent target
    ([.route metadata], m)
  | .recordDelivery id status => ([], m.recordDelivery id status)
  | .setPriority id priority => ([], m.setPriority id priority)
  | .getDeliveryStatus id => ([.status (m.getDeliveryStatus id)], m)
  | .getSessionMessages id => ([.messages (m.getSessionMessages id)], m)

/-! ## The log -/

/-- The routes in the order in which they were attached. -/
abbrev RouteLog := List RouteMetadata

namespace RouteLog

/-- The route of a message. -/
def route (log : RouteLog) (id : String) : Option RouteMetadata := log.find? (·.messageId = id)

/-- Change the routes with an id. -/
def update (log : RouteLog) (id : String) (change : RouteMetadata → RouteMetadata) : RouteLog :=
  log.map fun r => if r.messageId = id then change r else r

/-- What a call returns, and the log after it: the messages are numbered in their order. -/
def call (log : RouteLog) : RouteCall → List RouteAnswer × RouteLog
  | .attachMetadata now timestamp sourceChannel targetSession isExternal =>
    let metadata :=
      { messageId := messageIdOf now log.length, sourceChannel, targetSession, timestamp, isExternal }
    ([.route metadata], log ++ [metadata])
  | .inheritRoute now timestamp parentMessageId targetSession =>
    let metadata : RouteMetadata :=
      { messageId := messageIdOf now log.length, parentMessageId, targetSession, timestamp }
    let metadata := metadata.inherit (log.route parentMessageId)
    ([.route metadata], log ++ [metadata])
  | .recordDelivery id status => ([], log.update id ({ · with status }))
  | .setPriority id priority => ([], log.update id ({ · with priority }))
  | .getDeliveryStatus id => ([.status (((log.route id).map (·.status)).getD .pending)], log)
  | .getSessionMessages id => ([.messages (log.filter (·.targetSession = id))], log)

end RouteLog

/-- The answers to a sequence of calls. -/
def RouteManager.answers : RouteManager → List RouteCall → List RouteAnswer :=
  outputs (fun m c => some (m.call c).2) fun m c => (m.call c).1

/-- The answers that a log gives to a sequence of calls. -/
def RouteLog.answers : RouteLog → List RouteCall → List RouteAnswer :=
  outputs (fun log c => some (log.call c).2) fun log c => (log.call c).1

/-! ## The manager keeps the log -/

theorem messageIdOf_inj {now now' : Int} {k k' : Nat} (h : messageIdOf now k = messageIdOf now' k') : k = k' := by
  have hdigits (n : Nat) : (toString n).toList = Nat.toDigits 10 n := by
    rw [Nat.toString_eq_ofList_toDigits, String.toList_ofList]
  -- the number is what stands behind the last underscore
  have hnumber (now : Int) (n : Nat) :
      ((messageIdOf now n).toList.reverse.takeWhile (· ≠ '_')).reverse = Nat.toDigits 10 n := by
    rw [messageIdOf, String.toList_append, String.toList_append, hdigits, reverse_append, reverse_append,
      takeWhile_append_of_pos]
    · show (_ ++ takeWhile _ ('_' :: _)).reverse = _
      rw [takeWhile_cons_of_neg (by decide), append_nil, reverse_reverse]
    · intro c hc
      rw [decide_eq_true_eq]
      rintro rfl
      exact Nat.underscore_not_in_toDigits (mem_reverse.1 hc)
  rw [← Nat.ofDigitChars_ten_toDigits (n := k), ← hnumber now, h, hnumber, Nat.ofDigitChars_ten_toDigits]

theorem RouteLog.messageId_eq {log : RouteLog} {id : String} {r : RouteMetadata} (h : log.route id = some r) :
    r.messageId = id := by
  have hfound := find?_some h
  rwa [decide_eq_true_eq] at hfound

/-- The manager and the log know the same, and there is room in the counter for some more messages. -/
structure RouteManager.Keeps (left : Nat) (m : RouteManager) (log : RouteLog) : Prop where
  room : log.length + left ≤ 2 ^ 64
  counter : m.messageCounter = log.length % 2 ^ 64
  numbered : ∀ i r, log[i]? = some r → ∃ now, r.messageId = messageIdOf now i
  routes : ∀ id, m.routes.lookup id = log.route id
  sessions : ∀ id, (m.sessionMessages.lookup id).getD [] =
    (log.filter (·.targetSession = id)).map (·.messageId)

namespace RouteManager.Keeps

variable {left : Nat} {m : RouteManager} {log : RouteLog} {r : RouteMetadata}

theorem route_of_mem (h : Keeps left m log) (hr : r ∈ log) : log.route r.messageId = some r := by
  obtain ⟨r', hfind⟩ : ∃ r', log.route r.messageId = some r' :=
    Option.isSome_iff_exists.1 (find?_isSome.2 ⟨r, hr, decide_eq_true rfl⟩)
  obtain ⟨i, hi⟩ := mem_iff_getElem?.1 hr
  obtain ⟨j, hj⟩ := mem_iff_getElem?.1 (mem_of_find?_eq_some hfind)
  obtain ⟨now, hnow⟩ := h.numbered i r hi
  obtain ⟨now', hnow'⟩ := h.numbered j r' hj
  have hij : j = i := messageIdOf_inj (hnow'.symm.trans ((RouteLog.messageId_eq hfind).trans hnow))
  rw [hij, hi] at hj
  rw [hfind, hj]

theorem generateMessageId_eq (h : Keeps (left + 1) m log) (now : Int) :
    m.generateMessageId now = messageIdOf now log.length := by
  have := h.room
  rw [generateMessageId, h.counter, Nat.mod_eq_of_lt (by omega)]

theorem route_new (h : Keeps left m log) (now : Int) : log.route (messageIdOf now log.length) = none := by
  rw [RouteLog.route, find?_eq_none]
  intro r hr heq
  obtain ⟨i, hi⟩ := mem_iff_getElem?.1 hr
  obtain ⟨now', hnow⟩ := h.numbered i r hi
  have hlast : i = log.length := messageIdOf_inj (hnow ▸ of_decide_eq_true heq)
  exact absurd (List.getElem?_eq_some_iff.1 hi).1 (by omega)

/-- A new route is the last of the log. -/
theorem save (h : Keeps (left + 1) m log) {now : Int} (hid : r.messageId = messageIdOf now log.length) :
    Keeps left (m.save r) (log ++ [r]) where
  room := by
    have := h.room
    rw [length_append, length_singleton]
    omega
  counter := by
    show (m.messageCounter + 1) % 2 ^ 64 = _
    rw [h.counter, Nat.mod_add_mod, length_append, length_singleton]
  numbered := by
    intro i r' hr'
    rw [getElem?_append] at hr'
    split_ifs at hr' with hi
    · exact h.numbered i r' hr'
    · obtain ⟨hlast, heq⟩ := List.getElem?_eq_some_iff.1 hr'
      rw [length_singleton] at hlast
      obtain rfl : i = log.length := by omega
      rw [← heq, getElem_singleton]
      exact ⟨now, hid⟩
  routes := by
    intro id
    show (m.routes.insert r.messageId r).lookup id = _
    rw [Table.lookup_insert_ite, h.routes, RouteLog.route, RouteLog.route, find?_append, find?_singleton]
    by_cases hsame : id = r.messageId
    · have hnew : log.route id = none := by rw [hsame, hid, h.route_new]
      rw [RouteLog.route] at hnew
      rw [if_pos hsame, hnew, Option.none_or, if_pos (decide_eq_true hsame.symm)]
    · rw [if_neg hsame, if_neg (by simpa using Ne.symm hsame), Option.or_none]
  sessions := by
    intro id
    show ((m.sessionMessages.appendTo r.targetSession [r.messageId]).lookup id).getD [] = _
    rw [Table.appendTo, Table.lookup_insert_ite, filter_append, map_append, ← h.sessions]
    by_cases hsame : id = r.targetSession
    · subst hsame
      simp
    · simp [hsame, Ne.symm hsame]

/-- A change that leaves the id and the session as they are is made in the log as well. -/
theorem update (h : Keeps (left + 1) m log) (id : String) {change : RouteMetadata → RouteMetadata}
    (hchange : ∀ r, (change r).messageId = r.messageId ∧ (change r).targetSession = r.targetSession) :
    Keeps left (m.update id change) (log.update id change) := by
  have hid (r : RouteMetadata) : (if r.messageId = id then change r else r).messageId = r.messageId := by
    split_ifs
    · exact (hchange r).1
    · rfl
  have hsession (r : RouteMetadata) : (if r.messageId = id then change r else r).targetSession = r.targetSession := by
    split_ifs
    · exact (hchange r).2
    · rfl
  have hroute (id' : String) : (log.update id change).route id' =
      (log.route id').map fun r => if r.messageId = id then change r else r := by
    rw [RouteLog.route, RouteLog.update, find?_map]
    simp only [Function.comp_def, hid]
    rfl
  refine ⟨?_, ?_, ?_, ?_, ?_⟩
  · have := h.room
    rw [RouteLog.update, length_map]
    omega
  · rw [RouteLog.update, length_map, ← h.counter, RouteManager.update]
    split <;> rfl
  · intro i r hr
    rw [RouteLog.update, getElem?_map, Option.map_eq_some_iff] at hr
    obtain ⟨r', hr', rfl⟩ := hr
    rw [hid]
    exact h.numbered i r' hr'
  · intro id'
    rw [hroute, RouteManager.update, h.routes]
    cases hfind : log.route id with
    | none =>
      dsimp only
      rw [h.routes]
      cases hfind' : log.route id' with
      | none => rfl
      | some r =>
        have hr : r.messageId = id' := RouteLog.messageId_eq hfind'
        rw [Option.map_some, if_neg]
        rintro rfl
        rw [hr, hfind'] at hfind
        cases hfind
    | some r =>
      dsimp only
      rw [Table.lookup_insert_ite, h.routes]
      split_ifs with hsame
      · have hr : r.messageId = id := RouteLog.messageId_eq hfind
        rw [hsame, hfind, Option.map_some, if_pos hr]
      · cases hfind' : log.route id' with
        | none => rfl
        | some r' =>
          have hr' : r'.messageId = id' := RouteLog.messageId_eq hfind'
          rw [Option.map_some, if_neg (hr' ▸ hsame)]
  · intro session
    have hkept : (m.update id change).sessionMessages = m.sessionMessages := by
      rw [RouteManager.update]
      split <;> rfl
    rw [hkept, h.sessions, RouteLog.update, filter_map, map_map]
    simp only [Function.comp_def, hid, hsession]

theorem getSessionMessages_eq (h : Keeps left m log) (id : String) :
    m.getSessionMessages id = log.filter (·.targetSession = id) := by
  rw [getSessionMessages, h.sessions, filterMap_map]
  calc (log.filter (·.targetSession = id)).filterMap (m.routes.lookup ∘ (·.messageId))
    _ = (log.filter (·.targetSession = id)).filterMap some :=
      filterMap_congr fun r hr => (h.routes _).trans (h.route_of_mem (mem_of_mem_filter hr))
    _ = log.filter (·.targetSession = id) := filterMap_some

/-- One call: both answer the same, and know the same afterwards. -/
theorem call (h : Keeps (left + 1) m log) (c : RouteCall) :
    (m.call c).1 = (log.call c).1 ∧ Keeps left (m.call c).2 (log.call c).2 := by
  have hless : Keeps left m log := ⟨by have := h.room; omega, h.counter, h.numbered, h.routes, h.sessions⟩
  cases c with
  | attachMetadata now timestamp source target isExternal =>
    rw [RouteManager.call, RouteLog.call, attachMetadata, h.generateMessageId_eq]
    exact ⟨rfl, h.save rfl⟩
  | inheritRoute now timestamp parent target =>
    rw [RouteManager.call, RouteLog.call, inheritRoute, h.generateMessageId_eq, h.routes]
    refine ⟨rfl, @save left m log _ h now ?_⟩
    cases log.route parent <;> rfl
  | recordDelivery id status => exact ⟨rfl, h.update id fun _ => ⟨rfl, rfl⟩⟩
  | setPriority id priority => exact ⟨rfl, h.update id fun _ => ⟨rfl, rfl⟩⟩
  | getDeliveryStatus id =>
    refine ⟨?_, hless⟩
    simp only [RouteManager.call, RouteLog.call, getDeliveryStatus, h.routes]
  | getSessionMessages id =>
    refine ⟨?_, hless⟩
    simp only [RouteManager.call, RouteLog.call, h.getSessionMessages_eq]

end RouteManager.Keeps

theorem RouteManager.keeps_empty {n : Nat} (hn : n ≤ 2 ^ 64) : Keeps n {} [] :=
  ⟨by simpa using hn, rfl, by simp, fun _ => rfl, fun _ => rfl⟩

/-- **The manager is the log.**  To every sequence of calls, for as long as the counter does not wrap, the manager
gives the answers of the log: each message has a new id, what is asked of a message is what was last said of it,
and the messages of a session are those attached to it, in their order. -/
theorem RouteManager.answers_eq_log (calls : List RouteCall) (h : calls.length ≤ 2 ^ 64) :
    RouteManager.answers {} calls = RouteLog.answers [] calls :=
  outputs_congr (R := Keeps) (fun _ _ _ c hkeeps => ⟨(hkeeps.call c).1, .some (hkeeps.call c).2⟩) (keeps_empty h)

/-- A request whose answer is delivered. -/
def deliveredCalls : List RouteCall :=
  [.attachMetadata 5 7 "websocket" "conn" false, .recordDelivery "msg_5_0" .delivered, .getSessionMessages "conn"]

theorem RouteManager.answers_eq_log_delivered :
    RouteManager.answers {} deliveredCalls = RouteLog.answers [] deliveredCalls :=
  RouteManager.answers_eq_log deliveredCalls (by decide)

end RavBot.Gateway
