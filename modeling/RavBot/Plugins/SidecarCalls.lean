import RavBot.Lib.Json
import RavBot.Lib.LineDecoder
import RavBot.Lib.Run

/-!
# Calls of the sidecar

`SidecarManager::Call` writes a request as one line and takes the next line that comes back as its response.  The
connection is a stream of characters in each direction; `RpcServer` answers every line that it reads with one
line, after any time and in any order.  A call reads until the end of a line, until its deadline, or until the
line is too long.

What a call has read when its deadline comes is taken for the response.  If it is nothing, the connection is
closed.  If it is a part of a response, the connection stays, and the rest of the response is read by the next
call, whose own response is read by the one after it (`not_ownAnswers_cutRun`).  As long as no call stops within a
response, every call gets its own (`ownAnswers_of_whole`).

The texts of values are a parameter.  That the sidecar is started anew is modelled as a new connection.
-/

open List

namespace RavBot.Plugins

open RavBot.Lib

/-! ## Texts -/

/-- The texts of values on both sides, and the methods of the sidecar.  The manager writes with `dump` and reads
with `parse`; the sidecar reads with `JSON.parse` and writes with `JSON.stringify`. -/
structure Wire where
  dump : Json → List Char
  parse : List Char → Option Json
  jsonParse : List Char → Option Json
  stringify : Json → List Char
  methods : List String

/-- `SidecarRequest::to_json`. -/
def sidecarRequest (method : String) (params : Json) (id : Int) : Json :=
  .object [("jsonrpc", .str "2.0"), ("method", .str method), ("params", params), ("id", .int id)]

structure SidecarResponse where
  id : Int := 0
  result : Json := .null
  error : String := ""
  ok : Bool := true

/-- `SidecarResponse::FromJson`; `none` when a field has another type. -/
def SidecarResponse.fromJson (w : Wire) (j : Json) : Option SidecarResponse := do
  let id ← j.value Json.getInt "id" 0
  match j.find? "error" with
  | some error =>
    if error.isObject then
      let message ← error.value Json.getString "message" (String.ofList (w.dump error))
      return { id, error := message, ok := false }
    else return { id, error := String.ofList (w.dump error), ok := false }
  | none => return { id, result := (j.find? "result").getD .null }

/-! ## The sidecar -/

/-- The white space that `trim` of a JavaScript string removes. -/
def isJsSpace (c : Char) : Bool :=
  c ∈ ['\t', '\n', '\x0b', '\x0c', '\r', ' ', '\u00a0', '\u1680', '\u2028', '\u2029', '\u202f', '\u205f', '\u3000',
    '\ufeff'] || '\u2000' ≤ c && c ≤ '\u200a'

/-- `trim`. -/
def trimJs (line : List Char) : List Char :=
  ((line.dropWhile isJsSpace).reverse.dropWhile isJsSpace).reverse

namespace RpcServer

def resultResponse (id result : Json) : Json :=
  .object [("jsonrpc", .str "2.0"), ("result", result), ("id", id)]

def errorResponse (id : Json) (code : Int) (message : String) : Json :=
  .object [("jsonrpc", .str "2.0"), ("error", .object [("code", .int code), ("message", .str message)]), ("id", id)]

def methodOf (request : Json) : Option String :=
  match request.find? "method" with
  | some (.str method) => if method = "" then none else some method
  | _ => none

/-- `handleLine`: the ids of the requests whose handlers are executed, and the responses that are sent, each with
the id that it is for. -/
def handleLine (w : Wire) (executing : List Json) (line : List Char) : Reaction (List Json) (Json × Json) :=
  match w.jsonParse line with
  | none => { state := executing, out := [(.null, errorResponse .null (-32700) "Parse error")] }
  | some request =>
    match methodOf request, request.find? "id" with
    | some method, some id =>
      if method ∈ w.methods then { state := executing ++ [id] }
      else { state := executing, out := [(id, errorResponse id (-32601) ("Method not found: " ++ method))] }
    | _, id =>
      { state := executing, out := [(id.getD .null, errorResponse (id.getD .null) (-32600) "Invalid Request")] }

/-- `processBuffer`: a line. -/
def processLine (w : Wire) (executing : List Json) (line : List Char) : Reaction (List Json) (Json × Json) :=
  if trimJs line = [] then { state := executing } else handleLine w executing (trimJs line)

/-- `executeHandler`: the response, when the handler has returned a value or thrown. -/
def handlerResponse (id : Json) : Except String Json → Json
  | .ok result => resultResponse id (if result.isNull then .object [] else result)
  | .error message => errorResponse id (-32000) message

end RpcServer

/-! ## The connection -/

/-- What was sent and not read yet in each direction, the beginning of a line that the sidecar has read, and the ids
of the requests whose handlers it executes. -/
structure SidecarConnection where
  requests : List Char := []
  responses : List Char := []
  buffer : List Char := []
  executing : List Json := []

namespace SidecarConnection

def lines (w : Wire) (sent : List (Json × Json)) : List Char := sent.flatMap fun r => w.stringify r.2 ++ ['\n']

/-- The sidecar reads so many characters, and what it sends at once. -/
def data (w : Wire) (c : SidecarConnection) (n : Nat) : SidecarConnection × List (Json × Json) :=
  let p := pump (RpcServer.processLine w) [] c.executing (c.buffer ++ c.requests.take n)
  let sent := p.trace.filterMap Except.toOption
  ({ requests := c.requests.drop n, responses := c.responses ++ lines w sent, buffer := p.buffer, executing := p.state },
    sent)

/-- A handler has ended. -/
def answer (w : Wire) (c : SidecarConnection) (i : Nat) (id : Json) (outcome : Except String Json) :
    SidecarConnection :=
  { c with
    executing := c.executing.eraseIdx i
    responses := c.responses ++ lines w [(id, RpcServer.handlerResponse id outcome)] }

end SidecarConnection

/-! ## The manager -/

inductive CallResult where
  | notRunning
  | cannotConnect
  | writeFailed
  | timeout
  | received (line : List Char)
deriving DecidableEq

/-- What a call returns. -/
def CallResult.response (w : Wire) : CallResult → SidecarResponse
  | notRunning => { ok := false, error := "Sidecar not running" }
  | cannotConnect => { ok := false, error := "Cannot connect to sidecar" }
  | writeFailed => { ok := false, error := "Write to sidecar failed" }
  | timeout => { ok := false, error := "Sidecar response timeout" }
  | received line =>
    match (w.parse line).bind (SidecarResponse.fromJson w) with
    | some response => response
    -- The text of the exception is left out.
    | none => { ok := false, error := "Invalid sidecar response: " }

/-- The manager and its sidecar.  The call that reads holds `ipc_mu_`; `results` and `sent` record what the calls
returned, with the ids of their requests, and what the sidecar sent, with the ids that it is for. -/
structure SidecarManager where
  rpcId : Int := 1
  ipcHandle : Option SidecarConnection := none
  reading : Option (Int × List Char) := none
  results : List (Option Int × CallResult) := []
  sent : List (Json × Json) := []

inductive SidecarEvent where
  /-- `Call` up to the end of `ipc_write`. -/
  | call (method : String) (params : Json) (running connects written : Bool)
  /-- `ipc_read_line` reads a character. -/
  | recv
  /-- The deadline of `ipc_read_line` has come. -/
  | deadline
  /-- The sidecar is handed so many characters. -/
  | data (n : Nat)
  /-- A handler ends. -/
  | answer (i : Nat) (outcome : Except String Json)
  /-- The sidecar was found dead, and was started again or not. -/
  | restart (spawned : Bool)

def kMaxSize : Nat := 16 * 1024 * 1024

namespace SidecarManager

/-- `Call` after `ipc_read_line` has returned. -/
def finish (s : SidecarManager) (id : Int) (line : List Char) : SidecarManager :=
  if line = [] then
    { s with reading := none, ipcHandle := none, results := s.results ++ [(some id, .timeout)] }
  else { s with reading := none, results := s.results ++ [(some id, .received line)] }

/-- `Call` up to the end of `ipc_write`. -/
def call (w : Wire) (s : SidecarManager) (method : String) (params : Json) (connects written : Bool) :
    SidecarManager :=
  if s.ipcHandle.isNone ∧ connects = false then { s with results := s.results ++ [(none, .cannotConnect)] }
  else
    let connection := s.ipcHandle.getD {}
    let payload := w.dump (sidecarRequest method params s.rpcId) ++ ['\n']
    if written then
      { s with
        rpcId := s.rpcId + 1
        ipcHandle := some { connection with requests := connection.requests ++ payload }
        reading := some (s.rpcId, []) }
    else
      { s with
        rpcId := s.rpcId + 1
        ipcHandle := none
        results := s.results ++ [(some s.rpcId, .writeFailed)] }

/-- `ipc_read_line`: a character. -/
def recv (s : SidecarManager) (id : Int) (line : List Char) (connection : SidecarConnection) (c : Char)
    (responses : List Char) : SidecarManager :=
  let s := { s with ipcHandle := some { connection with responses } }
  if c = '\n' then s.finish id line
  else if kMaxSize < (line ++ [c]).length then s.finish id (line ++ [c])
  else { s with reading := some (id, line ++ [c]) }

/-- What happens; `none` where it cannot. -/
def step (w : Wire) (s : SidecarManager) : SidecarEvent → Option SidecarManager
  | .call method params running connects written =>
    if running = false then some { s with results := s.results ++ [(none, .notRunning)] }
    else if s.reading.isSome then none
    else some (s.call w method params connects written)
  | .recv =>
    match s.reading, s.ipcHandle with
    | some (id, line), some connection =>
      match connection.responses with
      | [] => none
      | c :: responses => some (s.recv id line connection c responses)
    | _, _ => none
  | .deadline => s.reading.map fun r => s.finish r.1 r.2
  | .data n => s.ipcHandle.map fun connection =>
    { s with ipcHandle := some (connection.data w n).1, sent := s.sent ++ (connection.data w n).2 }
  | .answer i outcome => do
      let connection ← s.ipcHandle
      let id ← connection.executing[i]?
      return { s with
        ipcHandle := some (connection.answer w i id outcome)
        sent := s.sent ++ [(id, RpcServer.handlerResponse id outcome)] }
  | .restart spawned =>
    if s.reading.isSome then none
    else some { s with ipcHandle := if spawned then some {} else none }

end SidecarManager

/-! ## What is relied on -/

namespace Wire

/-- The text of a request is one line, and what the sidecar reads from it has the id of the request. -/
def Relays (w : Wire) (request : List Char) (id : Int) : Prop :=
  '\n' ∉ request ∧ trimJs request ≠ [] ∧
    (w.jsonParse (trimJs request)).bind (·.find? "id") = some (.int id)

def Legible (w : Wire) (response : Json) : Prop :=
  '\n' ∉ w.stringify response ∧ w.stringify response ≠ [] ∧ w.parse (w.stringify response) = some response

end Wire

namespace SidecarManager

/-- The texts of the requests and responses of a step are good. -/
def Carried (w : Wire) (s : SidecarManager) : SidecarEvent → Prop
  | .call method params .. => w.Relays (w.dump (sidecarRequest method params s.rpcId)) s.rpcId
  | .data n => ∀ connection ∈ s.ipcHandle, ∀ r ∈ (connection.data w n).2, w.Legible r.2
  | .answer i outcome => ∀ connection ∈ s.ipcHandle, ∀ id ∈ connection.executing[i]?,
      w.Legible (RpcServer.handlerResponse id outcome)
  | _ => True

/-- No call stops within a response: when its deadline comes, it has read nothing, or all but the end of the line;
and a response that is too long is not read. -/
def Whole (s : SidecarManager) : SidecarEvent → Prop
  | .deadline => ∀ r ∈ s.reading, ∀ connection ∈ s.ipcHandle,
      r.2 = [] ∨ connection.responses[0]? = some '\n'
  | .recv => ∀ r ∈ s.reading, ∀ connection ∈ s.ipcHandle,
      r.2.length < kMaxSize ∨ connection.responses[0]? = some '\n' ∨ connection.responses[1]? = some '\n'
  | _ => True

/-- Every line that a call has received is the response to its own request, and so is what a call returned that
succeeded. -/
structure OwnAnswers (w : Wire) (s : SidecarManager) : Prop where
  lines : ∀ id line, (some id, CallResult.received line) ∈ s.results →
    ∃ response, (Json.int id, response) ∈ s.sent ∧ line = w.stringify response
  results : ∀ id result, (id, result) ∈ s.results → (result.response w).ok = true →
    ∃ n response, id = some n ∧ (Json.int n, response) ∈ s.sent ∧
      SidecarResponse.fromJson w response = some (result.response w)

end SidecarManager

/-! ## The sidecar answers once -/

namespace SidecarConnection

/-- A connection on which no request is open; at most the end of a line was not read. -/
structure Quiet (c : SidecarConnection) : Prop where
  requests : c.requests = []
  buffer : c.buffer = []
  executing : c.executing = []
  responses : c.responses = [] ∨ c.responses = ['\n']

/-- Where the request of a call is, when the call has read the beginning of a line. -/
inductive Phase (w : Wire) (sent : List (Json × Json)) (id : Int) (line : List Char) (c : SidecarConnection) : Prop
  /-- The end of an earlier line will be read first. -/
  | stale (hline : line = []) (hresponses : c.responses[0]? = some '\n')
  | requested (rest : List Char) (hline : line = []) (hresponses : c.responses = []) (hexecuting : c.executing = [])
      (hrequests : c.requests = rest ++ ['\n']) (hrelays : w.Relays (c.buffer ++ rest) id)
  | executed (hline : line = []) (hresponses : c.responses = []) (hexecuting : c.executing = [.int id])
      (hrequests : c.requests = []) (hbuffer : c.buffer = [])
  | answered (response : Json) (hsent : (Json.int id, response) ∈ sent) (hlegible : w.Legible response)
      (htext : line ++ c.responses = w.stringify response ++ ['\n']) (hrequests : c.requests = [])
      (hbuffer : c.buffer = []) (hexecuting : c.executing = [])

theorem data_eq_self (w : Wire) {c : SidecarConnection} (hrequests : c.requests = []) (hbuffer : c.buffer = [])
    (n : Nat) : c.data w n = (c, []) := by
  obtain ⟨requests, responses, buffer, executing⟩ := c
  cases hrequests
  cases hbuffer
  simp [data, pump, lines]

theorem first_append {l : List Char} {c : Char} (h : l[0]? = some c) (more : List Char) :
    (l ++ more)[0]? = some c := by
  cases l with
  | nil => cases h
  | cons d l => exact h

theorem data_of_part (w : Wire) {c : SidecarConnection} {n : Nat}
    (hpart : '\n' ∉ c.buffer ++ c.requests.take n) :
    c.data w n =
      ({ c with requests := c.requests.drop n, buffer := c.buffer ++ c.requests.take n }, []) := by
  have hpump : pump (RpcServer.processLine w) [] c.executing (c.buffer ++ c.requests.take n ++ []) = _ :=
    pump_append_of_not_mem hpart [] c.executing []
  rw [append_nil, nil_append] at hpump
  rw [data, hpump, pump]
  simp [lines]

theorem processLine_flow (w : Wire) (executing : List Json) (line : List Char) :
    (RpcServer.processLine w executing line).flow = .next := by
  rw [RpcServer.processLine, RpcServer.handleLine]
  split_ifs
  · rfl
  · cases w.jsonParse (trimJs line) with
    | none => rfl
    | some request =>
      dsimp only
      split
      · split_ifs <;> rfl
      · rfl

theorem data_of_line (w : Wire) {c : SidecarConnection} {rest : List Char} {n : Nat}
    (hrequests : c.requests = rest ++ ['\n']) (hline : '\n' ∉ c.buffer ++ rest) (hn : rest.length < n) :
    c.data w n =
      ({ requests := []
         responses := c.responses ++ lines w (RpcServer.processLine w c.executing (c.buffer ++ rest)).out
         buffer := []
         executing := (RpcServer.processLine w c.executing (c.buffer ++ rest)).state },
        (RpcServer.processLine w c.executing (c.buffer ++ rest)).out) := by
  have hlength : c.requests.length ≤ n := by
    rw [hrequests, length_append, length_singleton]
    exact hn
  have hpump : pump (RpcServer.processLine w) [] c.executing (c.buffer ++ rest ++ ['\n']) = _ :=
    pump_append_of_not_mem hline [] c.executing ['\n']
  rw [nil_append, pump_next (processLine_flow w _ _)] at hpump
  have hout (l : List (Json × Json)) :
      (l.map Except.ok).filterMap (Except.toOption (ε := String)) = l := by
    rw [filterMap_map]
    exact filterMap_some
  rw [data, take_of_length_le hlength, drop_of_length_le hlength, hrequests, ← append_assoc, hpump,
    pump]
  simp only [append_nil, hout]

theorem processLine_of_relays {w : Wire} {request : List Char} {id : Int} (h : w.Relays request id)
    (executing : List Json) :
    RpcServer.processLine w executing request = { state := executing ++ [.int id] } ∨
      ∃ response, RpcServer.processLine w executing request =
        { state := executing, out := [(.int id, response)] } := by
  obtain ⟨-, htrim, hid⟩ := h
  obtain ⟨r, hr, hid⟩ := Option.bind_eq_some_iff.1 hid
  rw [RpcServer.processLine, if_neg htrim, RpcServer.handleLine, hr]
  dsimp only
  rw [hid]
  cases RpcServer.methodOf r with
  | none => exact .inr ⟨_, rfl⟩
  | some method =>
    dsimp only
    split_ifs
    · exact .inl rfl
    · exact .inr ⟨_, rfl⟩

namespace Phase

variable {w : Wire} {sent : List (Json × Json)} {id : Int} {line : List Char} {c : SidecarConnection}

theorem data (h : Phase w sent id line c) (n : Nat) (hlegible : ∀ r ∈ (c.data w n).2, w.Legible r.2) :
    Phase w (sent ++ (c.data w n).2) id line (c.data w n).1 := by
  cases h with
  | stale hline hresponses =>
    refine .stale hline ?_
    show (c.responses ++ _)[0]? = some '\n'
    exact first_append hresponses _
  | requested rest hline hresponses hexecuting hrequests hrelays =>
    by_cases hn : rest.length < n
    · rw [data_of_line w hrequests hrelays.1 hn, hexecuting, hresponses, nil_append] at hlegible ⊢
      rcases processLine_of_relays hrelays [] with hline' | ⟨response, hline'⟩
      · rw [hline']
        exact .executed hline rfl rfl rfl rfl
      · rw [hline'] at hlegible ⊢
        refine .answered response (mem_append_right _ mem_cons_self)
          (hlegible _ mem_cons_self) ?_ rfl rfl rfl
        rw [hline]
        simp [lines]
    · have hle : n ≤ rest.length := Nat.le_of_not_lt hn
      have htake : c.requests.take n = rest.take n := by
        rw [hrequests, take_append_of_le_length hle]
      have hdrop : c.requests.drop n = rest.drop n ++ ['\n'] := by
        rw [hrequests, drop_append_of_le_length hle]
      have hpart : '\n' ∉ c.buffer ++ c.requests.take n := by
        rw [htake]
        intro hmem
        refine hrelays.1 ?_
        rcases mem_append.1 hmem with hmem | hmem
        · exact mem_append_left _ hmem
        · exact mem_append_right _ (mem_of_mem_take hmem)
      rw [data_of_part w hpart, append_nil, htake, hdrop]
      refine .requested (rest.drop n) hline hresponses hexecuting rfl ?_
      dsimp only
      rwa [append_assoc, take_append_drop]
  | executed hline hresponses hexecuting hrequests hbuffer =>
    rw [data_eq_self w hrequests hbuffer, append_nil]
    exact .executed hline hresponses hexecuting hrequests hbuffer
  | answered response hsent hlegible' htext hrequests hbuffer hexecuting =>
    rw [data_eq_self w hrequests hbuffer, append_nil]
    exact .answered response hsent hlegible' htext hrequests hbuffer hexecuting

theorem answer (h : Phase w sent id line c) {i : Nat} {other : Json} (hother : c.executing[i]? = some other)
    {outcome : Except String Json} (hlegible : w.Legible (RpcServer.handlerResponse other outcome)) :
    Phase w (sent ++ [(other, RpcServer.handlerResponse other outcome)]) id line
      (c.answer w i other outcome) := by
  have hnone (hexecuting : c.executing = []) : False := by
    rw [hexecuting] at hother
    cases hother
  cases h with
  | stale hline hresponses =>
    refine .stale hline ?_
    show (c.responses ++ _)[0]? = some '\n'
    exact first_append hresponses _
  | requested rest hline hresponses hexecuting hrequests hrelays => exact (hnone hexecuting).elim
  | executed hline hresponses hexecuting hrequests hbuffer =>
    rw [hexecuting, getElem?_singleton] at hother
    split_ifs at hother with hi
    cases hother
    refine .answered _ (mem_append_right _ mem_cons_self) hlegible ?_ hrequests hbuffer ?_
    · show line ++ (c.responses ++ _) = _
      rw [hline, hresponses]
      simp [lines]
    · show c.executing.eraseIdx i = []
      rw [hexecuting, hi]
      rfl
  | answered response hsent hlegible' htext hrequests hbuffer hexecuting => exact (hnone hexecuting).elim

end Phase

end SidecarConnection

/-! ## The calls get their own answers -/

theorem eq_of_append_newline {line rest text : List Char} (htext : '\n' ∉ text)
    (h : line ++ '\n' :: rest = text ++ ['\n']) : line = text ∧ rest = [] := by
  rcases append_eq_append_iff.1 h with ⟨more, hmore, hrest⟩ | ⟨more, hmore, hrest⟩
  · cases more with
    | nil =>
      rw [append_nil] at hmore
      exact ⟨hmore.symm, (List.cons.inj hrest).2⟩
    | cons c more =>
      rw [cons_append] at hrest
      refine absurd ?_ htext
      rw [hmore, (List.cons.inj hrest).1]
      exact mem_append_right _ mem_cons_self
  · cases more with
    | nil =>
      rw [append_nil] at hmore
      exact ⟨hmore, (List.cons.inj hrest).2.symm⟩
    | cons c more => simp at hrest

namespace SidecarManager

/-- The line that a call received is the response to its request. -/
def Own (w : Wire) (s : SidecarManager) : Prop :=
  ∀ id line, (id, CallResult.received line) ∈ s.results →
    ∃ n response, id = some n ∧ (Json.int n, response) ∈ s.sent ∧ line = w.stringify response ∧ w.Legible response

/-- What holds in every run in which no call stops within a response. -/
structure Inv (w : Wire) (s : SidecarManager) : Prop where
  own : s.Own w
  idle : s.reading = none → ∀ c ∈ s.ipcHandle, c.Quiet
  reads : ∀ id line, s.reading = some (id, line) →
    ∃ c, s.ipcHandle = some c ∧ SidecarConnection.Phase w s.sent id line c

variable {s : SidecarManager}

theorem Own.mono {w : Wire} {s' : SidecarManager} (h : s.Own w) (hresults : s'.results = s.results)
    {more : List (Json × Json)} (hsent : s'.sent = s.sent ++ more) : s'.Own w := by
  intro id line hmem
  rw [hresults] at hmem
  obtain ⟨n, response, hid, hresponse, hline, hlegible⟩ := h id line hmem
  refine ⟨n, response, hid, ?_, hline, hlegible⟩
  rw [hsent]
  exact mem_append_left _ hresponse

theorem Own.append {w : Wire} {s' : SidecarManager} (h : s.Own w) {id : Option Int} {result : CallResult}
    (hresults : s'.results = s.results ++ [(id, result)]) (hsent : s'.sent = s.sent)
    (hresult : ∀ line, result ≠ .received line) : s'.Own w := by
  intro n line hmem
  rw [hresults, mem_append, mem_singleton] at hmem
  rw [hsent]
  rcases hmem with hmem | hmem
  · exact h n line hmem
  · exact absurd (Prod.mk.inj hmem).2.symm (hresult line)

theorem Inv.finish_nil {w : Wire} (h : s.Own w) (id : Int) : (s.finish id []).Inv w := by
  rw [finish, if_pos rfl]
  exact ⟨h.append rfl rfl nofun, fun _ _ hc => (Option.not_mem_none _ hc).elim, fun _ _ hreading => by cases hreading⟩

theorem Inv.finish_text {w : Wire} (h : s.Own w) {id : Int} {response : Json}
    (hsent : (Json.int id, response) ∈ s.sent) (hlegible : w.Legible response) {c : SidecarConnection}
    (hhandle : s.ipcHandle = some c) (hquiet : c.Quiet) : (s.finish id (w.stringify response)).Inv w := by
  rw [finish, if_neg hlegible.2.1]
  refine ⟨?_, fun _ other hother => ?_, fun _ _ hreading => by cases hreading⟩
  · intro n line hmem
    rcases mem_append.1 hmem with hmem | hmem
    · exact h n line hmem
    · rw [mem_singleton, Prod.mk.injEq, CallResult.received.injEq] at hmem
      obtain ⟨rfl, rfl⟩ := hmem
      exact ⟨id, response, rfl, hsent, rfl, hlegible⟩
  · rw [Option.mem_def] at hother
    rw [hhandle] at hother
    cases hother
    exact hquiet

theorem Inv.call {w : Wire} (h : s.Inv w) (hidle : s.reading = none) {method : String}
    {params : Json} (hrelays : w.Relays (w.dump (sidecarRequest method params s.rpcId)) s.rpcId)
    (connects written : Bool) : (s.call w method params connects written).Inv w := by
  have hquiet : (s.ipcHandle.getD {}).Quiet := by
    cases hhandle : s.ipcHandle with
    | none => exact ⟨rfl, rfl, rfl, .inl rfl⟩
    | some c => exact h.idle hidle c hhandle
  rw [SidecarManager.call]
  split_ifs
  · exact ⟨h.own.append rfl rfl nofun, h.idle, h.reads⟩
  · refine ⟨h.own, nofun, fun id line hreading => ⟨_, rfl, ?_⟩⟩
    cases hreading
    rcases hquiet.responses with hresponses | hresponses
    · refine .requested (w.dump (sidecarRequest method params s.rpcId)) rfl hresponses hquiet.executing ?_ ?_
      · dsimp only
        rw [hquiet.requests, nil_append]
      · dsimp only
        rwa [hquiet.buffer, nil_append]
    · refine .stale rfl ?_
      dsimp only
      rw [hresponses]
      rfl
  · refine ⟨h.own.append rfl rfl nofun, fun _ _ hc => (Option.not_mem_none _ hc).elim, fun id line hreading => ?_⟩
    dsimp only at hreading
    rw [hidle] at hreading
    cases hreading

theorem Inv.recv {w : Wire} (h : s.Inv w) {id : Int} {line : List Char}
    (hreading : s.reading = some (id, line)) {connection : SidecarConnection}
    (hhandle : s.ipcHandle = some connection) {c : Char} {responses : List Char}
    (hresponses : connection.responses = c :: responses)
    (hwhole : line.length < kMaxSize ∨ c = '\n' ∨ responses[0]? = some '\n') :
    (s.recv id line connection c responses).Inv w := by
  obtain ⟨connection', hconnection, hphase⟩ := h.reads id line hreading
  rw [hhandle] at hconnection
  cases hconnection
  have hown : Own w { s with ipcHandle := some { connection with responses } } := h.own
  cases hphase with
  | stale hline hfirst =>
    rw [hresponses] at hfirst
    cases hfirst
    rw [SidecarManager.recv, if_pos rfl, hline]
    exact Inv.finish_nil hown id
  | requested rest hline hempty => exact absurd (hresponses.symm.trans hempty) (cons_ne_nil _ _)
  | executed hline hempty => exact absurd (hresponses.symm.trans hempty) (cons_ne_nil _ _)
  | answered response hsent hlegible htext hrequests hbuffer hexecuting =>
    rw [hresponses] at htext
    rw [SidecarManager.recv]
    by_cases hc : c = '\n'
    · subst hc
      obtain ⟨rfl, rfl⟩ := eq_of_append_newline hlegible.1 htext
      rw [if_pos rfl]
      exact Inv.finish_text hown hsent hlegible rfl ⟨hrequests, hbuffer, hexecuting, .inl rfl⟩
    · rw [← singleton_append, ← append_assoc] at htext
      rw [if_neg hc]
      dsimp only
      split_ifs with hlong
      · have hnext : responses[0]? = some '\n' := by
          rw [length_append, length_singleton] at hlong
          rcases hwhole with hshort | hend | hnext
          · exact absurd hlong (Nat.not_lt_of_le hshort)
          · exact absurd hend hc
          · exact hnext
        obtain ⟨responses, rfl⟩ : ∃ rest, responses = '\n' :: rest := by
          cases responses with
          | nil => cases hnext
          | cons d rest =>
            cases hnext
            exact ⟨rest, rfl⟩
        obtain ⟨hline, rfl⟩ := eq_of_append_newline hlegible.1 htext
        rw [hline]
        exact Inv.finish_text hown hsent hlegible rfl ⟨hrequests, hbuffer, hexecuting, .inr rfl⟩
      · refine ⟨hown, nofun, fun n more hmore => ⟨_, rfl, ?_⟩⟩
        cases hmore
        exact .answered response hsent hlegible htext hrequests hbuffer hexecuting

theorem Inv.deadline {w : Wire} (h : s.Inv w) {id : Int} {line : List Char}
    (hreading : s.reading = some (id, line))
    (hwhole : ∀ c ∈ s.ipcHandle, line = [] ∨ c.responses[0]? = some '\n') : (s.finish id line).Inv w := by
  obtain ⟨c, hhandle, hphase⟩ := h.reads id line hreading
  cases hphase with
  | stale hline =>
    rw [hline]
    exact Inv.finish_nil h.own id
  | requested rest hline =>
    rw [hline]
    exact Inv.finish_nil h.own id
  | executed hline =>
    rw [hline]
    exact Inv.finish_nil h.own id
  | answered response hsent hlegible htext hrequests hbuffer hexecuting =>
    rcases hwhole c hhandle with hline | hfirst
    · rw [hline]
      exact Inv.finish_nil h.own id
    · cases hresponses : c.responses with
      | nil =>
        rw [hresponses] at hfirst
        cases hfirst
      | cons d responses =>
        rw [hresponses] at hfirst htext
        cases hfirst
        obtain ⟨rfl, rfl⟩ := eq_of_append_newline hlegible.1 htext
        exact Inv.finish_text h.own hsent hlegible hhandle ⟨hrequests, hbuffer, hexecuting, .inr hresponses⟩

theorem Inv.sidecar {w : Wire} (h : s.Inv w) {c c' : SidecarConnection}
    (hhandle : s.ipcHandle = some c) (more : List (Json × Json)) (hquiet : c.Quiet → c'.Quiet)
    (hphase : ∀ id line, SidecarConnection.Phase w s.sent id line c →
      SidecarConnection.Phase w (s.sent ++ more) id line c') :
    Inv w { s with ipcHandle := some c', sent := s.sent ++ more } := by
  refine ⟨h.own.mono rfl rfl, fun hidle other hother => ?_, fun id line hreading => ⟨c', rfl, ?_⟩⟩
  · cases hother
    exact hquiet (h.idle hidle c hhandle)
  · obtain ⟨other, hother, hother'⟩ := h.reads id line hreading
    rw [hhandle] at hother
    cases hother
    exact hphase id line hother'

theorem Inv.step {w : Wire} {s' : SidecarManager} (h : s.Inv w) {e : SidecarEvent} (hcarried : s.Carried w e)
    (hwhole : s.Whole e) (hstep : s.step w e = some s') : s'.Inv w := by
  cases e with
  | call method params running connects written =>
    rw [SidecarManager.step] at hstep
    split_ifs at hstep with hrunning hreading
    · cases hstep
      exact ⟨h.own.append rfl rfl nofun, h.idle, h.reads⟩
    · cases hstep
      exact h.call (Option.not_isSome_iff_eq_none.1 hreading) hcarried connects written
  | recv =>
    rw [SidecarManager.step] at hstep
    split at hstep
    · next id line connection hreading hhandle =>
        split at hstep
        · cases hstep
        · next c responses hresponses =>
            cases hstep
            refine h.recv hreading hhandle hresponses ?_
            have hwhole := hwhole (id, line) hreading connection hhandle
            rw [hresponses] at hwhole
            simpa using hwhole
    · cases hstep
  | deadline =>
    obtain ⟨⟨id, line⟩, hreading, rfl⟩ := Option.map_eq_some_iff.1 hstep
    exact h.deadline hreading (hwhole (id, line) hreading)
  | data n =>
    obtain ⟨c, hhandle, rfl⟩ := Option.map_eq_some_iff.1 hstep
    refine h.sidecar hhandle _ (fun hquiet => ?_) (fun id line hphase => hphase.data n (hcarried c hhandle))
    rw [SidecarConnection.data_eq_self w hquiet.requests hquiet.buffer]
    exact hquiet
  | answer i outcome =>
    obtain ⟨c, hhandle, hstep⟩ := Option.bind_eq_some_iff.1 hstep
    obtain ⟨id, hid, hstep⟩ := Option.bind_eq_some_iff.1 hstep
    cases hstep
    refine h.sidecar hhandle _ (fun hquiet => ?_)
      (fun _ _ hphase => hphase.answer hid (hcarried c hhandle id hid))
    rw [hquiet.executing] at hid
    cases hid
  | restart spawned =>
    rw [SidecarManager.step] at hstep
    split_ifs at hstep with hreading hspawned
    · cases hstep
      refine ⟨h.own, fun _ c hc => ?_, fun id line hother => ?_⟩
      · cases hc
        exact ⟨rfl, rfl, rfl, .inl rfl⟩
      · exact absurd (Option.isSome_of_mem hother) hreading
    · cases hstep
      refine ⟨h.own, fun _ c hc => (Option.not_mem_none _ hc).elim, fun id line hother => ?_⟩
      exact absurd (Option.isSome_of_mem hother) hreading

theorem Own.ownAnswers {w : Wire} (h : s.Own w) : s.OwnAnswers w := by
  constructor
  · intro id line hmem
    obtain ⟨n, response, hid, hresponse, hline, -⟩ := h _ line hmem
    cases hid
    exact ⟨response, hresponse, hline⟩
  · intro id result hmem hok
    cases result with
    | notRunning => cases hok
    | cannotConnect => cases hok
    | writeFailed => cases hok
    | timeout => cases hok
    | received line =>
      obtain ⟨n, response, hid, hresponse, rfl, hlegible⟩ := h id line hmem
      refine ⟨n, response, hid, hresponse, ?_⟩
      rw [CallResult.response, hlegible.2.2, Option.bind_some] at hok ⊢
      cases hfrom : SidecarResponse.fromJson w response with
      | none =>
        rw [hfrom] at hok
        cases hok
      | some r => rfl

/-! ### A call that stops within a response -/

/-- The text of a request of `ping`. -/
def pingText (id : Int) : List Char :=
  "\x7b\"id\":".toList ++ (toString id).toList ++
    ",\"jsonrpc\":\"2.0\",\"method\":\"ping\",\"params\":null\x7d".toList

def pongText (id : Int) : List Char :=
  "\x7b\"jsonrpc\":\"2.0\",\"result\":\x7b\x7d,\"id\":".toList ++ (toString id).toList ++ ['\x7d']

/-- The texts of the first three requests of `ping` and of their responses. -/
def pingWire : Wire where
  dump j :=
    match j.find? "id" with
    | some (.int id) => pingText id
    | _ => []
  parse line := ([1, 2, 3].find? fun id => line = pongText id).map fun id =>
    RpcServer.resultResponse (.int id) (.object [])
  jsonParse line := ([1, 2, 3].find? fun id => line = pingText id).map (sidecarRequest "ping" .null)
  stringify j :=
    match j.find? "id" with
    | some (.int id) => pongText id
    | _ => []
  methods := ["ping"]

def ping : List SidecarEvent := [.call "ping" .null true true true, .data 100, .answer 0 (.ok (.object []))]

def cutRun : List SidecarEvent :=
  ping ++ [.recv, .deadline] ++ ping ++ List.replicate 36 .recv ++ ping ++ List.replicate 37 .recv

def isPong : Json → Bool
  | .obj [("id", .int id), ("jsonrpc", .str version), ("result", .obj [])] => id ∈ [1, 2, 3] && version = "2.0"
  | _ => false

theorem legible_of_isPong {j : Json} (h : isPong j = true) : pingWire.Legible j := by
  rw [isPong.eq_def] at h
  split at h
  · next id version =>
      rw [Bool.and_eq_true, decide_eq_true_eq, decide_eq_true_eq] at h
      obtain ⟨hid, rfl⟩ := h
      simp only [mem_cons, not_mem_nil, or_false] at hid
      rcases hid with rfl | rfl | rfl
      · exact ⟨by decide +kernel, by decide +kernel, rfl⟩
      · exact ⟨by decide +kernel, by decide +kernel, rfl⟩
      · exact ⟨by decide +kernel, by decide +kernel, rfl⟩
  · cases h

theorem relays_pingText {id : Int} (h : id ∈ [1, 2, 3]) : pingWire.Relays (pingText id) id := by
  simp only [mem_cons, not_mem_nil, or_false] at h
  rcases h with rfl | rfl | rfl
  · exact ⟨by decide +kernel, by decide +kernel, rfl⟩
  · exact ⟨by decide +kernel, by decide +kernel, rfl⟩
  · exact ⟨by decide +kernel, by decide +kernel, rfl⟩

/-- Only the first three requests of `ping` are sent, and their responses. -/
def carriesPing (s : SidecarManager) : SidecarEvent → Bool
  | .call method params .. => s.rpcId ∈ [1, 2, 3] && method = "ping" && params.isNull
  | .data n => s.ipcHandle.all fun c => (c.data pingWire n).2.all fun r => isPong r.2
  | .answer i outcome => s.ipcHandle.all fun c =>
    c.executing[i]?.all fun id => isPong (RpcServer.handlerResponse id outcome)
  | _ => true

theorem carried_of_carriesPing {e : SidecarEvent} (h : s.carriesPing e = true) :
    s.Carried pingWire e := by
  cases e with
  | call method params running connects written =>
    rw [carriesPing, Bool.and_eq_true, Bool.and_eq_true, decide_eq_true_eq] at h
    have hdump : pingWire.dump (sidecarRequest method params s.rpcId) = pingText s.rpcId := by
      show (match (sidecarRequest method params s.rpcId).find? "id" with
        | some (.int id) => pingText id
        | _ => []) = _
      rw [sidecarRequest, Json.find?_object]
      rfl
    rw [Carried, hdump]
    exact relays_pingText h.1.1
  | data n =>
    intro c hc r hr
    rw [carriesPing, Option.all_eq_true] at h
    exact legible_of_isPong (all_eq_true.1 (h c hc) r hr)
  | answer i outcome =>
    intro c hc id hid
    rw [carriesPing, Option.all_eq_true] at h
    have hall := h c hc
    rw [Option.all_eq_true] at hall
    exact legible_of_isPong (hall id hid)
  | _ => trivial

/-- The third call returns the response of the second one. -/
theorem not_ownAnswers_cutRun :
    Along (step pingWire) (Carried pingWire) {} cutRun ∧
      ∃ s, exec (step pingWire) {} cutRun = some s ∧ ¬ s.OwnAnswers pingWire := by
  have halong : Along (step pingWire) (fun s e => s.carriesPing e = true) {} cutRun := by decide +kernel
  have hrun : (exec (step pingWire) {} cutRun).map (fun s =>
      decide ((some 3, .received (pongText 2)) ∈ s.results) && s.sent.all fun r =>
        r.1.getInt != some 3 || pingWire.stringify r.2 != pongText 2) = some true := by
    decide +kernel
  obtain ⟨s, hs, hchecked⟩ := Option.map_eq_some_iff.1 hrun
  rw [Bool.and_eq_true, decide_eq_true_eq] at hchecked
  refine ⟨halong.mono fun s e => carried_of_carriesPing, s, hs, fun h => ?_⟩
  obtain ⟨response, hresponse, htext⟩ := h.lines 3 _ hchecked.1
  have hdifferent := all_eq_true.1 hchecked.2 _ hresponse
  exact bne_iff_ne.1 hdifferent htext.symm

/-- **A call gets its own answer**, whenever it comes and however it is cut, in every run in which no call stops
within a response. -/
theorem ownAnswers_of_whole {w : Wire} {es : List SidecarEvent} {s : SidecarManager}
    (hcarried : Along (step w) (Carried w) {} es) (hwhole : Along (step w) Whole {} es)
    (h : exec (step w) {} es = some s) : s.OwnAnswers w := by
  have hinit : Inv w {} := by
    refine ⟨fun id line hmem => ?_, fun _ c hc => ?_, fun id line hreading => ?_⟩
    · cases hmem
    · cases hc
    · cases hreading
  have hstep (s : SidecarManager) (e : SidecarEvent) (s' : SidecarManager) (hs : s.Inv w)
      (hok : s.Carried w e ∧ s.Whole e) (hstep : s.step w e = some s') : s'.Inv w :=
    hs.step hok.1 hok.2 hstep
  exact (exec_invariant hstep hinit (hcarried.and hwhole) h).own.ownAnswers

/-- A call whose deadline comes before its response, and a call on a new connection. -/
def wholeRun : List SidecarEvent :=
  ping ++ [.deadline, .restart true] ++ ping ++ List.replicate 37 .recv

instance (s : SidecarManager) : DecidablePred s.Whole
  | .deadline => inferInstanceAs (Decidable (∀ r ∈ s.reading, ∀ connection ∈ s.ipcHandle, _))
  | .recv => inferInstanceAs (Decidable (∀ r ∈ s.reading, ∀ connection ∈ s.ipcHandle, _))
  | .call .. => .isTrue trivial
  | .data _ => .isTrue trivial
  | .answer .. => .isTrue trivial
  | .restart _ => .isTrue trivial

theorem ownAnswers_of_whole_wholeRun :
    Along (step pingWire) (Carried pingWire) {} wholeRun ∧ Along (step pingWire) Whole {} wholeRun ∧
      ∃ s, exec (step pingWire) {} wholeRun = some s ∧ s.results.length = 2 ∧ s.OwnAnswers pingWire := by
  have halong : Along (step pingWire) (fun s e => s.carriesPing e = true) {} wholeRun := by decide +kernel
  have hcarried : Along (step pingWire) (Carried pingWire) {} wholeRun :=
    halong.mono fun s e => carried_of_carriesPing
  have hwhole : Along (step pingWire) Whole {} wholeRun := by decide +kernel
  have hrun : (exec (step pingWire) {} wholeRun).map (·.results.length) = some 2 := by decide +kernel
  obtain ⟨s, hs, hlength⟩ := Option.map_eq_some_iff.1 hrun
  exact ⟨hcarried, hwhole, s, hs, hlength, ownAnswers_of_whole hcarried hwhole hs⟩

end SidecarManager

end RavBot.Plugins
