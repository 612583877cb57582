import JinCore.Js.LowerCase
import JinCore.Lib.Runs
import JinCore.Security.InjectionSanitizer
import Mathlib.Data.List.TakeWhile

/-!
# The client of MCP servers (`mcp-client.service.ts`, `mcp/errors.ts`)

A connection is opened by the first query of a server and shared by those after it; one that fails is dropped from
the cache a moment after its promise is rejected.  Queries go on in any order.

* `findLibraryId`      the id that a server names; `names_of_findLibraryId`;
* `Phase`, `McpClient.step`   where a query stands, one step of one query or one connection;
* `Cached`, `one_connection`  one connection a server;
* `EventOk`, `queries_keep_protocol`  what a server is asked, and what a query returns.
-/

namespace Mcp
open JsString Common Runs

structure McpServerConfig where
  name : JsString
  url : JsString
  description : JsString
  deriving DecidableEq, Repr

/-! ## errors -/

def unknownMcpServerError (serverName : JsString) : JinError :=
  ⟨lit "Servidor MCP \"" ++ serverName ++ lit "\" no está en config/mcp-servers.yaml.", lit "MCP_UNKNOWN_SERVER", some 400⟩

def mcpUnsupportedServerError (serverName : JsString) (availableTools : List JsString) : JinError :=
  ⟨lit "El servidor MCP \"" ++ serverName ++ lit "\" no expone las tools esperadas " ++
      lit "(resolve-library-id/get-library-docs). Tools disponibles: " ++
      lit "[" ++ Security.joinWith (lit ", ") availableTools ++ lit "].",
    lit "MCP_UNSUPPORTED_SERVER", some 502⟩

def mcpUnexpectedResponseError (serverName toolName : JsString) : JinError :=
  ⟨lit "El servidor MCP \"" ++ serverName ++ lit "\" devolvió una respuesta inesperada para \"" ++ toolName ++
      lit "\" -- no se pudo extraer un resultado usable.",
    lit "MCP_UNEXPECTED_RESPONSE", some 502⟩

/-! ## what a server answers -/

def resolveLibraryTool : JsString := lit "resolve-library-id"
def getDocsTool : JsString := lit "get-library-docs"

/-- a block of a result: a text, or anything else -/
inductive ContentBlock where
  | text (text : JsString)
  | other
  deriving DecidableEq, Repr

/-- the result of a tool, with its `content` if that is an array -/
structure ToolResult where
  content : Option (List ContentBlock)
  deriving DecidableEq, Repr

def ContentBlock.text? : ContentBlock → Option JsString
  | .text t => some t
  | .other => none

def extractTextContent (result : ToolResult) : JsString :=
  match result.content with
  | none => lit ""
  | some blocks => Security.joinWith (lit "\n") (blocks.filterMap ContentBlock.text?)

def libraryIdLabel : List UInt16 := (lit "Context7-compatible library ID:").units

/-- a text begins with the label, whatever the case of its letters -/
def startsWithLabel (us : List UInt16) : Bool :=
  (us.take libraryIdLabel.length).map lowerUnit = libraryIdLabel.map lowerUnit

/-- `\s*(\S+)` -/
def idAfter (us : List UInt16) : Option JsString :=
  match (us.dropWhile isSpace).takeWhile fun u => !isSpace u with
  | [] => none
  | u :: rest => some ⟨u :: rest⟩

/-- the first match of `LIBRARY_ID_LINE_RE` -/
def findLibraryIdFrom : List UInt16 → Option JsString
  | [] => none
  | u :: us =>
    match (if startsWithLabel (u :: us) = true then idAfter ((u :: us).drop libraryIdLabel.length) else none) with
    | some id => some id
    | none => findLibraryIdFrom us

def findLibraryId (text : JsString) : Option JsString := findLibraryIdFrom text.units

theorem idAfter_some {us : List UInt16} {id : JsString} (h : idAfter us = some id) :
    ∃ blanks rest, us = blanks ++ id.units ++ rest ∧ (∀ u ∈ blanks, isSpace u = true) ∧ id.units ≠ [] ∧
      (∀ u ∈ id.units, isSpace u = false) ∧ ∀ u ∈ rest.head?, isSpace u = true := by
  unfold idAfter at h
  split at h
  next => cases h
  next u rest htake =>
    cases h
    have hsplit : us = us.takeWhile isSpace ++
        ((us.dropWhile isSpace).takeWhile (fun u => !isSpace u) ++ (us.dropWhile isSpace).dropWhile fun u => !isSpace u) := by
      rw [List.takeWhile_append_dropWhile, List.takeWhile_append_dropWhile]
    refine ⟨us.takeWhile isSpace, (us.dropWhile isSpace).dropWhile fun u => !isSpace u, ?_, ?_, List.cons_ne_nil _ _, ?_, ?_⟩
    · rw [List.append_assoc, ← htake]
      exact hsplit
    · exact fun v hv => List.mem_takeWhile_imp hv
    · intro v hv
      rw [← htake] at hv
      simpa using List.mem_takeWhile_imp hv
    · intro v hv
      have hhead := List.head?_dropWhile_not (fun u => !isSpace u) (us.dropWhile isSpace)
      rw [Option.mem_def] at hv
      rw [hv] at hhead
      simpa using hhead

/-- the id stands in the text after the label, and goes up to the next blank -/
def Names (text id : JsString) : Prop :=
  ∃ before label blanks rest, text.units = before ++ label ++ blanks ++ id.units ++ rest ∧
    label.map lowerUnit = libraryIdLabel.map lowerUnit ∧ (∀ u ∈ blanks, isSpace u = true) ∧ id.units ≠ [] ∧
    (∀ u ∈ id.units, isSpace u = false) ∧ ∀ u ∈ rest.head?, isSpace u = true

theorem names_of_findLibraryId {text id : JsString} (h : findLibraryId text = some id) : Names text id := by
  unfold findLibraryId at h
  unfold Names
  generalize text.units = units at h ⊢
  induction units with
  | nil => cases h
  | cons u us ih =>
    unfold findLibraryIdFrom at h
    split at h
    next found hfound =>
      cases h
      obtain ⟨hlabel, hid⟩ := Option.ite_none_right_eq_some.mp hfound
      obtain ⟨blanks, rest, hdrop, hspec⟩ := idAfter_some hid
      refine ⟨[], (u :: us).take libraryIdLabel.length, blanks, rest, ?_, of_decide_eq_true hlabel, hspec⟩
      rw [List.nil_append, List.append_assoc, List.append_assoc, ← List.append_assoc blanks, ← hdrop,
        List.take_append_drop]
    next =>
      obtain ⟨before, label, blanks, rest, hsplit, hspec⟩ := ih h
      refine ⟨u :: before, label, blanks, rest, ?_, hspec⟩
      rw [hsplit]
      rfl

/-! ## queries and connections -/

structure Query where
  server : McpServerConfig
  library : JsString
  topic : JsString
  deriving DecidableEq, Repr

inductive Request where
  | listTools
  | callTool (name : JsString) (arguments : List (JsString × JsString))
  deriving DecidableEq, Repr

inductive Reply where
  | tools (names : List JsString)
  | result (result : ToolResult)
  | failed (message : JsString)
  deriving DecidableEq, Repr

/-- what a query throws: an error of its own, or what a promise was rejected with -/
inductive Thrown where
  | jin (error : JinError)
  | rejected (message : JsString)
  deriving DecidableEq, Repr

inductive Phase where
  | idle
  /-- the connection is awaited -/
  | connecting (k : Nat) (query : Query)
  | listing (k : Nat) (query : Query)
  | resolving (k : Nat) (query : Query)
  | reading (k : Nat) (query : Query)
  | returned (text : JsString)
  | threw (error : Thrown)

/-- the promise of a connection; a rejected one is forgotten when its handler has run -/
inductive Status where
  | pending | connected
  | rejected (message : JsString)
  | forgotten (message : JsString)
  deriving DecidableEq, Repr

structure Connection where
  server : McpServerConfig
  status : Status
  deriving DecidableEq, Repr

inductive Event where
  | asked (c : CallId) (query : Query)
  | opened (k : Nat) (server : McpServerConfig)
  | sent (c : CallId) (k : Nat) (request : Request)
  | answered (c : CallId) (reply : Reply)
  | returned (c : CallId) (text : JsString)
  deriving DecidableEq, Repr

/-- the connections are numbered as they were opened, and `clients` is the cache -/
structure McpClient where
  clients : JsString → Option Nat
  connections : List Connection
  calls : CallId → Phase
  events : List Event

inductive Action where
  | start (c : CallId) (library topic : JsString) (serverName : Option JsString)
  | connected (k : Nat)
  | rejected (k : Nat) (message : JsString)
  /-- the handler of a rejected connection runs -/
  | forget (k : Nat)
  /-- a query that awaited its connection goes on -/
  | resume (c : CallId)
  | answer (c : CallId) (reply : Reply)

def resolveServerConfig (servers : List McpServerConfig) : Option JsString → Except JinError McpServerConfig
  | none =>
    match servers with
    | [] => .error (unknownMcpServerError (lit "(ninguno configurado)"))
    | first :: _ => .ok first
  | some serverName =>
    match servers.find? fun s => s.name = serverName with
    | none => .error (unknownMcpServerError serverName)
    | some found => .ok found

def resolveRequest (query : Query) : Request := .callTool resolveLibraryTool [(lit "libraryName", query.library)]

def docsRequest (query : Query) (libraryId : JsString) : Request :=
  .callTool getDocsTool [(lit "context7CompatibleLibraryID", libraryId), (lit "topic", query.topic)]

namespace McpClient

/-- no connection is opened when the application starts -/
def initial : McpClient := ⟨fun _ => none, [], fun _ => .idle, []⟩

def set (s : McpClient) (c : CallId) (phase : Phase) : McpClient :=
  { s with calls := fun k => if k = c then phase else s.calls k }

def tell (s : McpClient) (event : Event) : McpClient := { s with events := event :: s.events }

def setStatus (s : McpClient) (k : Nat) (status : Status) : McpClient :=
  { s with connections := s.connections.modify k fun connection => { connection with status := status } }

/-- the connection of a server, which is opened and cached if there is none -/
def getOrConnect (s : McpClient) (server : McpServerConfig) : McpClient × Nat :=
  match s.clients server.name with
  | some k => (s, k)
  | none =>
    ({ s.tell (.opened s.connections.length server) with
        clients := fun name => if name = server.name then some s.connections.length else s.clients name
        connections := s.connections ++ [⟨server, .pending⟩] },
      s.connections.length)

def ask (s : McpClient) (c : CallId) (query : Query) : McpClient :=
  let (t, k) := (s.tell (.asked c query)).getOrConnect query.server
  t.set c (.connecting k query)

/-- an answer to the list of tools -/
def onTools (s : McpClient) (c : CallId) (k : Nat) (query : Query) (names : List JsString) : McpClient :=
  if resolveLibraryTool ∉ names ∨ getDocsTool ∉ names then
    s.set c (.threw (.jin (mcpUnsupportedServerError query.server.name names)))
  else (s.tell (.sent c k (resolveRequest query))).set c (.resolving k query)

def onResolved (s : McpClient) (c : CallId) (k : Nat) (query : Query) (result : ToolResult) : McpClient :=
  match findLibraryId (extractTextContent result) with
  | none => s.set c (.threw (.jin (mcpUnexpectedResponseError query.server.name resolveLibraryTool)))
  | some libraryId => (s.tell (.sent c k (docsRequest query libraryId))).set c (.reading k query)

def onDocs (s : McpClient) (c : CallId) (result : ToolResult) : McpClient :=
  (s.tell (.returned c (extractTextContent result))).set c (.returned (extractTextContent result))

def onAnswer (s : McpClient) (c : CallId) (reply : Reply) : Phase → Option McpClient
  | .listing k query =>
    match reply with
    | .tools names => some ((s.tell (.answered c reply)).onTools c k query names)
    | .result _ => none
    | .failed message => some ((s.tell (.answered c reply)).set c (.threw (.rejected message)))
  | .resolving k query =>
    match reply with
    | .tools _ => none
    | .result result => some ((s.tell (.answered c reply)).onResolved c k query result)
    | .failed message => some ((s.tell (.answered c reply)).set c (.threw (.rejected message)))
  | .reading _ _ =>
    match reply with
    | .tools _ => none
    | .result result => some ((s.tell (.answered c reply)).onDocs c result)
    | .failed message => some ((s.tell (.answered c reply)).set c (.threw (.rejected message)))
  | _ => none

def onResume (s : McpClient) (c : CallId) : Phase → Option McpClient
  | .connecting k query =>
    match s.connections[k]? with
    | some ⟨_, .connected⟩ => some ((s.tell (.sent c k .listTools)).set c (.listing k query))
    | some ⟨_, .rejected message⟩ | some ⟨_, .forgotten message⟩ => some (s.set c (.threw (.rejected message)))
    | _ => none
  | _ => none

def step (servers : List McpServerConfig) (s : McpClient) : Action → Option McpClient
  | .start c library topic serverName =>
    match s.calls c with
    | .idle =>
      match resolveServerConfig servers serverName with
      | .error error => some (s.set c (.threw (.jin error)))
      | .ok server => some (s.ask c ⟨server, library, topic⟩)
    | _ => none
  | .connected k =>
    match s.connections[k]? with
    | some ⟨_, .pending⟩ => some (s.setStatus k .connected)
    | _ => none
  | .rejected k message =>
    match s.connections[k]? with
    | some ⟨_, .pending⟩ => some (s.setStatus k (.rejected message))
    | _ => none
  | .forget k =>
    match s.connections[k]? with
    | some ⟨server, .rejected message⟩ =>
      -- the entry of the server is deleted whatever it holds
      some { s.setStatus k (.forgotten message) with
        clients := fun name => if name = server.name then none else s.clients name }
    | _ => none
  | .resume c => s.onResume c (s.calls c)
  | .answer c reply => s.onAnswer c reply (s.calls c)

end McpClient

/-! ## one connection a server -/

def Connection.isLive (connection : Connection) : Bool :=
  match connection.status with
  | .forgotten _ => false
  | _ => true

/-- the connection that a query has to do with -/
def Phase.uses : Phase → Option (Nat × Query)
  | .connecting k query | .listing k query | .resolving k query | .reading k query => some (k, query)
  | _ => none

/-- the entry of a server is its connection that is not forgotten, of which there is one at most; the queries of a
server have to do with its connections -/
structure Cached (servers : List McpServerConfig) (s : McpClient) : Prop where
  clients : ∀ name k, s.clients name = some k ↔
    ∃ connection, s.connections[k]? = some connection ∧ connection.server.name = name ∧ connection.isLive = true
  servers : ∀ connection ∈ s.connections,
    servers.find? (fun server => server.name = connection.server.name) = some connection.server
  calls : ∀ c k query, (s.calls c).uses = some (k, query) →
    ∃ connection, s.connections[k]? = some connection ∧ connection.server = query.server

section
variable {servers : List McpServerConfig} {s t : McpClient} {c : CallId}

theorem resolveServerConfig_find {serverName : Option JsString} {server : McpServerConfig}
    (h : resolveServerConfig servers serverName = .ok server) :
    servers.find? (fun other => other.name = server.name) = some server := by
  cases serverName with
  | none =>
    cases servers with
    | nil => cases h
    | cons first rest =>
      cases h
      exact List.find?_cons_of_pos (decide_eq_true rfl)
  | some serverName =>
    unfold resolveServerConfig at h
    dsimp only at h
    split at h
    next => cases h
    next found hfound =>
      rw [Except.ok.injEq] at h
      have hname : found.name = serverName := by simpa using List.find?_some hfound
      rw [← h, hname]
      exact hfound

/-- a new phase of one query -/
theorem Cached.set (h : Cached servers s) {phase : Phase}
    (huses : ∀ k query, phase.uses = some (k, query) →
      ∃ connection, s.connections[k]? = some connection ∧ connection.server = query.server) :
    Cached servers (s.set c phase) := by
  refine ⟨h.clients, h.servers, fun c' k query hquery => ?_⟩
  change (if c' = c then phase else s.calls c').uses = _ at hquery
  split at hquery
  · exact huses k query hquery
  · exact h.calls c' k query hquery

theorem Cached.tell (h : Cached servers s) (e : Event) : Cached servers (s.tell e) := ⟨h.clients, h.servers, h.calls⟩

/-- a query that goes on over its connection -/
theorem Cached.next (h : Cached servers s) {k : Nat} {query : Query} (hquery : (s.calls c).uses = some (k, query))
    {phase : Phase} (hphase : phase.uses = some (k, query)) : Cached servers (s.set c phase) := by
  refine h.set fun k' query' huses => ?_
  rw [hphase, Option.some.injEq, Prod.mk.injEq] at huses
  obtain ⟨rfl, rfl⟩ := huses
  exact h.calls c k query hquery

/-- a query that ends -/
theorem Cached.done (h : Cached servers s) {phase : Phase} (hphase : phase.uses = none) : Cached servers (s.set c phase) :=
  h.set fun k query huses => by
    rw [hphase] at huses
    cases huses

/-- the status of a connection -/
theorem getElem?_setStatus (s : McpClient) (k j : Nat) (status : Status) :
    (s.setStatus k status).connections[j]? =
      if k = j then s.connections[j]?.map fun connection => { connection with status := status }
      else s.connections[j]? := by
  unfold McpClient.setStatus
  rw [List.getElem?_modify]
  split <;> simp

theorem server_setStatus {k : Nat} {status : Status} {connection : Connection}
    (h : connection ∈ (s.setStatus k status).connections) :
    ∃ old ∈ s.connections, old.server = connection.server := by
  obtain ⟨j, hj⟩ := List.mem_iff_getElem?.mp h
  rw [getElem?_setStatus] at hj
  split at hj
  · obtain ⟨old, hold, rfl⟩ := Option.map_eq_some_iff.mp hj
    exact ⟨old, List.mem_of_getElem? hold, rfl⟩
  · exact ⟨connection, List.mem_of_getElem? hj, rfl⟩

theorem uses_setStatus (h : Cached servers s) (k : Nat) (status : Status) (c : CallId) (j : Nat) (query : Query)
    (hquery : (s.calls c).uses = some (j, query)) :
    ∃ connection, (s.setStatus k status).connections[j]? = some connection ∧ connection.server = query.server := by
  obtain ⟨connection, hconnection, hserver⟩ := h.calls c j query hquery
  rw [getElem?_setStatus, hconnection]
  split
  · exact ⟨_, rfl, hserver⟩
  · exact ⟨connection, rfl, hserver⟩

theorem servers_setStatus (h : Cached servers s) (k : Nat) (status : Status) :
    ∀ connection ∈ (s.setStatus k status).connections,
      servers.find? (fun server => server.name = connection.server.name) = some connection.server := by
  intro connection hmem
  obtain ⟨old, hold, hserver⟩ := server_setStatus hmem
  rw [← hserver]
  exact h.servers old hold

/-- a promise that is settled -/
theorem Cached.settle (h : Cached servers s) {k : Nat} {server : McpServerConfig} {status : Status}
    (hpending : s.connections[k]? = some ⟨server, .pending⟩) (hstatus : ∀ message, status ≠ .forgotten message) :
    Cached servers (s.setStatus k status) := by
  refine ⟨fun name j => ?_, servers_setStatus h k status, uses_setStatus h k status⟩
  refine (h.clients name j).trans ?_
  rw [getElem?_setStatus]
  split
  next heq =>
    subst heq
    have hlive : (Connection.mk server status).isLive = true := by
      unfold Connection.isLive
      split
      next message hforgotten => exact absurd hforgotten (hstatus message)
      next => rfl
    rw [hpending, Option.map_some]
    constructor
    · rintro ⟨connection, heq, hname, -⟩
      cases heq
      exact ⟨_, rfl, hname, hlive⟩
    · rintro ⟨connection, heq, hname, -⟩
      cases heq
      exact ⟨_, rfl, hname, rfl⟩
  next => exact Iff.rfl

/-- the entry that the handler of a rejected connection deletes is its own -/
theorem Cached.forget (h : Cached servers s) {k : Nat} {server : McpServerConfig} {message : JsString}
    (hrejected : s.connections[k]? = some ⟨server, .rejected message⟩) :
    Cached servers { s.setStatus k (.forgotten message) with
      clients := fun name => if name = server.name then none else s.clients name } := by
  have hown : s.clients server.name = some k := (h.clients server.name k).mpr ⟨_, hrejected, rfl, rfl⟩
  refine ⟨fun name j => ?_, servers_setStatus h k _, uses_setStatus h k _⟩
  show (if name = server.name then none else s.clients name) = some j ↔
    ∃ connection, (s.setStatus k (.forgotten message)).connections[j]? = some connection ∧ _
  rw [getElem?_setStatus]
  by_cases hj : k = j
  · subst hj
    rw [if_pos rfl, hrejected, Option.map_some]
    constructor
    · intro hclients
      exfalso
      split at hclients
      next => cases hclients
      next hname =>
        obtain ⟨connection, heq, hname', -⟩ := (h.clients name k).mp hclients
        rw [hrejected, Option.some.injEq] at heq
        rw [← heq] at hname'
        exact hname hname'.symm
    · rintro ⟨connection, heq, -, hlive⟩
      cases heq
      cases hlive
  · rw [if_neg hj]
    split
    next hname =>
      constructor
      · intro hnone
        cases hnone
      · rintro hlive
        have hother := (h.clients name j).mpr hlive
        rw [hname, hown, Option.some.injEq] at hother
        exact absurd hother hj
    next => exact h.clients name j

/-- a query that begins -/
theorem Cached.ask (h : Cached servers s) {query : Query}
    (hserver : servers.find? (fun server => server.name = query.server.name) = some query.server) :
    Cached servers (s.ask c query) := by
  have htell := h.tell (.asked c query)
  unfold McpClient.ask McpClient.getOrConnect
  cases hclients : (s.tell (.asked c query)).clients query.server.name with
  | some k =>
    dsimp only
    refine htell.set fun k' query' huses => ?_
    cases huses
    obtain ⟨connection, hconnection, hname, -⟩ := (htell.clients _ _).mp hclients
    refine ⟨connection, hconnection, ?_⟩
    have hfind := h.servers connection (List.mem_of_getElem? hconnection)
    rw [hname, hserver, Option.some.injEq] at hfind
    exact hfind.symm
  | none =>
    dsimp only
    have hnew : (s.connections ++ [⟨query.server, .pending⟩])[s.connections.length]? = some ⟨query.server, .pending⟩ :=
      List.getElem?_concat_length
    have hold {j : Nat} (hj : j ≠ s.connections.length) :
        (s.connections ++ [⟨query.server, .pending⟩])[j]? = s.connections[j]? := by
      rcases Nat.lt_or_ge j s.connections.length with hlt | hge
      · exact List.getElem?_append_left hlt
      · rw [List.getElem?_eq_none hge, List.getElem?_eq_none]
        rw [List.length_append, List.length_singleton]
        omega
    refine Cached.set ⟨fun name j => ?_, fun connection hmem => ?_, fun c' j query' huses => ?_⟩ fun k' query' huses => ?_
    · show (if name = query.server.name then some s.connections.length else s.clients name) = some j ↔ _
      by_cases hj : j = s.connections.length
      · rw [hj]
        show _ ↔ ∃ connection, (s.connections ++ [⟨query.server, .pending⟩])[s.connections.length]? = some connection ∧ _
        rw [hnew]
        constructor
        · intro hsome
          split at hsome
          next hname => exact ⟨_, rfl, hname.symm, rfl⟩
          next =>
            obtain ⟨connection, hconnection, -⟩ := (h.clients _ _).mp hsome
            rw [List.getElem?_eq_none (Nat.le_refl _)] at hconnection
            cases hconnection
        · rintro ⟨connection, heq, hname, -⟩
          cases heq
          rw [if_pos hname.symm]
      · show _ ↔ ∃ connection, (s.connections ++ [⟨query.server, .pending⟩])[j]? = some connection ∧ _
        rw [hold hj, ← h.clients name j]
        split
        next hname =>
          rw [hname]
          constructor
          · intro heq
            exact absurd (Option.some.inj heq).symm hj
          · intro hsome
            change s.clients query.server.name = none at hclients
            rw [hclients] at hsome
            cases hsome
        next => exact Iff.rfl
    · rcases List.mem_append.mp hmem with hmem | hmem
      · exact h.servers connection hmem
      · rw [List.mem_singleton.mp hmem]
        exact hserver
    · obtain ⟨connection, hconnection, hsame⟩ := h.calls c' j query' huses
      refine ⟨connection, ?_, hsame⟩
      show (s.connections ++ [⟨query.server, .pending⟩])[j]? = _
      rw [hold (Nat.ne_of_lt (List.getElem?_eq_some_iff.mp hconnection).1)]
      exact hconnection
    · cases huses
      exact ⟨_, hnew, rfl⟩

theorem cached_onAnswer {reply : Reply} {phase : Phase} (hphase : s.calls c = phase) (h : Cached servers s)
    (hstep : s.onAnswer c reply phase = some t) : Cached servers t := by
  have htell := h.tell (.answered c reply)
  cases phase with
  | listing k query =>
    have huses : ((s.tell (.answered c reply)).calls c).uses = some (k, query) := by
      show (s.calls c).uses = _
      rw [hphase]
      rfl
    cases reply with
    | tools names =>
      cases hstep
      unfold McpClient.onTools
      split
      · exact htell.done rfl
      · exact (htell.tell _).next huses rfl
    | result result => cases hstep
    | failed message =>
      cases hstep
      exact htell.done rfl
  | resolving k query =>
    have huses : ((s.tell (.answered c reply)).calls c).uses = some (k, query) := by
      show (s.calls c).uses = _
      rw [hphase]
      rfl
    cases reply with
    | tools names => cases hstep
    | result result =>
      cases hstep
      unfold McpClient.onResolved
      split
      · exact htell.done rfl
      · exact (htell.tell _).next huses rfl
    | failed message =>
      cases hstep
      exact htell.done rfl
  | reading k query =>
    cases reply with
    | tools names => cases hstep
    | result result =>
      cases hstep
      exact (htell.tell _).done rfl
    | failed message =>
      cases hstep
      exact htell.done rfl
  | _ => cases hstep

/-- what becomes of a query whose connection is settled -/
theorem onResume_cases {phase : Phase} (h : s.onResume c phase = some t) : ∃ k query, phase = .connecting k query ∧
    (t = (s.tell (.sent c k .listTools)).set c (.listing k query) ∨
      ∃ message, t = s.set c (.threw (.rejected message))) := by
  cases phase with
  | connecting k query =>
    refine ⟨k, query, rfl, ?_⟩
    unfold McpClient.onResume at h
    dsimp only at h
    split at h
    · cases h
      exact Or.inl rfl
    · cases h
      exact Or.inr ⟨_, rfl⟩
    · cases h
      exact Or.inr ⟨_, rfl⟩
    · cases h
  | _ => cases h

theorem cached_step {action : Action} (h : Cached servers s) (hstep : s.step servers action = some t) :
    Cached servers t := by
  cases action with
  | start c library topic serverName =>
    unfold McpClient.step at hstep
    dsimp only at hstep
    split at hstep
    next =>
      split at hstep
      next =>
        cases hstep
        exact h.done rfl
      next server hserver =>
        cases hstep
        exact h.ask (resolveServerConfig_find hserver)
    next => cases hstep
  | connected k =>
    unfold McpClient.step at hstep
    dsimp only at hstep
    split at hstep
    next hpending =>
      cases hstep
      exact h.settle hpending fun _ heq => by cases heq
    next => cases hstep
  | rejected k message =>
    unfold McpClient.step at hstep
    dsimp only at hstep
    split at hstep
    next hpending =>
      cases hstep
      exact h.settle hpending fun _ heq => by cases heq
    next => cases hstep
  | forget k =>
    unfold McpClient.step at hstep
    dsimp only at hstep
    split at hstep
    next hrejected =>
      cases hstep
      exact h.forget hrejected
    next => cases hstep
  | resume c =>
    obtain ⟨k, query, hphase, rfl | ⟨message, rfl⟩⟩ := onResume_cases hstep
    · refine (h.tell _).next ?_ rfl
      show (s.calls c).uses = some (k, query)
      rw [hphase]
      rfl
    · exact h.done rfl
  | answer c reply => exact cached_onAnswer rfl h hstep

theorem cached_initial (servers : List McpServerConfig) : Cached servers .initial := by
  refine ⟨fun name k => ?_, fun _ hmem => absurd hmem List.not_mem_nil, fun _ _ _ huses => by cases huses⟩
  constructor
  · intro hsome
    cases hsome
  · rintro ⟨connection, hnone, -⟩
    cases hnone

/-- **One connection a server.** -/
theorem one_connection (servers : List McpServerConfig) (actions : List Action)
    (hrun : run (McpClient.step servers) .initial actions = some s) : Cached servers s :=
  run_inv (fun _ _ _ h hstep => cached_step h hstep) actions _ s (cached_initial servers) hrun

end

def context7 : McpServerConfig := ⟨lit "context7", lit "https://mcp.context7.com/mcp", lit "docs"⟩

/-- a first connection fails, a second query opens another one, and a third one shares it -/
def failedConnection : List Action :=
  [.start 0 (lit "nestjs") (lit "guards") none, .rejected 0 (lit "down"), .forget 0,
    .start 1 (lit "nestjs") (lit "guards") none, .start 2 (lit "zod") (lit "schemas") (some (lit "context7")),
    .connected 1, .resume 2]

theorem one_connection_failedConnection : ∃ s,
    run (McpClient.step [context7]) .initial failedConnection = some s ∧ s.connections.length = 2 ∧
      s.clients (lit "context7") = some 1 ∧ Cached [context7] s :=
  ⟨_, rfl, rfl, rfl, one_connection [context7] failedConnection rfl⟩

/-! ## what a server is asked -/

/-- a reply came after a request of its query -/
def AnswerTo (before : List Event) (c : CallId) (k : Nat) (request : Request) (reply : Reply) : Prop :=
  ∃ later earlier, before = later ++ .answered c reply :: earlier ∧ .sent c k request ∈ earlier

/-- the requests of a query: the list of tools, the id of its library if both tools are there, and the docs of the id
that the server has named -/
def Allowed (before : List Event) (c : CallId) (k : Nat) (query : Query) (request : Request) : Prop :=
  request = .listTools ∨
  (request = resolveRequest query ∧ ∃ names, AnswerTo before c k .listTools (.tools names) ∧
    resolveLibraryTool ∈ names ∧ getDocsTool ∈ names) ∨
  ∃ libraryId result, request = docsRequest query libraryId ∧
    AnswerTo before c k (resolveRequest query) (.result result) ∧
    findLibraryId (extractTextContent result) = some libraryId ∧ Names (extractTextContent result) libraryId

def EventOk (servers : List McpServerConfig) : Event → List Event → Prop
  | .opened _ server, _ => server ∈ servers
  | .asked c query, before => query.server ∈ servers ∧ ∀ query', .asked c query' ∉ before
  | .sent c k request, before =>
    ∃ query, .asked c query ∈ before ∧ .opened k query.server ∈ before ∧ Allowed before c k query request
  | .returned c text, before =>
    ∃ k query libraryId result, .asked c query ∈ before ∧
      AnswerTo before c k (docsRequest query libraryId) (.result result) ∧ text = extractTextContent result
  | .answered _ _, _ => True

/-- what comes before a phase -/
def CallAt (events : List Event) (c : CallId) : Phase → Prop
  | .idle => ∀ query, .asked c query ∉ events
  | .connecting k query => .asked c query ∈ events ∧ .opened k query.server ∈ events
  | .listing k query => .asked c query ∈ events ∧ .opened k query.server ∈ events ∧ .sent c k .listTools ∈ events
  | .resolving k query =>
    .asked c query ∈ events ∧ .opened k query.server ∈ events ∧ .sent c k (resolveRequest query) ∈ events
  | .reading k query =>
    .asked c query ∈ events ∧ ∃ libraryId, .sent c k (docsRequest query libraryId) ∈ events
  | .returned _ | .threw _ => True

structure Ordered (servers : List McpServerConfig) (s : McpClient) : Prop where
  events : Each (EventOk servers) s.events
  calls : ∀ c, CallAt s.events c (s.calls c)
  opened : ∀ k connection, s.connections[k]? = some connection → .opened k connection.server ∈ s.events

section
variable {servers : List McpServerConfig} {s t : McpClient} {c : CallId} {events new : List Event}

theorem CallAt.later {phase : Phase} (h : CallAt events c phase) (hnew : ∀ query, .asked c query ∉ new) :
    CallAt (new ++ events) c phase := by
  have hsub : events ⊆ new ++ events := List.subset_append_right _ _
  cases phase with
  | idle =>
    intro query hmem
    exact (List.mem_append.mp hmem).elim (hnew query) (h query)
  | connecting k query => exact ⟨hsub h.1, hsub h.2⟩
  | listing k query => exact ⟨hsub h.1, hsub h.2.1, hsub h.2.2⟩
  | resolving k query => exact ⟨hsub h.1, hsub h.2.1, hsub h.2.2⟩
  | reading k query =>
    obtain ⟨hasked, libraryId, hsent⟩ := h
    exact ⟨hsub hasked, libraryId, hsub hsent⟩
  | returned | threw => exact trivial

/-- one query goes on, and tells of itself -/
theorem Ordered.go (h : Ordered servers s) (new : List Event) (phase : Phase) (hcalls : t.calls = (s.set c phase).calls)
    (hconnections : ∀ k connection, t.connections[k]? = some connection → .opened k connection.server ∈ t.events)
    (hevents : t.events = new ++ s.events) (hok : Each (EventOk servers) (new ++ s.events))
    (hasked : ∀ k query, k ≠ c → .asked k query ∉ new) (hphase : CallAt (new ++ s.events) c phase) :
    Ordered servers t := by
  refine ⟨hevents ▸ hok, fun k => ?_, hconnections⟩
  rw [hcalls, hevents]
  show CallAt _ k (if k = c then phase else s.calls k)
  split
  next hk => exact hk ▸ hphase
  next hk => exact (h.calls k).later fun query => hasked k query hk

/-- no connection is opened -/
theorem Ordered.goOn (h : Ordered servers s) (new : List Event) {phase : Phase}
    (hcalls : t.calls = (s.set c phase).calls) (hconnections : t.connections = s.connections) (hevents : t.events = new ++ s.events)
    (hok : Each (EventOk servers) (new ++ s.events)) (hasked : ∀ k query, .asked k query ∉ new)
    (hphase : CallAt (new ++ s.events) c phase) : Ordered servers t := by
  refine h.go new phase hcalls (fun k connection hk => ?_) hevents hok (fun k query _ => hasked k query) hphase
  rw [hconnections] at hk
  rw [hevents]
  exact List.mem_append_right _ (h.opened k connection hk)

theorem answerTo_cons {k : Nat} {request : Request} (h : .sent c k request ∈ events) (reply : Reply) :
    AnswerTo (.answered c reply :: events) c k request reply := ⟨[], events, rfl, h⟩

theorem Ordered.setStatus (h : Ordered servers s) (k : Nat) (status : Status) : Ordered servers (s.setStatus k status) := by
  refine ⟨h.events, h.calls, fun j connection hj => ?_⟩
  rw [getElem?_setStatus] at hj
  split at hj
  · obtain ⟨old, hold, rfl⟩ := Option.map_eq_some_iff.mp hj
    exact h.opened j old hold
  · exact h.opened j connection hj

theorem ordered_ask (hcached : Cached servers s) (h : Ordered servers s) (hidle : s.calls c = .idle) {query : Query}
    (hserver : servers.find? (fun server => server.name = query.server.name) = some query.server) :
    Ordered servers (s.ask c query) := by
  have hnew : ∀ query', .asked c query' ∉ s.events := by
    have hcall := h.calls c
    rw [hidle] at hcall
    exact hcall
  have hmem : query.server ∈ servers := List.mem_of_find?_eq_some hserver
  have hasked : Each (EventOk servers) (.asked c query :: s.events) := ⟨⟨hmem, hnew⟩, h.events⟩
  unfold McpClient.ask McpClient.getOrConnect
  cases hclients : (s.tell (.asked c query)).clients query.server.name with
  | some k =>
    dsimp only
    obtain ⟨connection, hconnection, hname, -⟩ := (hcached.clients _ _).mp hclients
    have hfind := hcached.servers connection (List.mem_of_getElem? hconnection)
    rw [hname, hserver, Option.some.injEq] at hfind
    refine h.go [.asked c query] (.connecting k query) rfl (fun j other hj => ?_) rfl hasked ?_ ?_
    · exact List.mem_cons_of_mem _ (h.opened j other hj)
    · intro j query' hj hmem
      cases List.mem_singleton.mp hmem
      exact hj rfl
    · refine ⟨List.mem_cons_self, List.mem_cons_of_mem _ ?_⟩
      rw [hfind]
      exact h.opened k connection hconnection
  | none =>
    dsimp only
    refine h.go [.opened s.connections.length query.server, .asked c query] (.connecting s.connections.length query) rfl (fun j other hj => ?_) rfl ⟨hmem, hasked⟩ ?_ ?_
    · change (s.connections ++ [⟨query.server, .pending⟩])[j]? = some other at hj
      rw [List.getElem?_append] at hj
      split at hj
      · exact List.mem_cons_of_mem _ (List.mem_cons_of_mem _ (h.opened j other hj))
      · obtain ⟨hlt, heq⟩ := List.getElem?_eq_some_iff.mp hj
        rw [List.length_singleton] at hlt
        obtain rfl : j = s.connections.length := by omega
        simp only [Nat.sub_self, List.getElem_cons_zero] at heq
        rw [← heq]
        exact List.mem_cons_self
    · intro j query' hj hmem
      rcases List.mem_cons.mp hmem with heq | hmem
      · cases heq
      · cases List.mem_singleton.mp hmem
        exact hj rfl
    · exact ⟨List.mem_cons_of_mem _ List.mem_cons_self, List.mem_cons_self⟩

theorem ordered_onAnswer {reply : Reply} {phase : Phase} (hphase : s.calls c = phase) (h : Ordered servers s)
    (hstep : s.onAnswer c reply phase = some t) : Ordered servers t := by
  have hcall := h.calls c
  rw [hphase] at hcall
  have hanswered : Each (EventOk servers) (.answered c reply :: s.events) := ⟨trivial, h.events⟩
  have hnone : ∀ k query, Event.asked k query ∉ [Event.answered c reply] := by
    intro k query hmem
    cases List.mem_singleton.mp hmem
  have hnone' (k : Nat) (request : Request) :
      ∀ k' query, Event.asked k' query ∉ [Event.sent c k request, .answered c reply] := by
    intro k' query hmem
    rcases List.mem_cons.mp hmem with heq | hmem
    · cases heq
    · exact hnone k' query hmem
  cases phase with
  | listing k query =>
    obtain ⟨hasked, hopened, hsent⟩ := hcall
    cases reply with
    | tools names =>
      cases hstep
      unfold McpClient.onTools
      split
      · exact h.goOn [_] rfl rfl rfl hanswered hnone trivial
      next htools =>
        rw [not_or, not_not, not_not] at htools
        refine h.goOn [_, _] rfl rfl rfl ⟨?_, hanswered⟩ (hnone' k _) ?_
        · exact ⟨query, List.mem_cons_of_mem _ hasked, List.mem_cons_of_mem _ hopened,
            Or.inr (Or.inl ⟨rfl, names, answerTo_cons hsent _, htools⟩)⟩
        · exact ⟨List.mem_cons_of_mem _ (List.mem_cons_of_mem _ hasked),
            List.mem_cons_of_mem _ (List.mem_cons_of_mem _ hopened), List.mem_cons_self⟩
    | result result => cases hstep
    | failed message =>
      cases hstep
      exact h.goOn [_] rfl rfl rfl hanswered hnone trivial
  | resolving k query =>
    obtain ⟨hasked, hopened, hsent⟩ := hcall
    cases reply with
    | tools names => cases hstep
    | result result =>
      cases hstep
      unfold McpClient.onResolved
      split
      · exact h.goOn [_] rfl rfl rfl hanswered hnone trivial
      next libraryId hlibraryId =>
        refine h.goOn [_, _] rfl rfl rfl ⟨?_, hanswered⟩ (hnone' k _) ?_
        · exact ⟨query, List.mem_cons_of_mem _ hasked, List.mem_cons_of_mem _ hopened,
            Or.inr (Or.inr ⟨libraryId, result, rfl, answerTo_cons hsent _, hlibraryId, names_of_findLibraryId hlibraryId⟩)⟩
        · exact ⟨List.mem_cons_of_mem _ (List.mem_cons_of_mem _ hasked), libraryId, List.mem_cons_self⟩
    | failed message =>
      cases hstep
      exact h.goOn [_] rfl rfl rfl hanswered hnone trivial
  | reading k query =>
    obtain ⟨hasked, libraryId, hsent⟩ := hcall
    cases reply with
    | tools names => cases hstep
    | result result =>
      cases hstep
      refine h.goOn [.returned c (extractTextContent result), .answered c (.result result)] rfl rfl rfl
        ⟨?_, hanswered⟩ ?_ trivial
      · exact ⟨k, query, libraryId, result, List.mem_cons_of_mem _ hasked, answerTo_cons hsent _, rfl⟩
      · intro k' query' hmem
        rcases List.mem_cons.mp hmem with heq | hmem
        · cases heq
        · exact hnone k' query' hmem
    | failed message =>
      cases hstep
      exact h.goOn [_] rfl rfl rfl hanswered hnone trivial
  | _ => cases hstep

theorem ordered_step {action : Action} (hcached : Cached servers s) (h : Ordered servers s)
    (hstep : s.step servers action = some t) : Ordered servers t := by
  cases action with
  | start c library topic serverName =>
    unfold McpClient.step at hstep
    dsimp only at hstep
    split at hstep
    next hidle =>
      split at hstep
      next =>
        cases hstep
        exact h.goOn [] rfl rfl rfl h.events (fun _ _ => List.not_mem_nil) trivial
      next server hserver =>
        cases hstep
        exact ordered_ask hcached h hidle (resolveServerConfig_find hserver)
    next => cases hstep
  | connected k =>
    unfold McpClient.step at hstep
    dsimp only at hstep
    split at hstep
    next =>
      cases hstep
      exact h.setStatus k _
    next => cases hstep
  | rejected k message =>
    unfold McpClient.step at hstep
    dsimp only at hstep
    split at hstep
    next =>
      cases hstep
      exact h.setStatus k _
    next => cases hstep
  | forget k =>
    unfold McpClient.step at hstep
    dsimp only at hstep
    split at hstep
    next message _ =>
      cases hstep
      have hforgotten := h.setStatus k (.forgotten message)
      exact ⟨hforgotten.events, hforgotten.calls, hforgotten.opened⟩
    next => cases hstep
  | resume c =>
    obtain ⟨k, query, hphase, rfl | ⟨message, rfl⟩⟩ := onResume_cases hstep
    · have hcall := h.calls c
      rw [hphase] at hcall
      obtain ⟨hasked, hopened⟩ := hcall
      refine h.goOn [.sent c k .listTools] rfl rfl rfl
        ⟨⟨query, hasked, hopened, Or.inl rfl⟩, h.events⟩ ?_ ?_
      · intro k' query' hmem
        cases List.mem_singleton.mp hmem
      · exact ⟨List.mem_cons_of_mem _ hasked, List.mem_cons_of_mem _ hopened, List.mem_cons_self⟩
    · exact h.goOn [] rfl rfl rfl h.events (fun _ _ => List.not_mem_nil) trivial
  | answer c reply => exact ordered_onAnswer rfl h hstep

/-- **No tool but these two, and no id but the server's.** -/
theorem queries_keep_protocol (servers : List McpServerConfig) (actions : List Action)
    (hrun : run (McpClient.step servers) .initial actions = some s) : Each (EventOk servers) s.events := by
  have hinitial : Ordered servers .initial :=
    ⟨trivial, fun _ _ => List.not_mem_nil, fun _ _ hnone => by cases hnone⟩
  have hboth : Cached servers s ∧ Ordered servers s :=
    run_inv (P := fun s => Cached servers s ∧ Ordered servers s)
      (fun _ _ _ h hstep => ⟨cached_step h.1 hstep, ordered_step h.1 h.2 hstep⟩) actions _ s
      ⟨cached_initial servers, hinitial⟩ hrun
  exact hboth.2.events

end

def answeredQuery : List Action :=
  [.start 0 (lit "nestjs") (lit "guards") none, .connected 0, .resume 0,
    .answer 0 (.tools [lit "get-library-docs", lit "delete-everything", lit "resolve-library-id"]),
    .answer 0 (.result ⟨some [.text (lit "- context7-compatible library id: /nestjs/docs x")]⟩),
    .answer 0 (.result ⟨some [.text (lit "a"), .other, .text (lit "b")]⟩)]

theorem queries_keep_protocol_answeredQuery : ∃ s,
    run (McpClient.step [context7]) .initial answeredQuery = some s ∧
      .returned 0 (lit "a\nb") ∈ s.events ∧ Each (EventOk [context7]) s.events :=
  ⟨_, rfl, List.mem_cons_self, queries_keep_protocol [context7] answeredQuery rfl⟩

end Mcp
