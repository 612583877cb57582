import JinCore.Js.JsonValue
import JinCore.Lib.Blanks
import JinCore.Orchestrator.Logic

/-!
# The payloads of push notifications (`push.payloads.ts`, `push.types.ts`)

* `truncate`                the text of an agent in a notification; `fits_truncate`, `truncate_truncate`;
* `alert` and its callers   one builder for each kind of notification;
* `ActivityContentState`    what a Live Activity shows of a run; `orchestrationContentState`;
* `liveActivityUpdatePayload`, `liveActivityStartPayload`;
* `points_agentsOf`         one point for each sub-agent, whatever the order of the tickets.
-/

namespace Push
open JsString Json Orchestrator

/-! ## kinds -/

inductive ApnsEnvironment where
  | sandbox | production
  deriving DecidableEq, Repr

/-- `PUSH_KINDS` -/
inductive PushKind where
  | approvalNew | approvalExpiring | notifyExecuted | budget | killSwitch | bridgeMessage | morningSummary | chatDone
  deriving DecidableEq, Repr

def PushKind.id : PushKind → JsString
  | approvalNew => lit "approval_new"
  | approvalExpiring => lit "approval_expiring"
  | notifyExecuted => lit "notify_executed"
  | budget => lit "budget"
  | killSwitch => lit "kill_switch"
  | bridgeMessage => lit "bridge_message"
  | morningSummary => lit "morning_summary"
  | chatDone => lit "chat_done"

/-- `DEFAULT_PREFERENCES` -/
def PushKind.default : PushKind → Bool
  | notifyExecuted => false
  | _ => true

def wantsKind (preferences : List (JsString × Bool)) (kind : PushKind) : Bool :=
  (preferences.lookup kind.id).getD kind.default

inductive ApnsPushType where
  | alert | liveactivity | background
  deriving DecidableEq, Repr

structure ApnsNotification where
  pushType : ApnsPushType
  priority : Nat
  body : Value
  collapseId : Option JsString
  expiration : Option Nat

/-! ## texts -/

def truncate (text : JsString) (max : Nat) : JsString :=
  let clean := Blanks.normalize isSpace 0x20 text.units
  if clean.length ≤ max then ⟨clean⟩ else ⟨clean.take (max - 1) ++ (lit "…").units⟩

def maxBodyChars : Nat := 180

/-! ## notifications -/

structure AlertInput where
  title : JsString
  body : JsString
  subtitle : Option JsString
  category : JsString
  threadId : JsString
  link : JsString
  timeSensitive : Bool
  collapseId : Option JsString
  isMutable : Bool
  extra : List (JsString × Value)

/-- `...(v !== undefined ? { key: v } : {})` -/
def member (key : String) (v : Option Value) : List (JsString × Value) := (v.map (lit key, ·)).toList

def whenTrue (b : Bool) (v : Value) : Option Value := if b = true then some v else none

def alert (input : AlertInput) : ApnsNotification where
  pushType := .alert
  priority := 10
  collapseId := input.collapseId
  expiration := none
  body := .object ([(lit "aps", .object ([
      (lit "alert", .object ([(lit "title", .string input.title)] ++ member "subtitle" (input.subtitle.map .string) ++
        [(lit "body", .string input.body)])),
      (lit "sound", .string (lit "default")),
      (lit "category", .string input.category),
      (lit "thread-id", .string input.threadId)] ++
      member "interruption-level" (whenTrue input.timeSensitive (.string (lit "time-sensitive"))) ++
      member "mutable-content" (whenTrue input.isMutable (.number (.finite 1))))),
    (lit "link", .string input.link)] ++ input.extra)

def categoryApproval : JsString := lit "JIN_APPROVAL"
def categoryInfo : JsString := lit "JIN_INFO"
def categoryBridge : JsString := lit "JIN_BRIDGE"

/-- an alert without the parts that most of them leave out -/
def plainAlert (title body category threadId link : JsString) : AlertInput :=
  ⟨title, body, none, category, threadId, link, false, none, false, []⟩

inductive PendingLevel where
  | confirm | dualConfirm
  deriving DecidableEq, Repr

def approvalNewPayload (requestId toolName : JsString) (level : PendingLevel) (planSummary : Option JsString) :
    ApnsNotification :=
  alert { plainAlert
      ((if level = .dualConfirm then lit "◆◆ Aprobación dual" else lit "◆ Aprobación") ++ lit " · " ++ toolName)
      (truncate (planSummary.getD toolName) maxBodyChars) categoryApproval (lit "approvals")
      (lit "jin://approval/" ++ requestId) with
    subtitle := some (lit "Toca para leer el payload")
    timeSensitive := true
    collapseId := some requestId
    extra := [(lit "requestId", .string requestId)] }

def approvalExpiringPayload (requestId toolName : JsString) : ApnsNotification :=
  alert { plainAlert (lit "Por vencer · " ++ toolName)
      (lit "Sigue esperando tu decisión. Si vence, NO se ejecuta.") categoryApproval (lit "approvals")
      (lit "jin://approval/" ++ requestId) with
    timeSensitive := true
    collapseId := some requestId
    extra := [(lit "requestId", .string requestId)] }

/-- `text.replace(part, '')`: the first one -/
def withoutFirst (part : List UInt16) : List UInt16 → List UInt16
  | [] => []
  | u :: us => if part.isPrefixOf (u :: us) = true then (u :: us).drop part.length else u :: withoutFirst part us

def notifyExecutedPayload (toolName : JsString) (relaxedBy : Option JsString) : ApnsNotification :=
  alert (plainAlert (lit "Ejecutada · " ++ toolName)
    (match truthy relaxedBy with
      | some mode => lit "Se ejecutó sola porque el modo " ++ ⟨withoutFirst (lit "autonomy:").units mode.units⟩ ++
          lit " la relajó."
      | none => lit "Acción de nivel notify: se ejecutó y queda en el Audit.")
    categoryInfo (lit "activity") (lit "jin://audit"))

/-- `Math.round(ratio * 100)`, of a ratio that is not negative -/
def percentText (ratio : ℚ) : JsString :=
  match roundDouble (ratio * 100) with
  | .finite q => natText ⌊q + 1 / 2⌋.toNat
  | _ => lit "Infinity"

def budgetPayload (ratio threshold : ℚ) : ApnsNotification :=
  alert { plainAlert (if 1 ≤ threshold then lit "Presupuesto agotado" else lit "Presupuesto al 80 %")
      (if 1 ≤ threshold then
        lit "Gasto de hoy al " ++ percentText ratio ++ lit " %: los agentes se detienen hasta mañana."
      else lit "Gasto de hoy al " ++ percentText ratio ++ lit " % del límite diario.")
      categoryInfo (lit "spend") (lit "jin://spend") with
    timeSensitive := 1 ≤ threshold }

def killSwitchPayload (reason : Option JsString) : ApnsNotification :=
  alert { plainAlert (lit "❄ Agentes congelados")
      (truncate (lit "Kill switch activado" ++ ((truthy reason).map (lit ": " ++ ·)).getD (lit "") ++
        lit ". Reanudar exige mantener pulsado 3 s en Gasto.") maxBodyChars)
      categoryInfo (lit "spend") (lit "jin://spend") with
    timeSensitive := true
    collapseId := some (lit "kill-switch") }

def bridgeMessagePayload (id body : JsString) (options : List JsString) : ApnsNotification :=
  alert { plainAlert (lit "Claude Code") (truncate body 400) categoryBridge (lit "bridge") (lit "jin://bridge") with
    isMutable := 0 < options.length
    extra := (lit "bridgeMessageId", .string id) ::
      member "options" (whenTrue (0 < options.length) (.array (options.map .string))) }

inductive MorningAlertEvent where
  | summary (ranAt summaryMarkdown : JsString)
  | failed (ranAt error : JsString)
  | missing
  deriving DecidableEq, Repr

def isMarkdownSign (u : UInt16) : Bool := (lit "*_`#>").units.contains u

def morningSummaryPayload (event : MorningAlertEvent) : ApnsNotification :=
  alert (plainAlert (lit "Resumen de la mañana")
    (match event with
      | .summary _ markdown => truncate ⟨markdown.units.filter fun u => !isMarkdownSign u⟩ 300
      | .failed _ _ => lit "El análisis de la noche falló: hoy no hay resumen. Revisa Canvas en la web."
      | .missing => lit "No hubo análisis a medianoche: hoy no hay resumen.")
    categoryInfo (lit "morning") (lit "jin://home"))

def chatDonePayload (conversationId objective : JsString) (ok : Bool) : ApnsNotification :=
  alert (plainAlert (if ok = true then lit "Jin terminó" else lit "El turno no terminó bien")
    (truncate objective 120) categoryInfo (lit "chat-" ++ conversationId) (lit "jin://chat/" ++ conversationId))

def testPayload : ApnsNotification :=
  alert (plainAlert (lit "Jin · prueba") (lit "Las notificaciones push funcionan.") categoryInfo (lit "test")
    (lit "jin://settings"))

/-! ## Live Activities -/

inductive ActivityMark where
  | done | running | pending | conflict | failed
  deriving DecidableEq, Repr

inductive ActivityPhase where
  | running | conflict | done | failed
  deriving DecidableEq, Repr

structure ActivityAgent where
  id : JsString
  ticket : JsString
  working : Bool
  deriving DecidableEq, Repr

structure ActivityContentState where
  title : JsString
  detail : Option JsString
  startsAt : Option JsNumber
  endsAt : Option JsNumber
  ready : Bool
  badge : Option JsString
  segments : List ActivityMark
  agents : List ActivityAgent
  phase : ActivityPhase
  deriving DecidableEq, Repr

structure SnapshotRun where
  objective : JsString
  status : AgentRunStatus
  createdAt : Int
  completedAt : Option Int

structure SnapshotTicket where
  description : JsString
  status : AgentTicketStatus
  assignedSubAgentId : Option JsString
  commentKinds : List AgentCommentKind
  lastConflictBody : Option JsString
  deriving DecidableEq, Repr

structure OrchestrationSnapshot where
  run : SnapshotRun
  tickets : List SnapshotTicket

/-- the seconds from 2001-01-01 on -/
def appleDate (time : Int) : JsNumber :=
  match roundDouble ((time : ℚ) / 1000) with
  | .finite q => roundDouble (q - 978307200)
  | n => n

def hasOpenConflict (kinds : List AgentCommentKind) : Bool := kinds.contains .conflict && !kinds.contains .resolution

def markOf (ticket : SnapshotTicket) : ActivityMark :=
  if hasOpenConflict ticket.commentKinds = true then .conflict
  else
    match ticket.status with
    | .done => .done
    | .inProgress => .running
    | .failed => .failed
    | _ => .pending

/-- the point of a sub-agent -/
def agentPoint (tickets : List SnapshotTicket) (agent : JsString) : ActivityAgent :=
  let own := tickets.filter fun t => t.assignedSubAgentId = some agent
  let current := own.find? fun t => t.status = .inProgress
  ⟨agent, ((current.or own.getLast?).map SnapshotTicket.description).getD (lit ""), current.isSome⟩

/-- the loop over the tickets -/
def addAgent (tickets : List SnapshotTicket) (agents : List ActivityAgent) (ticket : SnapshotTicket) :
    List ActivityAgent :=
  match truthy ticket.assignedSubAgentId with
  | none => agents
  | some agent =>
    if agents.any (fun existing => existing.id = agent) = true then agents
    else agents ++ [agentPoint tickets agent]

def agentsOf (tickets : List SnapshotTicket) : List ActivityAgent := tickets.foldl (addAgent tickets) []

def phaseOf (status : AgentRunStatus) (segments : List ActivityMark) : ActivityPhase :=
  match status with
  | .running => if segments.contains .conflict = true then .conflict else .running
  | .blocked => .conflict
  | .done => if segments.contains .failed = true then .failed else .done
  | _ => .failed

def orchestrationContentState (snapshot : OrchestrationSnapshot) : ActivityContentState :=
  let segments := snapshot.tickets.map markOf
  let phase := phaseOf snapshot.run.status segments
  let finished := phase = .done ∨ phase = .failed
  let conflictBody := if phase = .conflict then
      (snapshot.tickets.find? fun t => hasOpenConflict t.commentKinds).bind SnapshotTicket.lastConflictBody
    else none
  { title := snapshot.run.objective
    detail := truthy conflictBody
    startsAt := some (appleDate snapshot.run.createdAt)
    endsAt := if finished then snapshot.run.completedAt.map appleDate else none
    ready := finished
    badge := if 0 < segments.length then
        some (natText (segments.count .done) ++ lit "/" ++ natText segments.length)
      else none
    segments := segments
    agents := agentsOf snapshot.tickets
    phase := phase }

def killSwitchContentState (reason : Option JsString) (activatedAt : Option Int) : ActivityContentState where
  title := lit "Agentes congelados"
  detail := truthy reason
  startsAt := activatedAt.map appleDate
  endsAt := none
  ready := false
  badge := some (lit "kill")
  segments := []
  agents := []
  phase := .running

/-! ## the notifications of a Live Activity -/

/-- `ACTIVITY_RELEVANCE` -/
inductive ActivityKind where
  | dualConfirm | killSwitch | chatTurn | orchestration | relaxedMode
  deriving DecidableEq, Repr

def ActivityKind.id : ActivityKind → JsString
  | dualConfirm => lit "dualConfirm"
  | killSwitch => lit "killSwitch"
  | chatTurn => lit "chatTurn"
  | orchestration => lit "orchestration"
  | relaxedMode => lit "relaxedMode"

def ActivityKind.relevance : ActivityKind → JsNumber
  | dualConfirm => .finite 100
  | killSwitch => .finite 80
  | chatTurn => .finite 60
  | orchestration => .finite 50
  | relaxedMode => .finite 40

def ActivityMark.id : ActivityMark → JsString
  | done => lit "done"
  | running => lit "running"
  | pending => lit "pending"
  | conflict => lit "conflict"
  | failed => lit "failed"

def ActivityPhase.id : ActivityPhase → JsString
  | running => lit "running"
  | conflict => lit "conflict"
  | done => lit "done"
  | failed => lit "failed"

def ActivityAgent.toJson (agent : ActivityAgent) : Value :=
  .object [(lit "id", .string agent.id), (lit "ticket", .string agent.ticket), (lit "working", .bool agent.working)]

def ActivityContentState.toJson (state : ActivityContentState) : Value :=
  .object ([(lit "title", .string state.title)] ++ member "detail" (state.detail.map .string) ++
    member "startsAt" (state.startsAt.map .number) ++ member "endsAt" (state.endsAt.map .number) ++
    [(lit "ready", .bool state.ready)] ++ member "badge" (state.badge.map .string) ++
    [(lit "segments", .array (state.segments.map fun mark => .string mark.id)),
      (lit "agents", .array (state.agents.map ActivityAgent.toJson)), (lit "phase", .string state.phase.id)])

structure ActivityAlert where
  title : JsString
  body : JsString
  deriving DecidableEq, Repr

def ActivityAlert.toJson (text : ActivityAlert) : Value :=
  .object [(lit "title", .string text.title), (lit "body", .string text.body)]

/-- `Math.floor(now.getTime() / 1000)` -/
def seconds (now : Int) : Int := now / 1000

/-- `dismissal` is `end.dismissAfterSeconds` -/
def liveActivityUpdatePayload (kind : ActivityKind) (state : ActivityContentState) (dismissal : Option Nat)
    (text : Option ActivityAlert) (now : Int) : ApnsNotification where
  pushType := .liveactivity
  priority := if text.isSome = true ∨ dismissal.isSome = true then 10 else 5
  collapseId := none
  expiration := none
  body := .object [(lit "aps", .object ([(lit "timestamp", .number (.finite (seconds now))),
      (lit "event", .string (if dismissal.isSome = true then lit "end" else lit "update")),
      (lit "content-state", state.toJson), (lit "relevance-score", .number kind.relevance)] ++
      member "dismissal-date" (dismissal.map fun after => .number (.finite (seconds now + after : Int))) ++
      member "alert" (text.map ActivityAlert.toJson)))]

def liveActivityStartPayload (kind : ActivityKind) (referenceId : JsString) (state : ActivityContentState)
    (text : ActivityAlert) (now : Int) : ApnsNotification where
  pushType := .liveactivity
  priority := 10
  collapseId := none
  expiration := none
  body := .object [(lit "aps", .object [(lit "timestamp", .number (.finite (seconds now))),
      (lit "event", .string (lit "start")), (lit "attributes-type", .string (lit "JinActivityAttributes")),
      (lit "attributes", .object [(lit "kind", .string kind.id), (lit "referenceId", .string referenceId)]),
      (lit "content-state", state.toJson), (lit "relevance-score", .number kind.relevance),
      (lit "alert", text.toJson)])]

/-! ## the points of the sub-agents -/

/-- one point for each sub-agent of the tickets that the loop has seen -/
structure Points (tickets seen : List SnapshotTicket) (agents : List ActivityAgent) : Prop where
  nodup : (agents.map ActivityAgent.id).Nodup
  mem : ∀ point, point ∈ agents ↔
    (∃ t ∈ seen, truthy t.assignedSubAgentId = some point.id) ∧ point = agentPoint tickets point.id

theorem points_addAgent {tickets seen : List SnapshotTicket} {agents : List ActivityAgent}
    (h : Points tickets seen agents) (t : SnapshotTicket) :
    Points tickets (seen ++ [t]) (addAgent tickets agents t) := by
  -- whose points are there once the ticket is seen
  have hseen (id : JsString) : (∃ u ∈ seen ++ [t], truthy u.assignedSubAgentId = some id) ↔
      (∃ u ∈ seen, truthy u.assignedSubAgentId = some id) ∨ truthy t.assignedSubAgentId = some id := by
    simp only [List.mem_append, List.mem_singleton, or_and_right, exists_or, exists_eq_left]
  cases hagent : truthy t.assignedSubAgentId with
  | none =>
    have hsame : addAgent tickets agents t = agents := by rw [addAgent, hagent]
    rw [hsame]
    refine ⟨h.nodup, fun point => ?_⟩
    rw [h.mem, hseen, hagent]
    simp
  | some agent =>
    by_cases hknown : agents.any (fun existing => existing.id = agent) = true
    · have hsame : addAgent tickets agents t = agents := by
        rw [addAgent, hagent]
        exact if_pos hknown
      obtain ⟨existing, hexisting, hid⟩ := List.any_eq_true.mp hknown
      have hagentSeen := ((h.mem existing).mp hexisting).1
      rw [of_decide_eq_true hid] at hagentSeen
      rw [hsame]
      refine ⟨h.nodup, fun point => ?_⟩
      rw [h.mem, hseen, hagent]
      constructor
      · intro hpoint
        exact ⟨.inl hpoint.1, hpoint.2⟩
      · rintro ⟨hold | hnew, hpoint⟩
        · exact ⟨hold, hpoint⟩
        · rw [Option.some.inj hnew] at hagentSeen
          exact ⟨hagentSeen, hpoint⟩
    · have hadded : addAgent tickets agents t = agents ++ [agentPoint tickets agent] := by
        rw [addAgent, hagent]
        exact if_neg hknown
      have hfresh : ∀ existing ∈ agents, existing.id ≠ agent := fun existing hexisting hid =>
        hknown (List.any_eq_true.mpr ⟨existing, hexisting, decide_eq_true hid⟩)
      rw [hadded]
      constructor
      · rw [List.map_append, List.nodup_append]
        refine ⟨h.nodup, List.nodup_singleton _, ?_⟩
        intro id hid id' hid' heq
        obtain ⟨existing, hexisting, rfl⟩ := List.mem_map.mp hid
        rw [List.map_singleton, List.mem_singleton] at hid'
        exact hfresh existing hexisting (heq.trans hid')
      · intro point
        rw [List.mem_append, List.mem_singleton, h.mem, hseen, hagent]
        constructor
        · rintro (hold | rfl)
          · exact ⟨.inl hold.1, hold.2⟩
          · exact ⟨.inr rfl, rfl⟩
        · rintro ⟨hold | hnew, hpoint⟩
          · exact .inl ⟨hold, hpoint⟩
          · right
            rw [hpoint, ← Option.some.inj hnew]

theorem points_agentsOf (tickets : List SnapshotTicket) : Points tickets tickets (agentsOf tickets) := by
  have hfold (later seen : List SnapshotTicket) (agents : List ActivityAgent) (h : Points tickets seen agents) :
      Points tickets (seen ++ later) (later.foldl (addAgent tickets) agents) := by
    induction later generalizing seen agents with
    | nil =>
      rw [List.append_nil]
      exact h
    | cons t later ih =>
      have hnext := ih (seen ++ [t]) _ (points_addAgent h t)
      rw [List.append_assoc] at hnext
      exact hnext
  refine hfold tickets [] [] ⟨List.nodup_nil, fun point => ?_⟩
  simp

/-- a point is at work exactly if one of its tickets is in progress -/
theorem working_agentPoint (tickets : List SnapshotTicket) (agent : JsString) :
    (agentPoint tickets agent).working = true ↔
      ∃ t ∈ tickets, t.assignedSubAgentId = some agent ∧ t.status = .inProgress := by
  show Option.isSome _ = true ↔ _
  rw [List.find?_isSome]
  simp only [List.mem_filter, decide_eq_true_eq, and_assoc]

/-- and shows a ticket of its own -/
theorem ticket_agentPoint {tickets : List SnapshotTicket} {agent : JsString}
    (h : ∃ t ∈ tickets, t.assignedSubAgentId = some agent) :
    ∃ t ∈ tickets, t.assignedSubAgentId = some agent ∧ (agentPoint tickets agent).ticket = t.description ∧
      ((agentPoint tickets agent).working = true → t.status = .inProgress) := by
  obtain ⟨u, hu, hagent⟩ := h
  have howner : u ∈ tickets.filter fun t => t.assignedSubAgentId = some agent := by
    rw [List.mem_filter]
    exact ⟨hu, decide_eq_true hagent⟩
  cases hcurrent : (tickets.filter fun t => t.assignedSubAgentId = some agent).find? fun t => t.status = .inProgress with
  | some t =>
    have hmem := List.mem_filter.mp (List.mem_of_find?_eq_some hcurrent)
    have hstatus := List.find?_some hcurrent
    refine ⟨t, hmem.1, of_decide_eq_true hmem.2, ?_, fun _ => of_decide_eq_true hstatus⟩
    rw [agentPoint, hcurrent]
    rfl
  | none =>
    obtain ⟨t, hlast⟩ : ∃ t, (tickets.filter fun t => t.assignedSubAgentId = some agent).getLast? = some t :=
      Option.isSome_iff_exists.mp (List.getLast?_isSome.mpr (List.ne_nil_of_mem howner))
    have hmem := List.mem_filter.mp (List.mem_of_getLast? hlast)
    refine ⟨t, hmem.1, of_decide_eq_true hmem.2, ?_, fun hworking => ?_⟩
    · rw [agentPoint, hcurrent, hlast]
      rfl
    · rw [agentPoint, hcurrent] at hworking
      cases hworking

/-! ## the texts of agents -/

/-- the text is on one line and no longer than it may be -/
structure Fits (max : Nat) (text : JsString) : Prop where
  spaced : Blanks.Spaced isSpace 0x20 text.units
  length_le : text.units.length ≤ max

theorem isSpace_ellipsis : isSpace 0x2026 = false := by decide

theorem truncate_cases (text : JsString) (max : Nat) :
    (truncate text max = ⟨Blanks.normalize isSpace 0x20 text.units⟩ ∧
      (Blanks.normalize isSpace 0x20 text.units).length ≤ max) ∨
    (truncate text max = ⟨(Blanks.normalize isSpace 0x20 text.units).take (max - 1) ++ [0x2026]⟩ ∧
      max < (Blanks.normalize isSpace 0x20 text.units).length) := by
  by_cases hlength : (Blanks.normalize isSpace 0x20 text.units).length ≤ max
  · left
    exact ⟨if_pos hlength, hlength⟩
  · right
    refine ⟨?_, by omega⟩
    unfold truncate
    rw [if_neg hlength]
    rfl

theorem fits_truncate (text : JsString) {max : Nat} (hmax : 0 < max) : Fits max (truncate text max) := by
  have hnormal : Blanks.Spaced isSpace 0x20 (Blanks.normalize isSpace 0x20 text.units) := Blanks.spaced_normalize _
  rcases truncate_cases text max with ⟨htext, hlength⟩ | ⟨htext, hlength⟩
  · rw [htext]
    exact ⟨hnormal, hlength⟩
  · rw [htext]
    refine ⟨(hnormal.of_prefix (List.take_prefix _ _)).concat isSpace_ellipsis, ?_⟩
    show (List.take (max - 1) (Blanks.normalize isSpace 0x20 text.units) ++ [0x2026]).length ≤ max
    rw [List.length_append, List.length_take, List.length_singleton]
    omega

/-- whatever an agent writes, the notification shows one line of it that fits, and what fits is shown as it is -/
theorem truncate_truncate (text : JsString) {max : Nat} (hmax : 0 < max) :
    Fits max (truncate text max) ∧ truncate (truncate text max) max = truncate text max := by
  have hfits := fits_truncate text hmax
  refine ⟨hfits, ?_⟩
  have hnormal : Blanks.Spaced isSpace 0x20 (Blanks.normalize isSpace 0x20 text.units) := Blanks.spaced_normalize _
  have hsame : Blanks.normalize isSpace 0x20 (truncate text max).units = (truncate text max).units := by
    rcases truncate_cases text max with ⟨htext, -⟩ | ⟨htext, -⟩
    · rw [htext]
      exact Blanks.normalize_normalize _
    · rw [htext]
      exact (hnormal.of_prefix (List.take_prefix _ _)).normalize_concat isSpace_ellipsis
  rcases truncate_cases (truncate text max) max with ⟨htext, -⟩ | ⟨-, hlong⟩
  · rw [htext, hsame]
  · rw [hsame] at hlong
    exact absurd hfits.length_le (by omega)

end Push
