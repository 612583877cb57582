import JinCore.Agent.Logic
import JinCore.Hitl.Pending
import JinCore.Js.JsonValue
import JinCore.Lib.Runs
import JinCore.Push.Payloads
import JinCore.Security.InjectionSanitizer

/-!
# The analysis of the night and the alert of the morning (`integrations/canvas`)

At midnight a run of the analysis reads Canvas, asks a model for a summary and leaves a row, whatever happens; at six
the alert reads the last row and says what became of it.  Runs and alerts may overlap, and any statement may fail.

* `ShadowingRun`, `canvasPayload`, `wrappedPrompt`   the row of a run, and what the model is shown;
* `alertOf`, `formatMorningAlert`   what is said of a row, and the text of it;
* `Pc`, `Observed`, `Shadowing.step`   where a run or an alert stands, and its statements;
* `Told`, `Truthful`   what is said has happened;
* `morning_alert_truthful`.
-/

namespace Canvas
open JsString Common Audit Hitl Runs Security
open Push (MorningAlertEvent)

/-! ## the rows -/

inductive RunStatus where
  | ok | failed
  deriving DecidableEq, Repr

/-- the values that `persistRun` inserts -/
structure RunValues where
  status : RunStatus
  error : Option JsString
  summaryMarkdown : Option JsString
  coursesChecked : Nat
  announcementsCount : Nat
  assignmentsCount : Nat
  modelId : Option JsString
  deriving DecidableEq, Repr

/-- a row of `shadowing_runs` -/
structure ShadowingRun extends RunValues where
  ranAt : Int
  deriving DecidableEq, Repr

def maxStoredErrorLength : Nat := 500

def maxRunAgeMs : Int := 12 * 60 * 60 * 1000

def cutError (message : JsString) : JsString := ⟨message.units.take maxStoredErrorLength⟩

/-- the row after a run that threw -/
def failedRun (message : JsString) : RunValues := ⟨.failed, some (cutError message), none, 0, 0, 0, none⟩

/-! ## what the model is shown -/

structure CanvasContent where
  courses : List Nat
  announcements : List Json.Value
  upcomingAssignments : List Json.Value

def canvasPayload (since : Int) (content : CanvasContent) : JsString :=
  ⟨(Json.Value.object [
    (lit "since", .string (isoText since)),
    (lit "coursesCount", .number (.finite content.courses.length)),
    (lit "announcements", .array content.announcements),
    (lit "upcomingAssignments", .array content.upcomingAssignments)]).text⟩

/-- the message to the model; all that comes from Canvas is in one block -/
def wrappedPrompt (nonce : SessionNonce) (since : Int) (content : CanvasContent) : Except JinError JsString :=
  (wrapUntrustedContent (canvasPayload since content) (lit "canvas_shadowing") nonce.text).map fun block =>
    lit "A continuación se presentan las actualizaciones de Canvas LMS:\n\n" ++ block

def okRun (content : CanvasContent) (summaryMarkdown modelId : JsString) : RunValues :=
  ⟨.ok, none, some summaryMarkdown, content.courses.length, content.announcements.length,
    content.upcomingAssignments.length, some modelId⟩

section
variable (sha256 : JsString → JsString)

def shadowingCall (requestId : JsString) (since : Int) (content : CanvasContent) : AuditCall :=
  .recordToolCall requestId (lit "system_cron") (lit "canvas_shadowing_cron")
    (Agent.computeInputsHash sha256 ⟨(Json.Value.object [(lit "since", .string (isoText since))]).text⟩)
    (some (lit "Ejecución de Shadowing Académico nocturno")) .auto
    (some (lit "Shadowing: " ++ natText content.courses.length ++ lit " cursos, "
      ++ natText content.announcements.length ++ lit " anuncios, " ++ natText content.upcomingAssignments.length
      ++ lit " entregables próximos."))

/-! ## the alert -/

def kindOf : MorningAlertEvent → JsString
  | .summary _ _ => lit "summary"
  | .failed _ _ => lit "failed"
  | .missing => lit "missing"

def noSummary : JsString := lit "la corrida terminó sin resumen"

/-- what is said of the last run of the night -/
def alertOf : Option ShadowingRun → MorningAlertEvent
  | none => .missing
  | some latest =>
    match latest.status, latest.summaryMarkdown with
    | .ok, some summaryMarkdown =>
      if summaryMarkdown = lit "" then .failed (isoText latest.ranAt) (latest.error.getD noSummary)
      else .summary (isoText latest.ranAt) summaryMarkdown
    | _, _ => .failed (isoText latest.ranAt) (latest.error.getD noSummary)

def alertCall (requestId : JsString) (latest : Option ShadowingRun) : AuditCall :=
  .recordToolCall requestId (lit "system_cron") (lit "morning_alert_cron")
    (sha256 ⟨(Json.Value.object ((lit "kind", .string (kindOf (alertOf latest))) ::
      latest.toList.map fun row => (lit "ranAt", .string (isoText row.ranAt)))).text⟩)
    (some (lit "Alerta matutina 06:00 (" ++ kindOf (alertOf latest) ++ lit ")")) .auto none

end

def telegramMaxMessageLength : Nat := 4096

def truncationNotice : JsString := lit "\n\n… (resumen truncado)"

/-- how the text begins, before anything that is not fixed -/
def opening : MorningAlertEvent → JsString
  | .summary _ _ => lit "☀️ Buenos días — prioridades de hoy (análisis de las 00:00)\n\n"
  | .failed _ _ =>
    lit "⚠️ El análisis académico de las 00:00 FALLÓ, así que no hay resumen fiable de prioridades para hoy.\n"
      ++ lit "Motivo: "
  | .missing =>
    lit "⚠️ El análisis académico de las 00:00 NO se ejecutó (no hay ninguna corrida registrada en las últimas 12 h), "
      ++ lit "así que no hay resumen de prioridades para hoy. Revisá Canvas a mano."

def alertText (event : MorningAlertEvent) : JsString :=
  match event with
  | .summary _ summaryMarkdown => opening event ++ summaryMarkdown
  | .failed _ error => opening event ++ (error ++ lit "\nRevisá Canvas a mano y avisame si el fallo se repite.")
  | .missing => opening event

def formatMorningAlert (event : MorningAlertEvent) : JsString :=
  if (alertText event).units.length ≤ telegramMaxMessageLength then alertText event
  else ⟨(alertText event).units.take (telegramMaxMessageLength - truncationNotice.units.length)
    ++ truncationNotice.units⟩

/-! ## the state -/

/-- what a run or an alert awaits -/
inductive Pc where
  | idle
  | courses (since : Int)
  /-- the announcements and the assignments are fetched together -/
  | contents (since : Int) (courses : List Nat) (announcements upcomingAssignments : Option (List Json.Value))
  | completing (since : Int) (content : CanvasContent)
  | recording (since : Int) (content : CanvasContent) (summaryMarkdown modelId : JsString)
  | persisting (values : RunValues)
  | selecting (now : Int)
  | telling (latest : Option ShadowingRun)
  | done

/-- what has happened -/
inductive Observed where
  | prompted (c : CallId) (text : JsString)
  | completed (c : CallId) (summaryMarkdown : JsString)
  | threw (c : CallId) (message : JsString)
  | audited (c : CallId) (call : AuditCall)
  | inserted (c : CallId) (row : ShadowingRun)
  | emitted (c : CallId) (now : Int) (event : MorningAlertEvent)

structure Shadowing where
  rows : List ShadowingRun
  pc : CallId → Pc
  /-- newest first -/
  observed : List Observed

inductive Action where
  | midnight (c : CallId) (now : Int)
  | gotCourses (c : CallId) (courses : List Nat)
  /-- the session has a nonce of its own -/
  | gotAnnouncements (c : CallId) (nonce : SessionNonce) (announcements : List Json.Value)
  | gotAssignments (c : CallId) (nonce : SessionNonce) (upcomingAssignments : List Json.Value)
  | completed (c : CallId) (summaryMarkdown modelId : JsString)
  /-- the append of a run ends, and the message where it throws -/
  | recorded (c : CallId) (requestId : JsString) (fate : Fate) (message : JsString)
  /-- a request to Canvas or to the model throws -/
  | threw (c : CallId) (message : JsString)
  | persisted (c : CallId) (ranAt : Int) (fate : Fate)
  | morning (c : CallId) (now : Int)
  | selected (c : CallId) (latest : Option ShadowingRun)
  | unselected (c : CallId)
  | audited (c : CallId) (requestId : JsString) (fate : Fate)

/-- the first row of the `select`, where one is young enough -/
def IsLatest (rows : List ShadowingRun) (now : Int) : Option ShadowingRun → Prop
  | none => ∀ row ∈ rows, row.ranAt < now - maxRunAgeMs
  | some latest => latest ∈ rows ∧ now - maxRunAgeMs ≤ latest.ranAt ∧ ∀ row ∈ rows, row.ranAt ≤ latest.ranAt

instance (rows : List ShadowingRun) (now : Int) : (latest : Option ShadowingRun) → Decidable (IsLatest rows now latest)
  | none => inferInstanceAs (Decidable (∀ row ∈ rows, row.ranAt < now - maxRunAgeMs))
  | some latest => inferInstanceAs (Decidable (latest ∈ rows ∧ now - maxRunAgeMs ≤ latest.ranAt ∧
      ∀ row ∈ rows, row.ranAt ≤ latest.ranAt))

namespace Shadowing

def init : Shadowing := ⟨[], fun _ => .idle, []⟩

def goto (s : Shadowing) (c : CallId) (pc : Pc) (events : List Observed) : Shadowing where
  rows := s.rows
  pc := Function.update s.pc c pc
  observed := events ++ s.observed

/-- the `catch` of the cron -/
def fails (s : Shadowing) (c : CallId) (message : JsString) (events : List Observed) : Shadowing :=
  s.goto c (.persisting (failedRun message)) (.threw c message :: events)

/-- `Promise.all` has ended where both lists are there -/
def onContents (s : Shadowing) (c : CallId) (nonce : SessionNonce) (since : Int) (courses : List Nat) :
    Option (List Json.Value) → Option (List Json.Value) → Shadowing
  | some announcements, some upcomingAssignments =>
    let content : CanvasContent := ⟨courses, announcements, upcomingAssignments⟩
    match wrappedPrompt nonce since content with
    | .ok text => s.goto c (.completing since content) [.prompted c text]
    | .error error => s.fails c error.message []
  | announcements, upcomingAssignments => s.goto c (.contents since courses announcements upcomingAssignments) []

section
variable (sha256 : JsString → JsString)

def onRecorded (s : Shadowing) (c : CallId) (requestId : JsString) (fate : Fate) (message : JsString) :
    Option Shadowing :=
  match s.pc c with
  | .recording since content summaryMarkdown modelId =>
    let events := if fate.applies then [.audited c (shadowingCall sha256 requestId since content)] else []
    if fate = .ok then some (s.goto c (.persisting (okRun content summaryMarkdown modelId)) events)
    else some (s.fails c message events)
  | _ => none

/-- an insert that throws is only logged -/
def onPersisted (s : Shadowing) (c : CallId) (ranAt : Int) (fate : Fate) : Option Shadowing :=
  match s.pc c with
  | .persisting values =>
    let row : ShadowingRun := { values with ranAt := ranAt }
    if fate.applies then some { s.goto c .done [.inserted c row] with rows := row :: s.rows }
    else some (s.goto c .done [])
  | _ => none

def step (s : Shadowing) : Action → Option Shadowing
  | .midnight c now =>
    match s.pc c with
    | .idle => some (s.goto c (.courses (now - 24 * 60 * 60 * 1000)) [])
    | _ => none
  | .gotCourses c courses =>
    match s.pc c with
    | .courses since =>
      -- without courses no announcements are asked for
      some (s.goto c (.contents since courses (if courses = [] then some [] else none) none) [])
    | _ => none
  | .gotAnnouncements c nonce announcements =>
    match s.pc c with
    | .contents since courses none upcomingAssignments =>
      some (s.onContents c nonce since courses (some announcements) upcomingAssignments)
    | _ => none
  | .gotAssignments c nonce upcomingAssignments =>
    match s.pc c with
    | .contents since courses announcements none =>
      some (s.onContents c nonce since courses announcements (some upcomingAssignments))
    | _ => none
  | .completed c summaryMarkdown modelId =>
    match s.pc c with
    | .completing since content =>
      some (s.goto c (.recording since content summaryMarkdown modelId) [.completed c summaryMarkdown])
    | _ => none
  | .recorded c requestId fate message => s.onRecorded sha256 c requestId fate message
  | .threw c message =>
    match s.pc c with
    | .courses _ | .contents _ _ _ _ | .completing _ _ => some (s.fails c message [])
    | _ => none
  | .persisted c ranAt fate => s.onPersisted c ranAt fate
  | .morning c now =>
    match s.pc c with
    | .idle => some (s.goto c (.selecting now) [])
    | _ => none
  | .selected c latest =>
    match s.pc c with
    | .selecting now =>
      -- the alert goes out before its audit
      if IsLatest s.rows now latest then some (s.goto c (.telling latest) [.emitted c now (alertOf latest)]) else none
    | _ => none
  | .unselected c =>
    match s.pc c with
    | .selecting _ => some (s.goto c .done [])
    | _ => none
  | .audited c requestId fate =>
    match s.pc c with
    | .telling latest =>
      some (s.goto c .done (if fate.applies then [.audited c (alertCall sha256 requestId latest)] else []))
    | _ => none

end

end Shadowing

/-! ## the text of the alert -/

theorem formatMorningAlert_length (event : MorningAlertEvent) :
    (formatMorningAlert event).units.length ≤ telegramMaxMessageLength := by
  unfold formatMorningAlert
  split
  next hshort => exact hshort
  next =>
    have hnotice : truncationNotice.units.length ≤ telegramMaxMessageLength := by decide
    rw [List.length_append, List.length_take]
    omega

/-- what is fixed is never cut off -/
theorem opening_kept (event : MorningAlertEvent) :
    (opening event).units <+: (formatMorningAlert event).units := by
  have hshort : (opening event).units.length ≤ telegramMaxMessageLength - truncationNotice.units.length := by
    cases event with
    | summary ranAt summaryMarkdown =>
      show (opening (.summary (lit "") (lit ""))).units.length ≤ _
      decide +kernel
    | failed ranAt error =>
      show (opening (.failed (lit "") (lit ""))).units.length ≤ _
      decide +kernel
    | missing => decide +kernel
  have htext : (opening event).units <+: (alertText event).units := by
    cases event with
    | summary ranAt summaryMarkdown => exact List.prefix_append _ _
    | failed ranAt error => exact List.prefix_append _ _
    | missing => exact List.prefix_refl _
  unfold formatMorningAlert
  split
  · exact htext
  · exact (List.prefix_take_iff.mpr ⟨htext, hshort⟩).trans (List.prefix_append _ _)

/-! ## what the alert says has happened -/

section
variable (sha256 : JsString → JsString)

/-- the row is the newest one, and young enough -/
def Newest (before : List Observed) (now : Int) (row : ShadowingRun) : Prop :=
  now - maxRunAgeMs ≤ row.ranAt ∧ ∀ k other, .inserted k other ∈ before → other.ranAt ≤ row.ranAt

/-- the run `k` has put the content into one block, and shown it to the model -/
def Prompted (before : List Observed) (k : CallId) (since : Int) (content : CanvasContent) : Prop :=
  ∃ nonce text, wrappedPrompt nonce since content = .ok text ∧ .prompted k text ∈ before

/-- the run `k` has got the summary of the model for the content -/
def Analysed (before : List Observed) (k : CallId) (since : Int) (content : CanvasContent)
    (summaryMarkdown : JsString) : Prop :=
  Prompted before k since content ∧ .completed k summaryMarkdown ∈ before

def Recorded (before : List Observed) (k : CallId) (since : Int) (content : CanvasContent) : Prop :=
  ∃ requestId, .audited k (shadowingCall sha256 requestId since content) ∈ before

/-- where the values of a row of the run `k` come from -/
def ValuesOk (before : List Observed) (k : CallId) (values : RunValues) : Prop :=
  (∃ since content summaryMarkdown modelId, values = okRun content summaryMarkdown modelId ∧
    Analysed before k since content summaryMarkdown ∧ Recorded sha256 before k since content) ∨
  ∃ message, values = failedRun message ∧ .threw k message ∈ before

/-- what is said has happened -/
def Told (before : List Observed) (now : Int) : MorningAlertEvent → Prop
  | .summary ranAt summaryMarkdown =>
    summaryMarkdown ≠ lit "" ∧ ∃ k row, .inserted k row ∈ before ∧ isoText row.ranAt = ranAt ∧ Newest before now row ∧
      ∃ since content, Analysed before k since content summaryMarkdown ∧ Recorded sha256 before k since content
  | .failed ranAt error =>
    ∃ k row, .inserted k row ∈ before ∧ isoText row.ranAt = ranAt ∧ Newest before now row ∧
      ((∃ message, .threw k message ∈ before ∧ error = cutError message) ∨
        (.completed k (lit "") ∈ before ∧ error = noSummary))
  | .missing => ∀ k row, .inserted k row ∈ before → row.ranAt < now - maxRunAgeMs

def EventOk : Observed → List Observed → Prop
  | .emitted c now event, before => Told sha256 before now event ∧ ∀ now' event', .emitted c now' event' ∉ before
  | _, _ => True

def PhaseOk (observed : List Observed) (c : CallId) : Pc → Prop
  | .idle | .selecting _ => ∀ now event, .emitted c now event ∉ observed
  | .completing since content => Prompted observed c since content
  | .recording since content summaryMarkdown _ => Analysed observed c since content summaryMarkdown
  | .persisting values => ValuesOk sha256 observed c values
  | _ => True

structure Truthful (s : Shadowing) : Prop where
  rows : ∀ row, row ∈ s.rows ↔ ∃ k, .inserted k row ∈ s.observed
  values : ∀ k row, .inserted k row ∈ s.observed → ValuesOk sha256 s.observed k row.toRunValues
  events : Each (EventOk sha256) s.observed
  phases : ∀ c, PhaseOk sha256 s.observed c (s.pc c)

end

section
variable {sha256 : JsString → JsString} {s t : Shadowing} {c : CallId} {observed : List Observed}

theorem Prompted.append {since : Int} {content : CanvasContent} (events : List Observed)
    (h : Prompted observed c since content) : Prompted (events ++ observed) c since content := by
  obtain ⟨nonce, text, htext, hmem⟩ := h
  exact ⟨nonce, text, htext, List.mem_append_right _ hmem⟩

theorem Analysed.append {since : Int} {content : CanvasContent} {summaryMarkdown : JsString}
    (events : List Observed) (h : Analysed observed c since content summaryMarkdown) :
    Analysed (events ++ observed) c since content summaryMarkdown :=
  ⟨h.1.append events, List.mem_append_right _ h.2⟩

theorem ValuesOk.append {values : RunValues} (events : List Observed) (h : ValuesOk sha256 observed c values) :
    ValuesOk sha256 (events ++ observed) c values := by
  rcases h with ⟨since, content, summaryMarkdown, modelId, heq, hanalysed, requestId, hmem⟩ | ⟨message, heq, hmem⟩
  · exact Or.inl ⟨since, content, summaryMarkdown, modelId, heq, hanalysed.append events, requestId,
      List.mem_append_right _ hmem⟩
  · exact Or.inr ⟨message, heq, List.mem_append_right _ hmem⟩

theorem PhaseOk.append {pc : Pc} {events : List Observed} (h : PhaseOk sha256 observed c pc)
    (hevents : ∀ now event, .emitted c now event ∉ events) : PhaseOk sha256 (events ++ observed) c pc := by
  have hsilent (hold : ∀ now event, .emitted c now event ∉ observed) :
      ∀ now event, .emitted c now event ∉ events ++ observed := by
    intro now event hmem
    exact (List.mem_append.mp hmem).elim (hevents now event) (hold now event)
  cases pc with
  | idle => exact hsilent h
  | selecting now => exact hsilent h
  | completing since content => exact Prompted.append events h
  | recording since content summaryMarkdown modelId => exact Analysed.append events h
  | persisting values => exact ValuesOk.append events h
  | _ => trivial

/-- a call goes on, and the rows stay as they are -/
theorem Truthful.goto (h : Truthful sha256 s) {pc : Pc} {events : List Observed}
    (hevents : ∀ e ∈ events, (∀ k row, e ≠ .inserted k row) ∧ ∀ k now event, k ≠ c → e ≠ .emitted k now event)
    (heach : Each (EventOk sha256) (events ++ s.observed)) (hphase : PhaseOk sha256 (events ++ s.observed) c pc) :
    Truthful sha256 (s.goto c pc events) := by
  have hinserted {k : CallId} {row : ShadowingRun} (hmem : .inserted k row ∈ events ++ s.observed) :
      .inserted k row ∈ s.observed :=
    (List.mem_append.mp hmem).elim (fun hmem => absurd rfl ((hevents _ hmem).1 k row)) id
  refine ⟨fun row => ?_, ?_, heach, ?_⟩
  · rw [show (s.goto c pc events).rows = s.rows from rfl, h.rows row]
    exact ⟨fun ⟨k, hmem⟩ => ⟨k, List.mem_append_right _ hmem⟩, fun ⟨k, hmem⟩ => ⟨k, hinserted hmem⟩⟩
  · intro k row hmem
    exact (h.values k row (hinserted hmem)).append events
  · intro k
    show PhaseOk sha256 (events ++ s.observed) k (Function.update s.pc c pc k)
    by_cases hk : k = c
    · rw [hk, Function.update_self]
      exact hphase
    · rw [Function.update_of_ne hk]
      exact (h.phases k).append fun now event hmem => (hevents _ hmem).2 k now event hk rfl

/-- what a run lets out before it inserts its row -/
def Observed.OfRun : Observed → Prop
  | .inserted _ _ | .emitted _ _ _ => False
  | _ => True

theorem Truthful.gotoRun (h : Truthful sha256 s) {pc : Pc} {events : List Observed}
    (hevents : ∀ e ∈ events, e.OfRun) (hphase : PhaseOk sha256 (events ++ s.observed) c pc) :
    Truthful sha256 (s.goto c pc events) := by
  refine h.goto (fun e he => ⟨?_, ?_⟩) (Each.append (fun e he before => ?_) h.events) hphase
  · intro k row heq
    exact (heq ▸ hevents e he : Observed.OfRun (.inserted k row))
  · intro k now event _ heq
    exact (heq ▸ hevents e he : Observed.OfRun (.emitted k now event))
  · have hrun := hevents e he
    cases e with
    | inserted k row => exact hrun.elim
    | emitted k now event => exact hrun.elim
    | _ => trivial

theorem Truthful.quiet (h : Truthful sha256 s) {pc : Pc} (hphase : PhaseOk sha256 s.observed c pc) :
    Truthful sha256 (s.goto c pc []) :=
  h.gotoRun (fun _ he => absurd he List.not_mem_nil) hphase

/-- a run that throws keeps the message for its row -/
theorem Truthful.fails (h : Truthful sha256 s) {message : JsString} {events : List Observed}
    (hevents : ∀ e ∈ events, e.OfRun) : Truthful sha256 (s.fails c message events) := by
  refine h.gotoRun ?_ (Or.inr ⟨message, rfl, List.mem_cons_self⟩)
  exact List.forall_mem_cons.mpr ⟨trivial, hevents⟩

theorem truthful_onContents (h : Truthful sha256 s) (nonce : SessionNonce) (since : Int) (courses : List Nat)
    (announcements upcomingAssignments : Option (List Json.Value)) :
    Truthful sha256 (s.onContents c nonce since courses announcements upcomingAssignments) := by
  unfold Shadowing.onContents
  split
  next =>
    dsimp only
    split
    next text htext =>
      refine h.gotoRun (List.forall_mem_singleton.mpr trivial) ?_
      exact ⟨nonce, text, htext, List.mem_cons_self⟩
    next => exact h.fails fun _ he => absurd he List.not_mem_nil
  next => exact h.quiet trivial

theorem truthful_recorded (h : Truthful sha256 s) {requestId : JsString} {fate : Fate} {message : JsString}
    (hstep : s.onRecorded sha256 c requestId fate message = some t) : Truthful sha256 t := by
  unfold Shadowing.onRecorded at hstep
  split at hstep
  next since content summaryMarkdown modelId hpc =>
    have hphase := h.phases c
    rw [hpc] at hphase
    have hanalysed : Analysed s.observed c since content summaryMarkdown := hphase
    cases fate with
    | ok =>
      cases hstep
      refine h.gotoRun (List.forall_mem_singleton.mpr trivial) (Or.inl ?_)
      exact ⟨since, content, summaryMarkdown, modelId, rfl, hanalysed.append [_], requestId, List.mem_cons_self⟩
    | lost =>
      cases hstep
      exact h.fails fun _ he => absurd he List.not_mem_nil
    | applied =>
      cases hstep
      exact h.fails (List.forall_mem_singleton.mpr trivial)
  next => cases hstep

theorem truthful_persisted (h : Truthful sha256 s) {ranAt : Int} {fate : Fate}
    (hstep : s.onPersisted c ranAt fate = some t) : Truthful sha256 t := by
  unfold Shadowing.onPersisted at hstep
  split at hstep
  next values hpc =>
    have hvalues := h.phases c
    rw [hpc] at hvalues
    split at hstep
    next =>
      cases hstep
      let row : ShadowingRun := { values with ranAt := ranAt }
      refine ⟨fun other => ?_, fun k other hmem => ?_, ⟨trivial, h.events⟩, fun k => ?_⟩
      · show other ∈ row :: s.rows ↔ ∃ k, Observed.inserted k other ∈ Observed.inserted c row :: s.observed
        rw [List.mem_cons, h.rows other]
        constructor
        · rintro (rfl | ⟨k, hmem⟩)
          · exact ⟨c, List.mem_cons_self⟩
          · exact ⟨k, List.mem_cons_of_mem _ hmem⟩
        · rintro ⟨k, hmem⟩
          rcases List.mem_cons.mp hmem with heq | hmem
          · rw [Observed.inserted.injEq] at heq
            exact Or.inl heq.2
          · exact Or.inr ⟨k, hmem⟩
      · refine ValuesOk.append [Observed.inserted c row] ?_
        rcases List.mem_cons.mp hmem with heq | hmem
        · rw [Observed.inserted.injEq] at heq
          rw [heq.1, heq.2]
          exact hvalues
        · exact h.values k other hmem
      · show PhaseOk sha256 ([Observed.inserted c row] ++ s.observed) k (Function.update s.pc c .done k)
        by_cases hk : k = c
        · rw [hk, Function.update_self]
          trivial
        · rw [Function.update_of_ne hk]
          refine (h.phases k).append fun now event hmem => ?_
          exact Observed.noConfusion (List.mem_singleton.mp hmem)
    next =>
      cases hstep
      exact h.quiet trivial
  next => cases hstep

/-- what is said of the row that the `select` gives -/
theorem told_alertOf (h : Truthful sha256 s) {now : Int} {latest : Option ShadowingRun}
    (hlatest : IsLatest s.rows now latest) : Told sha256 s.observed now (alertOf latest) := by
  cases latest with
  | none =>
    intro k row hmem
    exact hlatest row ((h.rows row).mpr ⟨k, hmem⟩)
  | some row =>
    obtain ⟨hrow, hyoung, hnewest⟩ := hlatest
    obtain ⟨k, hmem⟩ := (h.rows row).mp hrow
    have hnewest : Newest s.observed now row :=
      ⟨hyoung, fun k other hother => hnewest other ((h.rows other).mpr ⟨k, hother⟩)⟩
    obtain ⟨values, ranAt⟩ := row
    have hvalues : ValuesOk sha256 s.observed k values := h.values k _ hmem
    rcases hvalues with ⟨since, content, summaryMarkdown, modelId, rfl, hanalysed, hrecorded⟩ | ⟨message, rfl, hthrew⟩
    · show Told sha256 s.observed now (if summaryMarkdown = lit "" then .failed (isoText ranAt) noSummary
        else .summary (isoText ranAt) summaryMarkdown)
      split
      next hempty =>
        rw [hempty] at hanalysed
        exact ⟨k, _, hmem, rfl, hnewest, Or.inr ⟨hanalysed.2, rfl⟩⟩
      next hsome => exact ⟨hsome, k, _, hmem, rfl, hnewest, since, content, hanalysed, hrecorded⟩
    · exact ⟨k, _, hmem, rfl, hnewest, Or.inl ⟨message, hthrew, rfl⟩⟩

theorem truthful_selected (h : Truthful sha256 s) {now : Int} {latest : Option ShadowingRun}
    (hpc : s.pc c = .selecting now) (hlatest : IsLatest s.rows now latest) :
    Truthful sha256 (s.goto c (.telling latest) [.emitted c now (alertOf latest)]) := by
  have hphase := h.phases c
  rw [hpc] at hphase
  refine h.goto (List.forall_mem_singleton.mpr ⟨fun k row heq => Observed.noConfusion heq, ?_⟩)
    ⟨⟨told_alertOf h hlatest, hphase⟩, h.events⟩ trivial
  intro k now' event hk heq
  rw [Observed.emitted.injEq] at heq
  exact hk heq.1.symm

theorem truthful_step {a : Action} (h : Truthful sha256 s) (hstep : s.step sha256 a = some t) : Truthful sha256 t := by
  cases a with
  | midnight c now =>
    simp only [Shadowing.step] at hstep
    split at hstep <;> cases hstep
    exact h.quiet trivial
  | gotCourses c courses =>
    simp only [Shadowing.step] at hstep
    split at hstep <;> cases hstep
    exact h.quiet trivial
  | gotAnnouncements c nonce announcements =>
    simp only [Shadowing.step] at hstep
    split at hstep <;> cases hstep
    exact truthful_onContents h nonce _ _ _ _
  | gotAssignments c nonce upcomingAssignments =>
    simp only [Shadowing.step] at hstep
    split at hstep <;> cases hstep
    exact truthful_onContents h nonce _ _ _ _
  | completed c summaryMarkdown modelId =>
    simp only [Shadowing.step] at hstep
    split at hstep <;> cases hstep
    next since content hpc =>
      have hphase := h.phases c
      rw [hpc] at hphase
      have hprompted : Prompted s.observed c since content := hphase
      exact h.gotoRun (List.forall_mem_singleton.mpr trivial) ⟨hprompted.append [_], List.mem_cons_self⟩
  | recorded c requestId fate message => exact truthful_recorded h hstep
  | threw c message =>
    have hfails : Truthful sha256 (s.fails c message []) := h.fails fun _ he => absurd he List.not_mem_nil
    simp only [Shadowing.step] at hstep
    split at hstep <;> cases hstep <;> exact hfails
  | persisted c ranAt fate => exact truthful_persisted h hstep
  | morning c now =>
    simp only [Shadowing.step] at hstep
    split at hstep <;> cases hstep
    next hpc =>
      have hphase := h.phases c
      rw [hpc] at hphase
      exact h.quiet hphase
  | selected c latest =>
    simp only [Shadowing.step] at hstep
    split at hstep
    next now hpc =>
      split at hstep <;> cases hstep
      next hlatest => exact truthful_selected h hpc hlatest
    next => cases hstep
  | unselected c =>
    simp only [Shadowing.step] at hstep
    split at hstep <;> cases hstep
    exact h.quiet trivial
  | audited c requestId fate =>
    simp only [Shadowing.step] at hstep
    split at hstep <;> cases hstep
    refine h.gotoRun (fun e he => ?_) trivial
    split at he
    · rw [List.mem_singleton.mp he]
      trivial
    · exact absurd he List.not_mem_nil

theorem Truthful.init : Truthful sha256 .init where
  rows _ := ⟨fun hmem => absurd hmem List.not_mem_nil, fun ⟨_, hmem⟩ => absurd hmem List.not_mem_nil⟩
  values _ _ hmem := absurd hmem List.not_mem_nil
  events := trivial
  phases _ _ _ := List.not_mem_nil

end

/-- In every run, an alert says what became of the newest analysis of the last twelve hours: a summary is the one
that the model gave for what it was shown, and was recorded; a failure is the one that was thrown; and nothing else is
said to be missing.  A call alerts once, and what its text begins with is never cut off. -/
theorem morning_alert_truthful (sha256 : JsString → JsString) {actions : List Action} {s : Shadowing}
    (hrun : run (Shadowing.step sha256) .init actions = some s) {later before : List Observed} {c : CallId} {now : Int}
    {event : MorningAlertEvent} (hobserved : s.observed = later ++ .emitted c now event :: before) :
    Told sha256 before now event ∧ (∀ now' event', .emitted c now' event' ∉ before) ∧
      (formatMorningAlert event).units.length ≤ telegramMaxMessageLength ∧
      (opening event).units <+: (formatMorningAlert event).units := by
  have hinv : Truthful sha256 s := run_inv (fun _ _ _ hs hstep => truthful_step hs hstep) actions _ s .init hrun
  obtain ⟨htold, honce⟩ := each_iff.mp hinv.events later _ before hobserved
  exact ⟨htold, honce, formatMorningAlert_length event, opening_kept event⟩

def nightNonce : SessionNonce := ⟨lit "0123456789abcdef", rfl⟩

/-- a run without courses that leaves a summary, another one that throws, and an alert between them -/
def night : List Action :=
  [.midnight 0 0, .midnight 1 0, .gotCourses 0 [], .gotAssignments 0 nightNonce [],
    .completed 0 (lit "Sin entregas.") (lit "gemini"), .recorded 0 (lit "r") .ok (lit ""), .persisted 0 60 .ok,
    .threw 1 (lit "Canvas: 503"), .morning 2 21600000,
    .selected 2 (some ⟨okRun ⟨[], [], []⟩ (lit "Sin entregas.") (lit "gemini"), 60⟩), .persisted 1 21600001 .ok]

theorem morning_alert_truthful_night : ∃ s before, run (Shadowing.step id) .init night = some s ∧
    s.observed = [.inserted 1 ⟨failedRun (lit "Canvas: 503"), 21600001⟩] ++
      .emitted 2 21600000 (.summary (isoText 60) (lit "Sin entregas.")) :: before ∧
    Told id before 21600000 (.summary (isoText 60) (lit "Sin entregas.")) :=
  ⟨_, _, rfl, rfl, (@morning_alert_truthful id night _ rfl _ _ 2 21600000 _ rfl).1⟩

end Canvas
