import JinCore.Hitl.Pending
import JinCore.Lib.LegacyMarkdown

/-!
# The cards of the pending approvals (`telegram-bot.service.ts`)

`handleTasksCommand` and `showTaskDetails`: the messages they make, with the part of each text that is
`planSummary` kept apart, and which of them are sent.

* `Template`, `Reply`   a message, its keyboard and its `parse_mode`;
* `header`, `card`, `details`   the messages about the rows;
* `Server`              what Telegram does with a message; `Server.accepts`, `Server.inert`;
* `Server.send`         the `await`s of a handler, up to the first that throws;
* `ApprovalList`        the rows that are read, with the texts that stand between backticks.
-/

namespace Telegram
open JsString Common Hitl

/-! ## messages -/

/-- a template literal, and which of its parts are `planSummary` -/
structure Part where
  isPlan : Bool
  text : JsString
  deriving DecidableEq, Repr

abbrev Template := List Part

def own (text : JsString) : Part := ⟨false, text⟩

def plan (text : JsString) : Part := ⟨true, text⟩

/-- the text, each code unit with what it belongs to -/
def Template.symbols (t : Template) : List (UInt16 × Bool) :=
  t.flatMap fun part => part.text.units.map fun u => (u, part.isPlan)

def Template.text (t : Template) : JsString := ⟨t.flatMap fun part => part.text.units⟩

inductive ParseMode where
  | markdown
  deriving DecidableEq, Repr

structure Button where
  text : JsString
  callbackData : JsString
  deriving DecidableEq, Repr

/-- the arguments of `ctx.reply` -/
structure Reply where
  text : Template
  parseMode : Option ParseMode := none
  /-- by rows -/
  keyboard : List (List Button) := []
  deriving DecidableEq, Repr

def approveButton (requestId : JsString) : Button := ⟨lit "✅ Aprobar", lit "approve:" ++ requestId⟩

def rejectButton (requestId : JsString) : Button := ⟨lit "❌ Rechazar", lit "reject:" ++ requestId⟩

def detailsButton (requestId : JsString) : Button := ⟨lit "🔍 Ver detalles", lit "details:" ++ requestId⟩

def levelText : PendingApprovalLevel → JsString
  | .confirm => lit "confirm"
  | .dualConfirm => lit "dual-confirm"

/-- `planSummary ?? fallback` -/
def planOr (fallback : JsString) : Option JsString → Part
  | some planSummary => plan planSummary
  | none => own fallback

def headerText (length : Nat) : JsString :=
  lit "📋 *Aprobaciones Pendientes (" ++ natText length ++ lit ")*:"

def header (length : Nat) : Reply where
  text := [own (headerText length)]
  parseMode := some .markdown

/-- the text of a card up to its plan -/
def cardText (item : PendingApprovalRow) : JsString :=
  lit "📌 *Solicitud*: `" ++ item.requestId
    ++ lit "`\n- *Herramienta*: `" ++ item.toolName
    ++ lit "`\n- *Nivel HITL*: `" ++ levelText item.level
    ++ lit "`\n- *Plan*: "

def card (item : PendingApprovalRow) : Reply where
  text := [own (cardText item), planOr (lit "Sin resumen") item.planSummary]
  parseMode := some .markdown
  keyboard := [[approveButton item.requestId, rejectButton item.requestId],
    [detailsButton item.requestId]]

/-- the line of the first approval; `${null}` is the text `null` -/
def firstApproval (pending : PendingApprovalRow) : JsString :=
  match pending.firstApprovedAt with
  | some at_ => lit "- *1ª Aprobación*: `" ++ isoText at_ ++ lit "` por `"
      ++ pending.firstApprover.getD (lit "null") ++ lit "`\n"
  | none => ⟨[]⟩

def notFound (requestId : JsString) : Reply where
  text := [own (lit "❌ No se encontró la tarea `" ++ requestId ++ lit "`.")]
  parseMode := some .markdown

/-! ## sending -/

/-- what Telegram decides -/
structure Server where
  /-- a label in brackets without a target is a link by itself -/
  bare : List UInt16 → Bool
  /-- the `n`-th message of a handler gets through, if its text is accepted -/
  answers : Nat → Bool

def Server.accepts (server : Server) (reply : Reply) : Bool :=
  match reply.parseMode with
  | some .markdown => (LegacyMarkdown.parse id server.bare reply.text.text.units).isSome
  | none => true

/-- the messages given to Telegram: an `await` that throws is the end of the handler -/
def Server.send (server : Server) : Nat → List Reply → List Reply
  | _, [] => []
  | n, reply :: rest =>
    reply :: if server.accepts reply && server.answers n then server.send (n + 1) rest else []

/-- a text that can stand between backticks -/
def CodeField (s : JsString) : Prop := s.units ≠ [] ∧ LegacyMarkdown.backtick ∉ s.units

end Telegram
