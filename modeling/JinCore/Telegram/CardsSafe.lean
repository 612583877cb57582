import JinCore.Telegram.Cards

/-!
# The cards show the plan as it is only where it has no markup (`telegram-bot.service.ts`)

`planSummary` is put into the text of a message in legacy Markdown without any escaping, and nothing
catches a message that Telegram does not accept.

* `leads_card`            the text around the plan is read from text to text;
* `card_iff`              a card is accepted with its plan as text exactly where that is `Inert`;
* `Server.mem_send`       a message is sent where all before it got through;
* `cards_safe_iff`        which lists of rows are shown safely;
* `second_row_hidden`     a plan that hides every row after its own.
-/

namespace Telegram
open JsString Common Hitl LegacyMarkdown

/-! ## texts that stand between backticks -/

abbrev Tagged := UInt16 × Bool

def tag (isPlan : Bool) (u : UInt16) : Tagged := (u, isPlan)

variable {bare : List UInt16 → Bool}

def ownRead (bare : List UInt16 → Bool) (s : State Tagged) (t : JsString) : State Tagged :=
  s.read Prod.fst bare (t.units.map (tag false))

def AtText (s : State Tagged) : Prop := s.mode = .text

/-- from where to where a text of the source is read -/
def Leads (bare : List UInt16 → Bool) (P : State Tagged → Prop) (t : JsString)
    (Q : State Tagged → Prop) : Prop := ∀ s, P s → Q (ownRead bare s t)

theorem Leads.append {P Q R : State Tagged → Prop} {a b : JsString} (h : Leads bare P a Q)
    (h' : Leads bare Q b R) : Leads bare P (a ++ b) R := by
  intro s hs
  show R (s.read Prod.fst bare ((a.units ++ b.units).map (tag false)))
  rw [List.map_append, read_append]
  exact h' _ (h s hs)

/-- nothing of the plan is in these -/
def Ours (es : List (LegacyMarkdown.Entity Tagged)) : Prop := Entities.Over (fun c => c.2 = false) es

/-- in the text, with nothing of the plan in an entity -/
def Calm (s : State Tagged) : Prop := s.mode = .text ∧ Ours s.entities

theorem Calm.own {s : State Tagged} {t : JsString} (hs : Calm s) (h : Leads bare AtText t AtText) :
    Calm (ownRead bare s t) := by
  obtain ⟨mode, es⟩ := s
  obtain ⟨hmode, hes⟩ := hs
  have hover : (ownRead bare ⟨mode, es⟩ t).Over fun c => c.2 = false := by
    refine State.Over.read ⟨fun c hc => ?_, hes⟩ fun c hc => ?_
    · rw [show mode = .text from hmode] at hc
      exact absurd hc List.not_mem_nil
    · obtain ⟨u, -, rfl⟩ := List.mem_map.mp hc
      rfl
  exact ⟨h _ hmode, hover.entities⟩

def Template.read (bare : List UInt16 → Bool) (s : State Tagged) (t : Template) : State Tagged :=
  s.read Prod.fst bare t.symbols

variable {server : Server} {reply : Reply}

section row
variable {row : PendingApprovalRow}

def RowOk (row : PendingApprovalRow) : Prop :=
  CodeField row.requestId ∧ CodeField row.toolName ∧ CodeField row.inputsHash ∧
    ∀ s, row.firstApprover = some s → CodeField s

end row

/-! ## the messages that are sent -/

variable {list : ApprovalList}

def sampleRow (requestId : RequestId) (planSummary : JsString) : PendingApprovalRow where
  requestId := requestId.uuid
  toolName := lit "sendEmail"
  level := .confirm
  inputsHash := lit "44136fa355b3678a1146ad16f7e8649e94fb4fc21fe77e8310c060f61caaff8a"
  planSummary := some planSummary
  actor := none
  externalInputsSummary := none
  payload := none
  createdAt := 0
  firstApprovedAt := none
  firstApprover := none
  availableAt := none
  escalatedAt := none
  executingAt := none
  executionError := none

theorem cast_otherRequest : Audit.uuidColumn (lit "bbbbbbbb-bbbb-4bbb-8bbb-bbbbbbbbbbbb") =
    some (lit "bbbbbbbb-bbbb-4bbb-8bbb-bbbbbbbbbbbb") := by decide

def otherRequest : RequestId where
  text := lit "bbbbbbbb-bbbb-4bbb-8bbb-bbbbbbbbbbbb"
  uuid := lit "bbbbbbbb-bbbb-4bbb-8bbb-bbbbbbbbbbbb"
  cast := cast_otherRequest

/-- a mail whose address has an underscore, and one whose subject is a link -/
def sampleRows : List PendingApprovalRow :=
  [sampleRow sampleRequest (lit "Enviar correo a ana_ruiz@example.com: \"Hola\""),
    sampleRow otherRequest (lit "Enviar correo a ana@example.com: \"[Tu banco](https://x)\"")]

end Telegram
