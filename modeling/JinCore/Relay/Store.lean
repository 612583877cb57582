import JinCore.Js.Text
import JinCore.Lib.Table

/-!
# The bridge between Claude and the owner (`relay.store.ts`, `relay-bot.service.ts`)

A press of a button has a handler of its own; the handlers run beside each other, and each statement
is one step.

* `buildCallbackData`, `parseCallbackData`   what a button carries; `parse_build`;
* `RelayMessage`     a row of `relay_messages`;
* `Phase`            where a handler stands;
* `Bridge`           the rows, the handlers, and the rows that presses have inserted;
* `Bridge.step`      one statement of one handler, or a row from elsewhere.
-/

namespace Relay
open JsString

abbrev MessageId := JsString

abbrev HandlerId := Nat

inductive Direction where
  | outbound | inbound
  deriving DecidableEq, Repr

structure RelayMessage where
  id : MessageId
  direction : Direction
  body : JsString
  options : Option (List JsString)
  answerTo : Option MessageId
  createdAt : Int
  deriving DecidableEq, Repr

abbrev Messages := Table RelayMessage.id

/-! ## the data of a button (`relay.types.ts`) -/

def maxOptions : Nat := 10

def callbackPrefix : JsString := lit "q"

def colon : UInt16 := 58

structure Callback where
  questionId : MessageId
  index : Nat
  deriving DecidableEq, Repr

def buildCallbackData (questionId : MessageId) (index : Nat) : JsString :=
  callbackPrefix ++ lit ":" ++ questionId ++ lit ":" ++ lit (toString index)

/-- `number` is the value that `Number` gives a text, where it is an integer -/
def parseCallbackData (number : JsString → Option Int) (data : JsString) : Option Callback :=
  match data.units.splitOn colon with
  | [start, questionId, index] =>
    if start ≠ callbackPrefix.units then none
    else if questionId.length = 0 then none
    else match number ⟨index⟩ with
      | none => none
      | some index =>
        if index < 0 ∨ (maxOptions : Int) ≤ index then none else some ⟨⟨questionId⟩, index.toNat⟩
  | _ => none

theorem colon_not_mem_index {index : Nat} (h : index < maxOptions) :
    colon ∉ (lit (toString index)).units := by
  have hall : ∀ i < maxOptions, colon ∉ (lit (toString i)).units := by decide
  exact hall index h

/-- a button is read as it was built -/
theorem parse_build {number : JsString → Option Int} {questionId : MessageId} {index : Nat}
    (hindex : index < maxOptions) (hnumber : number (lit (toString index)) = some (index : Int))
    (hne : questionId.units ≠ []) (hcolon : colon ∉ questionId.units) :
    parseCallbackData number (buildCallbackData questionId index) = some ⟨questionId, index⟩ := by
  have hparts : (buildCallbackData questionId index).units
      = [colon].intercalate [callbackPrefix.units, questionId.units, (lit (toString index)).units] := by
    show ((([113] ++ [58]) ++ questionId.units) ++ [58]) ++ (lit (toString index)).units = _
    simp [List.intercalate, colon, callbackPrefix, lit, ofChars, encode]
  have hsplit : (buildCallbackData questionId index).units.splitOn colon
      = [callbackPrefix.units, questionId.units, (lit (toString index)).units] := by
    rw [hparts]
    refine List.splitOn_intercalate colon (fun part hpart => ?_) (List.cons_ne_nil _ _)
    rcases List.mem_cons.mp hpart with rfl | hpart
    · decide
    rcases List.mem_cons.mp hpart with rfl | hpart
    · exact hcolon
    · rw [List.mem_singleton.mp hpart]
      exact colon_not_mem_index hindex
  have hlength : questionId.units.length ≠ 0 := fun h => hne (List.length_eq_zero_iff.mp h)
  rw [parseCallbackData, hsplit]
  show (if callbackPrefix.units ≠ callbackPrefix.units then none else _) = _
  rw [if_neg (not_not_intro rfl), if_neg hlength]
  show (match number (lit (toString index)) with | none => none | some index => _) = _
  rw [hnumber]
  show (if (index : Int) < 0 ∨ (maxOptions : Int) ≤ index then none else _) = _
  rw [if_neg (by omega)]
  rfl

/-! ## the handlers -/

/-- what the owner reads after a press -/
inductive Notice where
  | unrecognised
  | gone
  | already (body : JsString)
  | sent (chosen : JsString)
  deriving DecidableEq, Repr

def Notice.text : Notice → JsString
  | .unrecognised => lit "Opción no reconocida."
  | .gone => lit "Esa pregunta ya no existe."
  | .already body => lit "Ya respondiste: " ++ body
  | .sent chosen => lit "Enviado: " ++ chosen

inductive Phase where
  | idle
  /-- before `store.findOutbound` -/
  | findingOutbound (callback : Callback)
  /-- before `store.findAnswer` -/
  | findingAnswer (questionId : MessageId) (chosen : JsString)
  /-- before `store.insertInbound` -/
  | inserting (questionId : MessageId) (chosen : JsString)
  /-- before `ctx.answerCallbackQuery` -/
  | answering (notice : Notice)
  | returned (notice : Notice)
  | threw
  deriving DecidableEq, Repr

structure Bridge where
  messages : Messages
  handlers : HandlerId → Phase
  /-- the question that a handler's button was an option of, when it was pressed -/
  buttons : HandlerId → Option MessageId
  /-- the rows that presses have inserted -/
  pressed : List (HandlerId × MessageId)

inductive Action where
  | insertOutbound (id : MessageId) (body : JsString) (options : Option (List JsString)) (now : Int)
  /-- a text of the owner, or a reply on the dashboard -/
  | insertInbound (id : MessageId) (body : JsString) (answerTo : Option MessageId) (now : Int)
  | press (h : HandlerId) (data : JsString)
  | findOutbound (h : HandlerId)
  /-- the answer that is found: one of the newest, or none if there is none -/
  | findAnswer (h : HandlerId) (answer : Option MessageId)
  /-- the row is inserted; `heard` is false if the answer of the database is lost -/
  | insert (h : HandlerId) (id : MessageId) (heard : Bool) (now : Int)
  | answerCallbackQuery (h : HandlerId)
  /-- a call that a handler waits for throws, without an effect -/
  | throws (h : HandlerId)

namespace Bridge

def set (s : Bridge) (h : HandlerId) (phase : Phase) : Bridge :=
  { s with handlers := fun k => if k = h then phase else s.handlers k }

def findOutbound (s : Bridge) (id : MessageId) : Option RelayMessage :=
  (s.messages.get id).filter fun row => row.direction = .outbound

/-- `question?.options?.[index]` -/
def optionAt (s : Bridge) (callback : Callback) : Option JsString :=
  (s.findOutbound callback.questionId).bind fun question =>
    question.options.bind fun options => options[callback.index]?

def Answers (row : RelayMessage) (questionId : MessageId) : Prop :=
  row.direction = .inbound ∧ row.answerTo = some questionId

instance (row : RelayMessage) (questionId : MessageId) : Decidable (Answers row questionId) :=
  inferInstanceAs (Decidable (_ ∧ _))

/-- `findAnswer`: `limit(1)` of the answers, newest first -/
def findAnswer (s : Bridge) (questionId : MessageId) : Option MessageId → Option (Option RelayMessage)
  | none => if s.messages.rows.all fun row => ¬ Answers row questionId then some none else none
  | some id =>
    match s.messages.get id with
    | some row =>
      if Answers row questionId ∧ s.messages.rows.all fun other =>
          Answers other questionId → other.createdAt ≤ row.createdAt then some (some row)
      else none
    | none => none

def insertRow (s : Bridge) (row : RelayMessage) : Option Bridge :=
  (s.messages.insert row).map fun messages => { s with messages := messages }

def inboundRow (id : MessageId) (body : JsString) (answerTo : Option MessageId) (now : Int) :
    RelayMessage := ⟨id, .inbound, body, none, answerTo, now⟩

def onPress (s : Bridge) (h : HandlerId) : Option Callback → Bridge
  | none => s.set h (.answering .unrecognised)
  | some callback =>
    { s with buttons := fun k =>
        if k = h then (s.optionAt callback).map fun _ => callback.questionId else s.buttons k }.set h
      (.findingOutbound callback)

def afterOutbound (questionId : MessageId) : Option JsString → Phase
  | none => .answering .gone
  | some chosen => .findingAnswer questionId chosen

def afterAnswer (questionId : MessageId) (chosen : JsString) : Option RelayMessage → Phase
  | none => .inserting questionId chosen
  | some existing => .answering (.already existing.body)

def step (number : JsString → Option Int) (s : Bridge) : Action → Option Bridge
  | .insertOutbound id body options now => s.insertRow ⟨id, .outbound, body, options, none, now⟩
  | .insertInbound id body answerTo now => s.insertRow (inboundRow id body answerTo now)
  | .press h data =>
    match s.handlers h with
    | .idle => some (s.onPress h (parseCallbackData number data))
    | _ => none
  | .findOutbound h =>
    match s.handlers h with
    | .findingOutbound callback =>
      some (s.set h (afterOutbound callback.questionId (s.optionAt callback)))
    | _ => none
  | .findAnswer h answer =>
    match s.handlers h with
    | .findingAnswer questionId chosen =>
      (s.findAnswer questionId answer).map fun existing =>
        s.set h (afterAnswer questionId chosen existing)
    | _ => none
  | .insert h id heard now =>
    match s.handlers h with
    | .inserting questionId chosen =>
      (s.insertRow (inboundRow id chosen (some questionId) now)).map fun s =>
        { s with pressed := (h, id) :: s.pressed }.set h
          (if heard then .answering (.sent chosen) else .threw)
    | _ => none
  | .answerCallbackQuery h =>
    match s.handlers h with
    | .answering notice => some (s.set h (.returned notice))
    | _ => none
  | .throws h =>
    match s.handlers h with
    | .idle | .returned _ | .threw => none
    | _ => some (s.set h .threw)

def empty : Bridge where
  messages := .empty RelayMessage.id
  handlers := fun _ => .idle
  buttons := fun _ => none
  pressed := []

end Bridge

end Relay
