import JinCore.Js.Text

/-!
# Messages and calls of a model (`src/model-provider/model-provider.types.ts`)

* `JsValue`                    an `unknown` value as `typeof` and `JSON.stringify` read it;
* `ModelToolCall`              a tool call of the model;
* `ModelMessage`               a message: a text, or blocks;
* `ModelCompletionResponse`    what a call of the model returns.
-/

namespace ModelProvider

/-- a string, another value with its JSON text, `undefined`, or a value on which `JSON.stringify`
throws (a cycle, a `BigInt`) -/
inductive JsValue where
  | string (s : JsString)
  | json (text : JsString)
  | undefined
  | unserializable (message : JsString)
  deriving DecidableEq, Repr

inductive ModelStopReason where
  | endTurn | toolUse | maxTokens | refusal
  deriving DecidableEq, Repr

structure ModelToolDeclaration where
  name : JsString
  deriving DecidableEq, Repr

/-- `input` is the JSON text of the input -/
structure ModelToolCall where
  id : JsString
  name : JsString
  input : JsString
  deriving DecidableEq, Repr

inductive ModelMessageContentBlock where
  | text (text : JsString)
  | toolUse (toolCall : ModelToolCall)
  | toolResult (toolCallId : JsString) (output : JsValue) (isError : Bool)
  deriving DecidableEq, Repr

inductive Role where
  | user | assistant
  deriving DecidableEq, Repr

inductive Content where
  | text (text : JsString)
  | blocks (blocks : List ModelMessageContentBlock)
  deriving DecidableEq, Repr

structure ModelMessage where
  role : Role
  content : Content
  deriving DecidableEq, Repr

structure ModelCompletionResponse where
  content : JsString
  modelId : JsString
  toolCalls : List ModelToolCall
  stopReason : ModelStopReason
  deriving DecidableEq, Repr

def Content.toBlocks : Content → List ModelMessageContentBlock
  | .text _ => []
  | .blocks bs => bs

end ModelProvider
