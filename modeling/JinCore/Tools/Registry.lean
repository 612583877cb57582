import JinCore.Hitl.Types
import JinCore.Lib.Table
import Mathlib.Data.List.Nodup

/-!
# The tool registry (`src/tools/registry.ts`)

* `ToolDefinition`      the fields of a tool that the policy, the timeouts and the flags read;
* `toolRegistry`        the tools in the order of the source;
* `getToolDefinition`   the tool of a name; `names_nodup`: there is only one.
-/

namespace Tools
open JsString Hitl

inductive IntegrationName where
  | canvas | google | mcp | telegram
  deriving DecidableEq, Repr

inductive TimeoutBehavior where
  | discard | escalate
  deriving DecidableEq, Repr

structure ToolDefinition where
  name : JsString
  hitlLevel : HitlLevel
  timeoutBehavior : Option TimeoutBehavior := none
  integration : Option IntegrationName := none
  guardedInSemiAuto : Bool := false
  humanDecision : Bool := false
  deriving DecidableEq, Repr

def toolRegistry : List ToolDefinition := [
  { name := lit "readEmails", integration := some .google, hitlLevel := .auto },
  { name := lit "createCalendarEvent", integration := some .google, hitlLevel := .notify },
  { name := lit "sendEmail", guardedInSemiAuto := true, integration := some .google,
    hitlLevel := .confirm, timeoutBehavior := some .discard },
  { name := lit "canvasListAssignments", integration := some .canvas, hitlLevel := .auto },
  { name := lit "canvasGetCourseContent", integration := some .canvas, hitlLevel := .auto },
  { name := lit "canvasScheduleStudyBlock", integration := some .canvas, hitlLevel := .notify },
  { name := lit "listCalendarEvents", integration := some .google, hitlLevel := .auto },
  { name := lit "updateCalendarEvent", integration := some .google, hitlLevel := .notify },
  { name := lit "deleteCalendarEventPast", integration := some .google, hitlLevel := .notify },
  { name := lit "deleteCalendarEventFuture", guardedInSemiAuto := true,
    integration := some .google, hitlLevel := .confirm, timeoutBehavior := some .discard },
  { name := lit "runCode", hitlLevel := .confirm, timeoutBehavior := some .discard },
  { name := lit "resolveAgentConflict", humanDecision := true, hitlLevel := .confirm,
    timeoutBehavior := some .discard },
  { name := lit "mergeAgentBranch", guardedInSemiAuto := true, hitlLevel := .confirm,
    timeoutBehavior := some .discard },
  { name := lit "startPreviewService", hitlLevel := .confirm, timeoutBehavior := some .discard },
  { name := lit "extendPreviewService", hitlLevel := .confirm },
  { name := lit "saveDemoToGithub", hitlLevel := .confirm, humanDecision := true,
    timeoutBehavior := some .discard },
  { name := lit "listGithubDemos", hitlLevel := .auto },
  { name := lit "stopPreviewService", hitlLevel := .notify },
  { name := lit "listPreviewServices", hitlLevel := .auto },
  { name := lit "indexEmailToCorpus", integration := some .google, hitlLevel := .auto },
  { name := lit "searchCorpus", hitlLevel := .auto },
  { name := lit "queryExternalDocs", hitlLevel := .auto }]

def getToolDefinition (name : JsString) : Option ToolDefinition :=
  toolRegistry.find? fun tool => tool.name = name

theorem names_nodup : (toolRegistry.map ToolDefinition.name).Nodup := by decide

theorem name_of_getToolDefinition {name : JsString} {tool : ToolDefinition}
    (h : getToolDefinition name = some tool) : tool.name = name := by
  simpa using List.find?_some h

/-- a registered tool is found by its name -/
theorem getToolDefinition_of_mem {tool : ToolDefinition} (h : tool ∈ toolRegistry) :
    getToolDefinition tool.name = some tool :=
  Table.find?_key names_nodup h

end Tools
