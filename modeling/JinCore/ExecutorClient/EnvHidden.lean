import JinCore.ExecutorClient.EnvSame
import JinCore.ExecutorClient.EnvGiven

/-!
# Environment values never leave memory

* `SentAsGiven`      the requests have the values that were given for their ids;
* `given_run`, `read_of_same`   a run, and the inputs of the other run;
* `env_hidden`       the two runs; `env_hidden_demo`.
-/

namespace ExecutorClient.OwnerPublish
open JsString Common Hitl Audit Runs

/-! ## two runs -/

/-- every request has the values that `publish` was given for its id, and no others -/
def SentAsGiven (s : Demos) : Prop :=
  ∀ r request, .startPreviewService r request ∈ s.observed → request.env = s.given r

section
variable {parseJson : JsString → Option JsonValue} {stringify : PreviewServiceToolInput → JsString}
  {readPayload : Option JsString → Except JsString PreviewServiceToolInput} {sha256 : JsString → JsString}
  {ls ls' : List Action} {s : Demos}

theorem given_run (hread : ∀ id p, .publish id p ∈ ls → PublishInput.Read stringify readPayload p)
    (h : run (Demos.step parseJson stringify readPayload sha256) Demos.init ls = some s) :
    Given stringify readPayload s := by
  refine run_inv_guarded (G := fun _ a => ∀ id p, a = Action.publish id p →
    PublishInput.Read stringify readPayload p) ?_ ls Demos.init s given_init ?_ h
  · exact fun s a t hs hG hstep => given_step hs hG hstep
  · exact guarded_of_forall ls _ fun a ha id p hap => hread id p (hap ▸ ha)

/-- the inputs of the other run are read back as well -/
theorem read_of_same (hsame : List.Forall₂ SameAction ls ls')
    (hread : ∀ id p, .publish id p ∈ ls → PublishInput.Read stringify readPayload p) :
    ∀ id p, .publish id p ∈ ls' → PublishInput.Read stringify readPayload p := by
  induction hsame with
  | nil => exact fun _ _ hmem => absurd hmem List.not_mem_nil
  | cons hab _ ih =>
    intro id p hmem
    rcases List.mem_cons.mp hmem with hp | hmem
    · cases hab with
      | same => exact hread id p (hp ▸ List.mem_cons_self)
      | @publish i rest env env' hnames hok hok' =>
        cases hp
        have hinput : SameInput ⟨rest, some env⟩ ⟨rest, some env'⟩ := ⟨rfl, hnames⟩
        intro hne
        obtain ⟨input, hpayload, henvNames⟩ := hread id ⟨rest, some env⟩ List.mem_cons_self
          fun hnil => hne ((sameNames_nil hinput.2).mp hnil)
        refine ⟨input, ?_, henvNames.trans (congrArg some hnames)⟩
        rw [← hinput.toolInput]
        exact hpayload
    · exact ih (fun id p hp => hread id p (List.mem_cons_of_mem _ hp)) id p hmem

end

/-- **Environment values never leave memory.** Of two runs that differ in accepted values only, the
rows, audits, events, outcomes and requests differ in the values of the requests only, and these are the
values that `publish` was given for the id. -/
theorem env_hidden (parseJson : JsString → Option JsonValue) (stringify : PreviewServiceToolInput → JsString)
    (readPayload : Option JsString → Except JsString PreviewServiceToolInput) (sha256 : JsString → JsString)
    (ls ls' : List Action) (s : Demos) (hsame : List.Forall₂ SameAction ls ls')
    (hread : ∀ id p, .publish id p ∈ ls → PublishInput.Read stringify readPayload p)
    (h : run (Demos.step parseJson stringify readPayload sha256) Demos.init ls = some s) :
    ∃ s', run (Demos.step parseJson stringify readPayload sha256) Demos.init ls' = some s' ∧
      Hidden s s' ∧ SentAsGiven s ∧ SentAsGiven s' := by
  obtain ⟨s', h', hhidden⟩ := run_related (R := Hidden) (L := SameAction)
    (fun _ _ _ _ _ hs ha hstep => hidden_step hs ha hstep) hsame hidden_init h
  refine ⟨s', h', hhidden, ?_, ?_⟩
  · exact fun r request hmem => ((given_run hread h).observed r request hmem).1
  · exact fun r request hmem => ((given_run (read_of_same hsame hread) h').observed r request hmem).1

/-! ## a demo with a key, approved and started -/

def demoInput : PreviewServiceToolInput where
  files := [(lit "index.html", lit "hola")]
  template := some (lit "static")
  command := none
  port := none
  ttlSeconds := 3600
  slugHint := none
  mailEgress := none
  db := none
  secrets := none
  envNames := none

def demoJson : JsString :=
  lit "\x7b\"files\":\x7b\"index.html\":\"hola\"\x7d,\"template\":\"static\","
    ++ lit "\"ttlSeconds\":3600,\"envNames\":[\"API_KEY\"]\x7d"

def demoHash : JsString := lit "d1f17ee0ba541c6a48c10ce3de437284c93c62e1ef2ae6a8ae979de3c2c64121"

def demoPayload : PreviewServiceToolInput := { demoInput with envNames := some [lit "API_KEY"] }

def demoStep : Demos → Action → Option Demos :=
  Demos.step (fun _ => none) (fun _ => demoJson) (fun _ => .ok demoPayload) fun _ => demoHash

def demoRun (value : JsString) : List Action :=
  let ok (id : CallId) (now : Int) : Action := .call (.go id ⟨now, .ok, lit "informe"⟩)
  [.publish 0 ⟨demoInput, some [(lit "API_KEY", value)]⟩,
    .decided 0 sampleRequest ⟨sampleRequest.text, startPreviewServiceTool, .confirm, 1, false, none⟩ 0,
    ok 0 1, ok 0 2, .settle 0, .call (.begin 1 (.resolveAndExecute sampleRequest (lit "owner"))),
    ok 1 3, ok 1 4, ok 1 5, ok 1 6, ok 1 7, ok 1 8, ok 1 9]

def requestedEnv : Observed → Option (Option Env)
  | .startPreviewService _ request => some request.env
  | _ => none

theorem env_hidden_demo :
    ∃ s s', run demoStep Demos.init (demoRun (lit "uno")) = some s ∧
      run demoStep Demos.init (demoRun (lit "dos")) = some s' ∧
      Hidden s s' ∧ SentAsGiven s ∧ SentAsGiven s' ∧
      s.observed.filterMap requestedEnv = [some [(lit "API_KEY", lit "uno")]] ∧
      s'.observed.filterMap requestedEnv = [some [(lit "API_KEY", lit "dos")]] := by
  have hrequested : ∀ {value s}, run demoStep Demos.init (demoRun value) = some s →
      (run demoStep Demos.init (demoRun value)).map (fun s => s.observed.filterMap requestedEnv)
        = some [some [(lit "API_KEY", value)]] →
      s.observed.filterMap requestedEnv = [some [(lit "API_KEY", value)]] := by
    intro value s hs hmap
    rw [hs, Option.map_some, Option.some.injEq] at hmap
    exact hmap
  obtain ⟨s, hs⟩ := Option.isSome_iff_exists.mp
    (show (run demoStep Demos.init (demoRun (lit "uno"))).isSome = true by decide +kernel)
  have hsame : List.Forall₂ SameAction (demoRun (lit "uno")) (demoRun (lit "dos")) := by
    refine .cons (.publish 0 demoInput rfl (by decide) (by decide)) ?_
    exact List.forall₂_same.mpr fun a _ => .same a
  have hread : ∀ id p, .publish id p ∈ demoRun (lit "uno") →
      PublishInput.Read (fun _ => demoJson) (fun _ => .ok demoPayload) p := by
    intro id p hmem _
    have hp : Action.publish id p = .publish 0 ⟨demoInput, some [(lit "API_KEY", lit "uno")]⟩ := by
      rcases List.mem_cons.mp hmem with hp | hmem
      · exact hp
      · simp at hmem
    cases hp
    exact ⟨demoPayload, rfl, rfl⟩
  obtain ⟨s', hs', hhidden, hsent, hsent'⟩ := env_hidden (fun _ => none) (fun _ => demoJson)
    (fun _ => .ok demoPayload) (fun _ => demoHash) _ _ s hsame hread hs
  refine ⟨s, s', hs, hs', hhidden, hsent, hsent', hrequested hs ?_, hrequested hs' ?_⟩
  · decide +kernel
  · decide +kernel

end ExecutorClient.OwnerPublish
