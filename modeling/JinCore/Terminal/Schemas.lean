import JinCore.Js.Jsonb
import JinCore.Js.Path
import JinCore.Js.Zod
import JinCore.Terminal.OwnerTerminal
import JinCore.Terminal.PreviewTarget

/-!
# What the API takes for an approval, and what its executor reads back (`terminal.schemas.ts`)

The body of a request is checked, kept in a `jsonb` column with the id of the project, and checked again when the
approval is executed.

* `startTerminalSchema`, `exposeTerminalSchema`   the body;
* `readStart`, `readExpose`   the payload as it is read back and checked again;
* `StartsAs`                  the same input, its files in any order;
* `readStart_payload`, `readExpose_payload`   what was accepted is read back;
* `normalize_safePath`        an accepted path stays in its directory.
-/

namespace OwnerTerminal
open JsString Json PosixPath Preview Zod

/-! ## the schemas -/

def terminalMaxFiles : Nat := 50
def terminalMaxTotalBytes : Nat := 256 * 1024

/-- `SafePath` -/
def isSafePath (path : JsString) : Bool :=
  decide (1 ≤ path.units.length ∧ path.units.length ≤ 200) && !isAbsolute path.units &&
    !(path.units.splitOn slash).contains dotDot

def fileOf (m : JsString × Value) : Option (JsString × JsString) :=
  if isSafePath m.1 then (stringSchema (fun _ => true) m.2).map (m.1, ·) else none

/-- a string that is assigned to `__proto__` leaves no property -/
def filesOf (members : List (JsString × Value)) : Option Files :=
  (members.filter fun m => m.1 ≠ lit "__proto__").mapM fileOf

def totalBytes (files : Files) : Nat := (files.map fun file => file.1.utf8.length + file.2.utf8.length).sum

def terminalFilesSchema : Value → Option Files
  | .object members =>
    (filesOf members).filter fun files => files.length ≤ terminalMaxFiles ∧ totalBytes files ≤ terminalMaxTotalBytes
  | _ => none

/-- whole seconds, from five minutes to four hours -/
def ttlSchema : Value → Option Nat
  | .number (.finite q) => if q.den = 1 ∧ 300 ≤ q.num ∧ q.num ≤ 4 * 60 * 60 then some q.num.toNat else none
  | _ => none

def safePathSchema : Value → Option JsString := stringSchema isSafePath

def isSlugHint (slugHint : JsString) : Bool := 1 ≤ slugHint.units.length && slugHint.units.length ≤ 40

def slugHintSchema : Value → Option JsString := stringSchema isSlugHint

def startKeys : List JsString := [lit "files", lit "ttlSeconds", lit "claudeCode"]

def startFields (members : List (JsString × Value)) : Option StartTerminalInput := do
  let files ← orDefault terminalFilesSchema [] (members.lookup (lit "files"))
  let ttlSeconds ← (members.lookup (lit "ttlSeconds")).bind ttlSchema
  let claudeCode ← optional boolSchema (members.lookup (lit "claudeCode"))
  pure ⟨files, ttlSeconds, claudeCode⟩

def startTerminalSchema : Value → Option StartTerminalInput
  | .object members => if isStrict startKeys members then startFields members else none
  | _ => none

def exposeKeys : List JsString := [lit "dir", lit "slugHint"]

def exposeFields (members : List (JsString × Value)) : Option ExposeTerminalInput := do
  let dir ← orDefault safePathSchema (lit "dist") (members.lookup (lit "dir"))
  let slugHint ← optional slugHintSchema (members.lookup (lit "slugHint"))
  pure ⟨dir, slugHint⟩

def exposeTerminalSchema : Value → Option ExposeTerminalInput
  | .object members => if isStrict exposeKeys members then exposeFields members else none
  | _ => none

section
variable (casing : CaseMapping)

def workspaceIdSchema : Value → Option WorkspaceId
  | .string raw => (workspaceIdOrFail casing raw).toOption
  | _ => none

/-- a schema with the id of the project -/
def withWorkspaceId {α : Type} (keys : List JsString) (fields : List (JsString × Value) → Option α) :
    Value → Option (WorkspaceId × α)
  | .object members =>
    if isStrict (lit "workspaceId" :: keys) members then do
      let input ← fields members
      let workspaceId ← (members.lookup (lit "workspaceId")).bind (workspaceIdSchema casing)
      pure (workspaceId, input)
    else none
  | _ => none

def startTerminalApprovedPayloadSchema : Value → Option (WorkspaceId × StartTerminalInput) :=
  withWorkspaceId casing startKeys startFields

def exposeApprovedPayloadSchema : Value → Option (WorkspaceId × ExposeTerminalInput) :=
  withWorkspaceId casing exposeKeys exposeFields

/-! ## what is read back -/

/-- what the column gives back of a payload -/
def payloadColumn (payload : JsString) : Option Value := (parse payload).bind Value.stored

-- the message of a `ZodError`
variable (zodError : JsString)

def readPayload {α : Type} (schema : Value → Option α) (payload : Option JsString) : Except JsString α :=
  match (payload.bind payloadColumn).bind schema with
  | some input => .ok input
  | none => .error zodError

def readStart : Option JsString → Except JsString (WorkspaceId × StartTerminalInput) :=
  readPayload zodError (startTerminalApprovedPayloadSchema casing)

def readExpose : Option JsString → Except JsString (WorkspaceId × ExposeTerminalInput) :=
  readPayload zodError (exposeApprovedPayloadSchema casing)

/-- the controller has taken the id and the body of a request -/
def Accepted (workspaceId : WorkspaceId) (request : ApprovalRequest) : Prop :=
  (∃ raw, workspaceIdOrFail casing raw = .ok workspaceId) ∧ ∃ body : Value, body.Sound ∧
    match request with
    | .start input => startTerminalSchema body = some input
    | .expose input => exposeTerminalSchema body = some input

end

/-- the same input, its files in any order -/
structure StartsAs (asked input : StartTerminalInput) : Prop where
  files : input.files.Perm asked.files
  ttlSeconds : input.ttlSeconds = asked.ttlSeconds
  claudeCode : input.claudeCode = asked.claudeCode

/-! ## what the schemas say of an input -/

def fileMember (file : JsString × JsString) : JsString × Value := (file.1, .string file.2)

structure FilesOk (files : Files) : Prop where
  safe : ∀ file ∈ files, isSafePath file.1 = true ∧ file.1 ≠ lit "__proto__"
  order : InOrder (files.map fileMember)
  count : files.length ≤ terminalMaxFiles
  bytes : totalBytes files ≤ terminalMaxTotalBytes

theorem fileOf_eq_some {m : JsString × Value} {file : JsString × JsString} :
    fileOf m = some file ↔ m = fileMember file ∧ isSafePath file.1 = true := by
  unfold fileOf
  rw [Option.ite_none_right_eq_some, Option.map_eq_some_iff]
  constructor
  · rintro ⟨hsafe, text, htext, rfl⟩
    exact ⟨Prod.ext rfl (stringSchema_eq_some.mp htext).1, hsafe⟩
  · rintro ⟨rfl, hsafe⟩
    exact ⟨hsafe, file.2, stringSchema_eq_some.mpr ⟨rfl, rfl⟩, rfl⟩

theorem mapM_fileOf {members : List (JsString × Value)} {files : Files} :
    members.mapM fileOf = some files ↔
      members = files.map fileMember ∧ ∀ file ∈ files, isSafePath file.1 = true := by
  induction members generalizing files with
  | nil =>
    constructor
    · intro h
      cases h
      exact ⟨rfl, fun _ hmem => absurd hmem List.not_mem_nil⟩
    · rintro ⟨h, -⟩
      rw [List.map_eq_nil_iff.mp h.symm]
      rfl
  | cons m members ih =>
    rw [List.mapM_cons]
    constructor
    · intro h
      obtain ⟨file, hfile, h⟩ := Option.bind_eq_some_iff.mp h
      obtain ⟨rest, hrest, h⟩ := Option.bind_eq_some_iff.mp h
      cases h
      obtain ⟨rfl, hsafe⟩ := fileOf_eq_some.mp hfile
      obtain ⟨rfl, hall⟩ := ih.mp hrest
      exact ⟨rfl, List.forall_mem_cons.mpr ⟨hsafe, hall⟩⟩
    · rintro ⟨h, hall⟩
      cases files with
      | nil => cases h
      | cons file files =>
        rw [List.map_cons, List.cons.injEq] at h
        rw [List.forall_mem_cons] at hall
        rw [fileOf_eq_some.mpr ⟨h.1, hall.1⟩, ih.mpr ⟨h.2, hall.2⟩]
        rfl

/-- what the schema takes from an object that JSON can give -/
theorem filesOk_schema {v : Value} {files : Files} (hsound : v.Sound) (h : terminalFilesSchema v = some files) :
    FilesOk files := by
  cases v with
  | object members =>
    obtain ⟨hfiles, hlimits⟩ := Option.filter_eq_some_iff.mp h
    obtain ⟨hmembers, hsafe⟩ := mapM_fileOf.mp hfiles
    obtain ⟨hcount, hbytes⟩ := of_decide_eq_true hlimits
    refine ⟨fun file hfile => ⟨hsafe file hfile, ?_⟩, ?_, hcount, hbytes⟩
    · have hmem : fileMember file ∈ members.filter fun m => m.1 ≠ lit "__proto__" := by
        rw [hmembers]
        exact List.mem_map_of_mem hfile
      exact of_decide_eq_true (List.mem_filter.mp hmem).2
    · rw [← hmembers]
      exact hsound.1.sublist List.filter_sublist
  | _ => cases h

/-- and what it gives for files that it has taken, in any order of properties -/
theorem schema_filesOk {files : Files} (h : FilesOk files) :
    terminalFilesSchema (.object (files.map fileMember)) = some files := by
  have hfilter : (files.map fileMember).filter (fun m => m.1 ≠ lit "__proto__") = files.map fileMember := by
    refine List.filter_eq_self.mpr fun m hm => ?_
    obtain ⟨file, hfile, rfl⟩ := List.mem_map.mp hm
    exact decide_eq_true (h.safe file hfile).2
  refine Option.filter_eq_some_iff.mpr ⟨?_, decide_eq_true ⟨h.count, h.bytes⟩⟩
  unfold filesOf
  rw [hfilter]
  exact mapM_fileOf.mpr ⟨rfl, fun file hfile => (h.safe file hfile).1⟩

theorem FilesOk.perm {files files' : Files} (h : FilesOk files) (hperm : files'.Perm files)
    (horder : InOrder (files'.map fileMember)) : FilesOk files' where
  safe file hfile := h.safe file (hperm.mem_iff.mp hfile)
  order := horder
  count := hperm.length_eq.trans_le h.count
  bytes := (hperm.map _).sum_eq.trans_le h.bytes

theorem ttlSchema_eq_some {v : Value} {n : Nat} :
    ttlSchema v = some n ↔ v = portValue n ∧ 300 ≤ n ∧ n ≤ 4 * 60 * 60 := by
  constructor
  · intro h
    cases v with
    | number x =>
      cases x with
      | finite q =>
        obtain ⟨⟨hden, hlow, hhigh⟩, hn⟩ := Option.ite_none_right_eq_some.mp h
        rw [Option.some.injEq] at hn
        have hnum : q.num = (n : Int) := by omega
        have hq : q = (n : ℚ) := by
          rw [← Rat.coe_int_num_of_den_eq_one hden, hnum]
          rfl
        exact ⟨by rw [hq]; rfl, by omega, by omega⟩
      | _ => cases h
    | _ => cases h
  · rintro ⟨rfl, hlow, hhigh⟩
    refine Option.ite_none_right_eq_some.mpr ⟨⟨Rat.den_natCast n, ?_, ?_⟩, ?_⟩
    · rw [Rat.num_natCast]
      omega
    · rw [Rat.num_natCast]
      omega
    · rw [Rat.num_natCast, Int.toNat_natCast]

structure StartOk (input : StartTerminalInput) : Prop where
  files : FilesOk input.files
  ttlSeconds : 300 ≤ input.ttlSeconds ∧ input.ttlSeconds ≤ 4 * 60 * 60

structure ExposeOk (input : ExposeTerminalInput) : Prop where
  dir : isSafePath input.dir = true
  slugHint : ∀ slugHint ∈ input.slugHint, isSlugHint slugHint = true

section
variable {members : List (JsString × Value)}

theorem startFields_eq_some {input : StartTerminalInput} : startFields members = some input ↔
    orDefault terminalFilesSchema [] (members.lookup (lit "files")) = some input.files ∧
      (members.lookup (lit "ttlSeconds")).bind ttlSchema = some input.ttlSeconds ∧
      optional boolSchema (members.lookup (lit "claudeCode")) = some input.claudeCode := by
  constructor
  · intro h
    obtain ⟨files, hfiles, h⟩ := Option.bind_eq_some_iff.mp h
    obtain ⟨ttlSeconds, httl, h⟩ := Option.bind_eq_some_iff.mp h
    obtain ⟨claudeCode, hclaude, h⟩ := Option.bind_eq_some_iff.mp h
    cases h
    exact ⟨hfiles, httl, hclaude⟩
  · rintro ⟨hfiles, httl, hclaude⟩
    unfold startFields
    rw [hfiles, httl, hclaude]
    rfl

theorem exposeFields_eq_some {input : ExposeTerminalInput} : exposeFields members = some input ↔
    orDefault safePathSchema (lit "dist") (members.lookup (lit "dir")) = some input.dir ∧
      optional slugHintSchema (members.lookup (lit "slugHint")) = some input.slugHint := by
  constructor
  · intro h
    obtain ⟨dir, hdir, h⟩ := Option.bind_eq_some_iff.mp h
    obtain ⟨slugHint, hslug, h⟩ := Option.bind_eq_some_iff.mp h
    cases h
    exact ⟨hdir, hslug⟩
  · rintro ⟨hdir, hslug⟩
    unfold exposeFields
    rw [hdir, hslug]
    rfl

end

theorem startOk_schema {body : Value} {input : StartTerminalInput} (hsound : body.Sound)
    (h : startTerminalSchema body = some input) : StartOk input := by
  cases body with
  | object members =>
    obtain ⟨-, hfields⟩ := Option.ite_none_right_eq_some.mp h
    obtain ⟨hfiles, httl, -⟩ := startFields_eq_some.mp hfields
    obtain ⟨v, -, httl⟩ := Option.bind_eq_some_iff.mp httl
    refine ⟨?_, (ttlSchema_eq_some.mp httl).2⟩
    cases hlookup : members.lookup (lit "files") with
    | none =>
      rw [hlookup] at hfiles
      rw [← Option.some.inj hfiles]
      exact ⟨fun _ hmem => absurd hmem List.not_mem_nil, List.Pairwise.nil, Nat.zero_le _, Nat.zero_le _⟩
    | some v =>
      rw [hlookup] at hfiles
      exact filesOk_schema (sound_lookup hsound.2 hlookup) hfiles
  | _ => cases h

theorem exposeOk_schema {body : Value} {input : ExposeTerminalInput} (h : exposeTerminalSchema body = some input) :
    ExposeOk input := by
  cases body with
  | object members =>
    obtain ⟨-, hfields⟩ := Option.ite_none_right_eq_some.mp h
    obtain ⟨hdir, hslug⟩ := exposeFields_eq_some.mp hfields
    constructor
    · cases hlookup : members.lookup (lit "dir") with
      | none =>
        rw [hlookup] at hdir
        rw [← Option.some.inj hdir]
        decide
      | some v =>
        rw [hlookup] at hdir
        exact (stringSchema_eq_some.mp hdir).2
    · intro slugHint hslugHint
      cases hlookup : members.lookup (lit "slugHint") with
      | none =>
        rw [hlookup] at hslug
        rw [← Option.some.inj hslug] at hslugHint
        cases hslugHint
      | some v =>
        rw [hlookup] at hslug
        obtain ⟨found, hfound, hsome⟩ := Option.map_eq_some_iff.mp hslug
        rw [← hsome, Option.mem_def, Option.some.injEq] at hslugHint
        exact (stringSchema_eq_some.mp (hslugHint ▸ hfound)).2
  | _ => cases h

/-! ## the payload is read back -/

def RequestOk : ApprovalRequest → Prop
  | .start input => StartOk input
  | .expose input => ExposeOk input

def payloadMembers (workspaceId : WorkspaceId) (request : ApprovalRequest) : List (JsString × Value) :=
  (lit "workspaceId", .string workspaceId) :: request.members

instance (k key : JsString) : Decidable (KeyBefore k key) :=
  inferInstanceAs (Decidable (k ≠ key ∧ keyRank k ≤ keyRank key))

theorem inOrder_of_keys {members : List (JsString × Value)} (h : (members.map Prod.fst).Pairwise KeyBefore) :
    InOrder members := List.pairwise_map.mp h

theorem sound_fileMembers (files : Files) :
    SoundMembers (files.map fileMember) ∧ FiniteMembers (files.map fileMember) := by
  induction files with
  | nil => exact ⟨trivial, trivial⟩
  | cons file files ih => exact ⟨⟨trivial, ih.1⟩, trivial, ih.2⟩

theorem payload_sound {workspaceId : WorkspaceId} {request : ApprovalRequest} (h : RequestOk request) :
    (Value.object (payloadMembers workspaceId request)).Sound ∧
      (Value.object (payloadMembers workspaceId request)).AllFinite := by
  cases request with
  | start input =>
    obtain ⟨files, ttlSeconds, claudeCode⟩ := input
    have hfiles : (Value.object (files.map fileMember)).Sound := ⟨h.files.order, (sound_fileMembers files).1⟩
    have hfinite : (Value.object (files.map fileMember)).AllFinite := (sound_fileMembers files).2
    have httl : IsDouble ((ttlSeconds : ℕ) : ℚ) := by
      have hlow : ((ttlSeconds : ℤ)).natAbs < 2 ^ 53 := by
        have hhigh := h.ttlSeconds.2
        rw [Int.natAbs_natCast]
        dsimp only at hhigh
        omega
      exact_mod_cast isDouble_int hlow
    cases claudeCode with
    | none =>
      refine ⟨⟨inOrder_of_keys ?_, trivial, hfiles, httl, trivial⟩, trivial, hfinite, ⟨_, rfl⟩, trivial⟩
      show List.Pairwise KeyBefore [lit "workspaceId", lit "files", lit "ttlSeconds"]
      decide
    | some b =>
      refine ⟨⟨inOrder_of_keys ?_, trivial, hfiles, httl, trivial, trivial⟩, trivial, hfinite, ⟨_, rfl⟩, trivial,
        trivial⟩
      show List.Pairwise KeyBefore [lit "workspaceId", lit "files", lit "ttlSeconds", lit "claudeCode"]
      decide
  | expose input =>
    obtain ⟨dir, slugHint⟩ := input
    cases slugHint with
    | none =>
      refine ⟨⟨inOrder_of_keys ?_, trivial, trivial, trivial⟩, trivial, trivial, trivial⟩
      show List.Pairwise KeyBefore [lit "workspaceId", lit "dir"]
      decide
    | some slugHint =>
      refine ⟨⟨inOrder_of_keys ?_, trivial, trivial, trivial, trivial⟩, trivial, trivial, trivial, trivial⟩
      show List.Pairwise KeyBefore [lit "workspaceId", lit "dir", lit "slugHint"]
      decide

/-- the value in the column: the same keys, and each property as it is stored -/
structure Kept (members read : List (JsString × Value)) : Prop where
  keys : ∀ key, key ∈ read.map Prod.fst ↔ key ∈ members.map Prod.fst
  absent : ∀ key, members.lookup key = none → read.lookup key = none
  present : ∀ key v, members.lookup key = some v → ∃ stored, v.stored = some stored ∧ read.lookup key = some stored

theorem payloadColumn_payload {workspaceId : WorkspaceId} {request : ApprovalRequest} (h : RequestOk request)
    {v : Value} (hv : payloadColumn (request.payload workspaceId) = some v) :
    ∃ read, v = .object read ∧ Kept (payloadMembers workspaceId request) read := by
  obtain ⟨hsound, hfinite⟩ := @payload_sound workspaceId request h
  have hparse : parse (request.payload workspaceId) = some (.object (payloadMembers workspaceId request)) := by
    show parse ⟨(Value.object (payloadMembers workspaceId request)).text⟩ = _
    rw [parse_text hsound, (shown_eq_iff _).mpr hfinite]
  unfold payloadColumn at hv
  rw [hparse] at hv
  obtain ⟨stored, read, hstored, rfl, hperm, -, hnodup⟩ := stored_object hsound.1 hv
  have hlookup (key : JsString) : read.lookup key = stored.lookup key :=
    (lookup_perm hnodup hperm.symm key).symm
  refine ⟨read, rfl, fun key => ?_, fun key hnone => ?_, fun key v hsome => ?_⟩
  · rw [(hperm.map Prod.fst).mem_iff, keys_storedMembers hstored]
  · rw [hlookup, lookup_stored_none hstored hnone]
  · obtain ⟨found, hfound, hkey⟩ := lookup_stored_some hstored hsome
    exact ⟨found, hfound, (hlookup key).trans hkey⟩

theorem stored_string {s : JsString} {v : Value} (h : (Value.string s).stored = some v) : v = .string s := by
  obtain ⟨-, h⟩ := Option.ite_none_right_eq_some.mp h
  exact (Option.some.inj h).symm

theorem storedMembers_files {files : Files} {stored : List (JsString × Value)}
    (h : storedMembers (files.map fileMember) = some stored) : stored = files.map fileMember := by
  induction files generalizing stored with
  | nil => exact (Option.some.inj h).symm
  | cons file files ih =>
    obtain ⟨-, h⟩ := Option.ite_none_right_eq_some.mp h
    obtain ⟨v, hv, h⟩ := Option.bind_eq_some_iff.mp h
    obtain ⟨rest, hrest, rfl⟩ := Option.map_eq_some_iff.mp h
    rw [stored_string hv, ih hrest]
    rfl

/-- the files of a record, in the order in which they are read -/
theorem perm_fileMembers {files : Files} (hsafe : ∀ file ∈ files, isSafePath file.1 = true)
    {read : List (JsString × Value)} (hperm : read.Perm (files.map fileMember)) :
    ∃ files' : Files, files'.Perm files ∧ read = files'.map fileMember := by
  have hback (file : JsString × JsString) (hfile : file ∈ files) : fileOf (fileMember file) = some file :=
    fileOf_eq_some.mpr ⟨rfl, hsafe file hfile⟩
  refine ⟨read.filterMap fileOf, ?_, ?_⟩
  · have hfiles : (files.map fileMember).filterMap fileOf = files := by
      rw [List.filterMap_map]
      exact (List.filterMap_congr hback).trans List.filterMap_some
    have hfiltered := hperm.filterMap fileOf
    rwa [hfiles] at hfiltered
  · rw [List.map_filterMap]
    have hmembers : ∀ m ∈ read, (fileOf m).map fileMember = some m := by
      intro m hm
      obtain ⟨file, hfile, rfl⟩ := List.mem_map.mp (hperm.mem_iff.mp hm)
      rw [hback file hfile]
      rfl
    exact ((List.filterMap_congr hmembers).trans List.filterMap_some).symm

theorem stored_files {files : Files} (h : FilesOk files) {v : Value}
    (hv : (Value.object (files.map fileMember)).stored = some v) :
    ∃ files' : Files, files'.Perm files ∧ terminalFilesSchema v = some files' := by
  obtain ⟨stored, read, hstored, rfl, hperm, horder, -⟩ := stored_object h.order hv
  rw [storedMembers_files hstored] at hperm
  obtain ⟨files', hfiles', rfl⟩ := perm_fileMembers (fun file hfile => (h.safe file hfile).1) hperm
  exact ⟨files', hfiles', schema_filesOk (h.perm hfiles' horder)⟩

section
variable {casing : CaseMapping} {zodError : JsString} {workspaceId : WorkspaceId}

theorem isHex_lowerUnit {u : UInt16} (h : isHex u = true) : isHex (lowerUnit u) = true := by
  have hrange := of_decide_eq_true h
  unfold lowerUnit
  split
  · have hadd : (u + 0x20).toNat = u.toNat + 0x20 := by
      rw [UInt16.toNat_add]
      exact Nat.mod_eq_of_lt (by simp; omega)
    refine decide_eq_true ?_
    rw [hadd]
    omega
  · exact h

theorem all_isHex_lower {us : List UInt16} (h : us.all isHex = true) : (us.map lowerUnit).all isHex = true := by
  rw [List.all_eq_true] at h ⊢
  intro u hu
  obtain ⟨v, hv, rfl⟩ := List.mem_map.mp hu
  exact isHex_lowerUnit (h v hv)

theorem matchesGroups_lower {ns : List Nat} {us : List UInt16} (h : matchesGroups ns us = true) :
    matchesGroups ns (us.map lowerUnit) = true := by
  induction ns, us using matchesGroups.induct with
  | case1 us =>
    rw [matchesGroups, List.isEmpty_iff] at h
    rw [h]
    rfl
  | case2 n us =>
    rw [matchesGroups, Bool.and_eq_true] at h ⊢
    rw [List.length_map]
    exact ⟨h.1, all_isHex_lower h.2⟩
  | case3 n ns us hne ih =>
    rw [matchesGroups, Bool.and_eq_true, Bool.and_eq_true, Bool.and_eq_true] at h ⊢
    · obtain ⟨⟨⟨hlength, hgroup⟩, hhyphen⟩, hrest⟩ := h
      rw [← List.map_take, ← List.map_drop, ← List.map_drop, List.length_map, List.head?_map]
      rw [beq_iff_eq] at hhyphen
      rw [hhyphen]
      exact ⟨⟨⟨hlength, all_isHex_lower hgroup⟩, rfl⟩, ih hrest⟩
    · exact hne
    · exact hne

/-- an id that was taken is taken again, as it is -/
theorem workspaceIdOrFail_taken {raw : JsString} (h : workspaceIdOrFail casing raw = .ok workspaceId) :
    workspaceIdOrFail casing workspaceId = .ok workspaceId := by
  unfold workspaceIdOrFail at h
  split at h
  next hmatch =>
    have hascii : ∀ u ∈ raw.units, u.toNat < 0x80 := fun u hu => ascii_word (isWord_matchesGroups hmatch u hu)
    have hunits : workspaceId.units = raw.units.map lowerUnit := by
      rw [← Except.ok.inj h]
      exact toLowerCase_map casing hascii
    have hlower : workspaceId.units.all isLowerAscii = true := by
      rw [hunits, List.all_eq_true]
      intro u hu
      obtain ⟨v, hv, rfl⟩ := List.mem_map.mp hu
      exact isLowerAscii_lowerUnit (hascii v hv)
    unfold workspaceIdOrFail
    rw [if_pos, toLowerCase_ascii casing hlower]
    rw [hunits]
    exact matchesGroups_lower hmatch
  next => cases h

theorem strict_of_kept {members read : List (JsString × Value)} {keys : List JsString} (h : Kept members read)
    (hkeys : ∀ key ∈ members.map Prod.fst, key ∈ keys) : isStrict keys read = true := by
  refine List.all_eq_true.mpr fun m hm => ?_
  rw [List.contains_iff_mem]
  exact hkeys m.1 ((h.keys m.1).mp (List.mem_map_of_mem hm))

theorem withWorkspaceId_read {α : Type} {keys : List JsString} {fields : List (JsString × Value) → Option α}
    {request : ApprovalRequest} {read : List (JsString × Value)} {input : α}
    (hid : workspaceIdOrFail casing workspaceId = .ok workspaceId) (h : Kept (payloadMembers workspaceId request) read)
    (hkeys : ∀ key ∈ (payloadMembers workspaceId request).map Prod.fst, key ∈ lit "workspaceId" :: keys)
    (hfields : fields read = some input) :
    withWorkspaceId casing keys fields (.object read) = some (workspaceId, input) := by
  obtain ⟨stored, hstored, hlookup⟩ := h.present (lit "workspaceId") (.string workspaceId) rfl
  have hfound : (read.lookup (lit "workspaceId")).bind (workspaceIdSchema casing) = some workspaceId := by
    rw [hlookup, stored_string hstored]
    show (workspaceIdOrFail casing workspaceId).toOption = some workspaceId
    rw [hid]
    rfl
  show (if isStrict (lit "workspaceId" :: keys) read = true then _ else none) = _
  rw [strict_of_kept h hkeys, if_pos rfl, hfields, hfound]
  rfl

/-- **An approval is executed with what it was asked for**: the same project, and the same input but for the order of
its files. -/
theorem readStart_payload {input : StartTerminalInput} (hid : workspaceIdOrFail casing workspaceId = .ok workspaceId)
    (h : StartOk input) {v : Value}
    (hv : payloadColumn ((ApprovalRequest.start input).payload workspaceId) = some v) :
    ∃ input', StartsAs input input' ∧
      readStart casing zodError (some ((ApprovalRequest.start input).payload workspaceId)) = .ok (workspaceId, input') := by
  obtain ⟨read, rfl, hkept⟩ := @payloadColumn_payload workspaceId (.start input) h v hv
  obtain ⟨files, ttlSeconds, claudeCode⟩ := input
  obtain ⟨storedFiles, hstoredFiles, hlookupFiles⟩ :=
    hkept.present (lit "files") (.object (files.map fileMember)) rfl
  obtain ⟨files', hperm, hfiles⟩ := stored_files h.files hstoredFiles
  obtain ⟨_, hstoredTtl, hlookupTtl⟩ := hkept.present (lit "ttlSeconds") (portValue ttlSeconds) rfl
  cases hstoredTtl
  have hclaude : optional boolSchema (read.lookup (lit "claudeCode")) = some claudeCode := by
    cases claudeCode with
    | none =>
      rw [hkept.absent (lit "claudeCode") rfl]
      rfl
    | some b =>
      obtain ⟨_, hstored, hlookup⟩ := hkept.present (lit "claudeCode") (.bool b) rfl
      cases hstored
      rw [hlookup]
      rfl
  have hfields : startFields read = some ⟨files', ttlSeconds, claudeCode⟩ := by
    refine startFields_eq_some.mpr ⟨?_, ?_, hclaude⟩
    · rw [hlookupFiles]
      exact hfiles
    · rw [hlookupTtl]
      exact ttlSchema_eq_some.mpr ⟨rfl, h.ttlSeconds⟩
  refine ⟨⟨files', ttlSeconds, claudeCode⟩, ⟨hperm, rfl, rfl⟩, ?_⟩
  unfold readStart readPayload
  rw [Option.bind_some, hv, Option.bind_some, startTerminalApprovedPayloadSchema,
    withWorkspaceId_read hid hkept ?_ hfields]
  cases claudeCode with
  | none =>
    show ∀ key ∈ [lit "workspaceId", lit "files", lit "ttlSeconds"], key ∈ lit "workspaceId" :: startKeys
    decide
  | some b =>
    show ∀ key ∈ [lit "workspaceId", lit "files", lit "ttlSeconds", lit "claudeCode"],
      key ∈ lit "workspaceId" :: startKeys
    decide

theorem readExpose_payload {input : ExposeTerminalInput} (hid : workspaceIdOrFail casing workspaceId = .ok workspaceId)
    (h : ExposeOk input) {v : Value}
    (hv : payloadColumn ((ApprovalRequest.expose input).payload workspaceId) = some v) :
    readExpose casing zodError (some ((ApprovalRequest.expose input).payload workspaceId)) =
      .ok (workspaceId, input) := by
  obtain ⟨read, rfl, hkept⟩ := @payloadColumn_payload workspaceId (.expose input) h v hv
  obtain ⟨dir, slugHint⟩ := input
  obtain ⟨storedDir, hstoredDir, hlookupDir⟩ := hkept.present (lit "dir") (.string dir) rfl
  have hslug : optional slugHintSchema (read.lookup (lit "slugHint")) = some slugHint := by
    cases slugHint with
    | none =>
      rw [hkept.absent (lit "slugHint") rfl]
      rfl
    | some slugHint =>
      obtain ⟨stored, hstored, hlookup⟩ := hkept.present (lit "slugHint") (.string slugHint) rfl
      rw [hlookup, stored_string hstored]
      exact Option.map_eq_some_iff.mpr ⟨slugHint, stringSchema_eq_some.mpr ⟨rfl, h.slugHint slugHint rfl⟩, rfl⟩
  have hfields : exposeFields read = some ⟨dir, slugHint⟩ := by
    refine exposeFields_eq_some.mpr ⟨?_, hslug⟩
    rw [hlookupDir, stored_string hstoredDir]
    exact stringSchema_eq_some.mpr ⟨rfl, h.dir⟩
  unfold readExpose readPayload
  rw [Option.bind_some, hv, Option.bind_some, exposeApprovedPayloadSchema,
    withWorkspaceId_read hid hkept ?_ hfields]
  cases slugHint with
  | none =>
    show ∀ key ∈ [lit "workspaceId", lit "dir"], key ∈ lit "workspaceId" :: exposeKeys
    decide
  | some slugHint =>
    show ∀ key ∈ [lit "workspaceId", lit "dir", lit "slugHint"], key ∈ lit "workspaceId" :: exposeKeys
    decide

end

/-! ## paths -/

/-- wherever the directory is, the path is one of something in it -/
def Inside (path : JsString) : Prop :=
  ∀ cwd names, (∀ s ∈ names, IsName s) → names ≠ [] →
    ∃ below, (∀ s ∈ below, IsName s) ∧ resolve cwd (absolute names ++ slash :: path.units) = absolute (names ++ below)

/-- segments without `..` only go down -/
theorem foldl_pushSegment {segments : List (List UInt16)} (hslash : ∀ s ∈ segments, slash ∉ s)
    (hdotDot : dotDot ∉ segments) (names : List (List UInt16)) :
    ∃ below, (∀ s ∈ below, IsName s) ∧ segments.foldl (pushSegment false) names = names ++ below := by
  induction segments generalizing names with
  | nil => exact ⟨[], fun _ h => absurd h List.not_mem_nil, (List.append_nil names).symm⟩
  | cons segment segments ih =>
    rw [List.forall_mem_cons] at hslash
    rw [List.mem_cons, not_or] at hdotDot
    rw [List.foldl_cons]
    by_cases hskip : segment = [] ∨ segment = dot
    · have hpush : pushSegment false names segment = names := if_pos hskip
      rw [hpush]
      exact ih hslash.2 hdotDot.2 names
    · have hpush : pushSegment false names segment = names ++ [segment] := by
        unfold pushSegment
        rw [if_neg hskip, if_neg (Ne.symm hdotDot.1)]
      rw [hpush]
      obtain ⟨below, hbelow, hfold⟩ := ih hslash.2 hdotDot.2 (names ++ [segment])
      rw [not_or] at hskip
      refine ⟨segment :: below, List.forall_mem_cons.mpr ⟨⟨hskip.1, hskip.2, Ne.symm hdotDot.1, hslash.1⟩, hbelow⟩, ?_⟩
      rw [hfold, List.append_assoc]
      rfl

theorem inside_safePath {path : JsString} (h : isSafePath path = true) : Inside path := by
  obtain ⟨-, hdotDot⟩ := Bool.and_eq_true_iff.mp h
  have hdotDot : dotDot ∉ path.units.splitOn slash := by
    intro hmem
    rw [List.contains_iff_mem.mpr hmem] at hdotDot
    cases hdotDot
  intro cwd names hnames hne
  obtain ⟨below, hbelow, hfold⟩ := foldl_pushSegment (slash_notMem_splitOn path.units) hdotDot names
  refine ⟨below, hbelow, ?_⟩
  have hsegments : normalizeSegments false ((absolute names ++ slash :: path.units).splitOn slash) = names ++ below := by
    rw [List.splitOn_append_cons_self]
    unfold normalizeSegments
    rw [List.foldl_append]
    have hroot := normalizeSegments_absolute hnames false
    unfold normalizeSegments at hroot
    rw [hroot]
    exact hfold
  have habsolute : isAbsolute (absolute names ++ slash :: path.units) = true := rfl
  unfold resolve
  dsimp only
  rw [habsolute, if_pos rfl, if_pos habsolute]
  show slash :: joined (normalizeSegments false ((absolute names ++ slash :: path.units).splitOn slash)) = _
  rw [hsegments]
  rfl

end OwnerTerminal
