import JinCore.Common.Calls
import JinCore.Js.Date
import JinCore.Lib.Table
import JinCore.Security.InjectionSanitizer

/-!
# The corpus of emails (`corpus.service.ts`, `0009_corpus_pgvector.sql`)

The calls of `indexEmail` run beside each other; the embedding provider answers whatever it answers,
and each statement is one step.

* `CorpusEntryRow`, `CorpusEmbeddingRow`   the rows, under their unique indexes;
* `Phase`            where a call stands;
* `Corpus`           the rows, the calls, and the texts that have been embedded;
* `Corpus.step`      one answer to one call.
-/

namespace Corpus
open JsString Common Security

def gmailSource : JsString := lit "gmail"

/-- `EMBEDDING_MODEL_ID` -/
def embeddingModelId : JsString := lit "text-embedding-3-large:1024"

structure IndexEmailInput where
  messageId : JsString
  subject : Option JsString
  sender : Option JsString
  date : Option JsString
  body : JsString
  deriving DecidableEq, Repr

/-- the keys that are there -/
structure Metadata where
  subject : Option JsString
  sender : Option JsString
  date : Option JsString
  deriving DecidableEq, Repr

structure CorpusEntryRow where
  id : JsString
  source : JsString
  sourceId : JsString
  content : JsString
  metadata : Metadata
  createdAt : JsDate

structure CorpusEntry where
  id : JsString
  source : JsString
  sourceId : JsString
  content : JsString
  metadata : Metadata
  createdAt : JsString
  deriving DecidableEq, Repr

structure CorpusEmbeddingRow (ν : Type) where
  id : JsString
  entryId : JsString
  embedding : ν
  modeloEmbedding : JsString

/-- `corpus_entries_source_source_id_idx` -/
def CorpusEntryRow.origin (row : CorpusEntryRow) : JsString × JsString := (row.source, row.sourceId)

def toCorpusEntry (row : CorpusEntryRow) : CorpusEntry :=
  ⟨row.id, row.source, row.sourceId, row.content, row.metadata, row.createdAt.toISOString⟩

def metadataOf (input : IndexEmailInput) : Metadata := ⟨input.subject, input.sender, input.date⟩

/-- the values of the insert of an entry -/
def entryValues (input : IndexEmailInput) (content id : JsString) (now : JsDate) : CorpusEntryRow where
  id := id
  source := gmailSource
  sourceId := input.messageId
  content := content
  metadata := metadataOf input
  createdAt := now

section
variable (ν : Type)

inductive Phase where
  | idle
  | embedding (input : IndexEmailInput) (content : JsString)
  | upsertingEntry (input : IndexEmailInput) (content : JsString) (embedding : ν)
  | upsertingEmbedding (entry : CorpusEntryRow) (embedding : ν)
  | returned (entry : CorpusEntry)
  /-- the provider or a statement has thrown -/
  | failed

inductive Action where
  | indexEmail (c : CallId) (input : IndexEmailInput)
  /-- `EmbeddingProvider.embed`, which may throw -/
  | embed (c : CallId) (answer : Option ν)
  | upsertEntry (c : CallId) (id : JsString) (now : JsDate) (fate : Fate)
  | upsertEmbedding (c : CallId) (id : JsString) (fate : Fate)

structure CorpusDb where
  entries : Table CorpusEntryRow.origin
  /-- under `corpus_embeddings_entry_id_idx` -/
  embeddings : Table (CorpusEmbeddingRow.entryId (ν := ν))
  calls : CallId → Phase ν
  /-- the texts that the provider has embedded, each with its answer -/
  computed : List (JsString × ν)

end

namespace CorpusDb
variable {ν : Type}

def set (s : CorpusDb ν) (c : CallId) (phase : Phase ν) : CorpusDb ν :=
  { s with calls := fun k => if k = c then phase else s.calls k }

/-- the row that the upsert of an entry leaves and returns -/
def upsertedEntry (s : CorpusDb ν) (values : CorpusEntryRow) : CorpusEntryRow :=
  match s.entries.get values.origin with
  | none => values
  | some entry => { entry with content := values.content, metadata := values.metadata }

/-- the row that the upsert of an embedding leaves -/
def upsertedEmbedding (s : CorpusDb ν) (values : CorpusEmbeddingRow ν) : CorpusEmbeddingRow ν :=
  match s.embeddings.get values.entryId with
  | none => values
  | some row =>
    { row with embedding := values.embedding, modeloEmbedding := values.modeloEmbedding }

def putEntry (s : CorpusDb ν) (values : CorpusEntryRow) : CorpusDb ν :=
  { s with entries := s.entries.set (s.upsertedEntry values) }

def putEmbedding (s : CorpusDb ν) (values : CorpusEmbeddingRow ν) : CorpusDb ν :=
  { s with embeddings := s.embeddings.set (s.upsertedEmbedding values) }

def onEmbed (s : CorpusDb ν) (c : CallId) (input : IndexEmailInput) (content : JsString) :
    Option ν → CorpusDb ν
  | none => s.set c .failed
  | some embedding =>
    { s with computed := (content, embedding) :: s.computed }.set c
      (.upsertingEntry input content embedding)

def onUpsertEntry (s : CorpusDb ν) (c : CallId) (values : CorpusEntryRow) (embedding : ν) :
    Fate → CorpusDb ν
  | .lost => s.set c .failed
  | .ok => (s.putEntry values).set c (.upsertingEmbedding (s.upsertedEntry values) embedding)
  | .applied => (s.putEntry values).set c .failed

def onUpsertEmbedding (s : CorpusDb ν) (c : CallId) (entry : CorpusEntryRow)
    (values : CorpusEmbeddingRow ν) : Fate → CorpusDb ν
  | .lost => s.set c .failed
  | .ok => (s.putEmbedding values).set c (.returned (toCorpusEntry entry))
  | .applied => (s.putEmbedding values).set c .failed

/-- `randomUUID` gives an id that no row of the table has -/
def step (s : CorpusDb ν) : Action ν → Option (CorpusDb ν)
  | .indexEmail c input =>
    match s.calls c with
    | .idle => some (s.set c (.embedding input (sanitizeForIndexing input.body)))
    | _ => none
  | .embed c answer =>
    match s.calls c with
    | .embedding input content => some (s.onEmbed c input content answer)
    | _ => none
  | .upsertEntry c id now fate =>
    match s.calls c with
    | .upsertingEntry input content embedding =>
      if id ∈ s.entries.rows.map CorpusEntryRow.id then none
      else some (s.onUpsertEntry c (entryValues input content id now) embedding fate)
    | _ => none
  | .upsertEmbedding c id fate =>
    match s.calls c with
    | .upsertingEmbedding entry embedding =>
      if id ∈ s.embeddings.rows.map CorpusEmbeddingRow.id then none
      else if entry.id ∈ s.entries.rows.map CorpusEntryRow.id then
        some (s.onUpsertEmbedding c entry ⟨id, entry.id, embedding, embeddingModelId⟩ fate)
      -- the foreign key
      else some (s.set c .failed)
    | _ => none

def empty (ν : Type) : CorpusDb ν where
  entries := .empty _
  embeddings := .empty _
  calls := fun _ => .idle
  computed := []

end CorpusDb
end Corpus
