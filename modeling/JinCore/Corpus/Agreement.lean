import JinCore.Corpus.Service
import JinCore.Lib.Runs

/-!
# Entries and their embeddings

* `Agree`       one entry for an email, and the one embedding row of an entry is of its text;
* `Owes`        a call that is still to store the embedding of the text that an entry holds;
* `Orderly`     the condition on a step;
* `Kept`        every entry has the embedding of its text, or a call owes it;
* `entries_agree`, `entries_disagree`.
-/

namespace Corpus
open JsString Common Security CorpusDb Runs

section
variable {ν : Type}

def Phase.running : Phase ν → Bool
  | .idle | .returned _ | .failed => false
  | _ => true

/-- the embedding row of an entry is of its text -/
def Embedded (s : CorpusDb ν) (e : CorpusEntryRow) : Prop :=
  ∃ row, s.embeddings.get e.id = some row ∧ (e.content, row.embedding) ∈ s.computed

/-- the call is still to store the embedding of the text that the entry holds -/
def Owes (s : CorpusDb ν) (c : CallId) (e : CorpusEntryRow) : Prop :=
  ∃ entry embedding, s.calls c = .upsertingEmbedding entry embedding
    ∧ entry.id = e.id ∧ entry.content = e.content

/-- There is one entry for an email, each entry has one embedding row, and the provider has made that
embedding of the text of the entry. -/
structure Agree (s : CorpusDb ν) : Prop where
  one : ∀ a ∈ s.entries.rows, ∀ b ∈ s.entries.rows, a.source = b.source → a.sourceId = b.sourceId →
    a = b
  embedded : ∀ e ∈ s.entries.rows, ∃ row ∈ s.embeddings.rows, row.entryId = e.id
    ∧ (∀ other ∈ s.embeddings.rows, other.entryId = e.id → other = row)
    ∧ (e.content, row.embedding) ∈ s.computed

/-- An upsert of an entry that takes effect is answered, or leaves the text as it was.  An upsert of an
embedding takes effect while the entry holds the text that was embedded; otherwise another call owes the
embedding of the text that it holds, or the upsert is lost and the embedding is of that text already. -/
def Orderly (s : CorpusDb ν) : Action ν → Prop
  | .upsertEntry c _ _ fate => ∀ input content embedding,
      s.calls c = .upsertingEntry input content embedding → fate = .applied →
      ∃ e, s.entries.get (gmailSource, input.messageId) = some e ∧ e.content = content
  | .upsertEmbedding c _ fate => ∀ entry embedding,
      s.calls c = .upsertingEmbedding entry embedding →
      ∀ e ∈ s.entries.rows, e.id = entry.id →
        (fate ≠ .lost ∧ e.content = entry.content) ∨ (∃ k, k ≠ c ∧ Owes s k e)
          ∨ (fate = .lost ∧ Embedded s e)
  | _ => True

/-! ## the invariant -/

def PhaseOk (s : CorpusDb ν) : Phase ν → Prop
  | .upsertingEntry _ content embedding => (content, embedding) ∈ s.computed
  | .upsertingEmbedding entry embedding =>
    (entry.content, embedding) ∈ s.computed ∧ ∃ e ∈ s.entries.rows, e.id = entry.id
  | _ => True

structure Kept (s : CorpusDb ν) : Prop where
  settled : ∀ e ∈ s.entries.rows, Embedded s e ∨ ∃ c, Owes s c e
  phases : ∀ c, PhaseOk s (s.calls c)

variable {s s' : CorpusDb ν} {c k : CallId} {phase : Phase ν} {e : CorpusEntryRow}

theorem set_self (s : CorpusDb ν) (c : CallId) (phase : Phase ν) : (s.set c phase).calls c = phase :=
  if_pos rfl

theorem set_other (s : CorpusDb ν) (hk : k ≠ c) (phase : Phase ν) :
    (s.set c phase).calls k = s.calls k := if_neg hk

theorem Owes.set (h : Owes s k e) (hk : k ≠ c) (phase : Phase ν) : Owes (s.set c phase) k e := by
  obtain ⟨entry, embedding, hcall, hentry⟩ := h
  exact ⟨entry, embedding, (set_other s hk phase).trans hcall, hentry⟩

/-- a call that owes nothing is not the one that owes -/
theorem Owes.ne (h : Owes s k e) (hc : ∀ entry embedding, s.calls c ≠ .upsertingEmbedding entry embedding) :
    k ≠ c := by
  rintro rfl
  obtain ⟨entry, embedding, hcall, -⟩ := h
  exact hc entry embedding hcall

theorem PhaseOk.set {next : Phase ν} (h : PhaseOk s phase) : PhaseOk (s.set c next) phase := by
  cases phase <;> exact h

/-! ### one call moves on -/

/-- a call that moves on without a change to a table -/
theorem Kept.set (hkept : Kept s) (hphase : PhaseOk s phase)
    (hothers : ∀ e ∈ s.entries.rows, Embedded s e ∨ ∃ k, k ≠ c ∧ Owes s k e) :
    Kept (s.set c phase) where
  settled e he := by
    rcases hothers e he with hembedded | ⟨k, hk, howes⟩
    · exact Or.inl hembedded
    · exact Or.inr ⟨k, howes.set hk phase⟩
  phases k := by
    by_cases hk : k = c
    · rw [hk, set_self]
      exact hphase.set
    · rw [set_other s hk]
      exact (hkept.phases k).set

/-- a call that owes nothing can move on -/
theorem Kept.others (hkept : Kept s)
    (hc : ∀ entry embedding, s.calls c ≠ .upsertingEmbedding entry embedding) :
    ∀ e ∈ s.entries.rows, Embedded s e ∨ ∃ k, k ≠ c ∧ Owes s k e := by
  intro e he
  rcases hkept.settled e he with hembedded | ⟨k, howes⟩
  · exact Or.inl hembedded
  · exact Or.inr ⟨k, howes.ne hc, howes⟩

theorem Kept.computed (hkept : Kept s) (p : JsString × ν) :
    Kept { s with computed := p :: s.computed } where
  settled e he := by
    rcases hkept.settled e he with ⟨row, hrow, hmem⟩ | howes
    · exact Or.inl ⟨row, hrow, List.mem_cons_of_mem _ hmem⟩
    · exact Or.inr howes
  phases k := by
    have hok := hkept.phases k
    show PhaseOk _ (s.calls k)
    cases hcall : s.calls k with
    | upsertingEntry input content embedding =>
      rw [hcall] at hok
      exact List.mem_cons_of_mem _ hok
    | upsertingEmbedding entry embedding =>
      rw [hcall] at hok
      exact ⟨List.mem_cons_of_mem _ hok.1, hok.2⟩
    | _ => trivial

theorem kept_embed {input : IndexEmailInput} {content : JsString} (hkept : Kept s)
    (hcall : s.calls c = .embedding input content) (answer : Option ν) :
    Kept (s.onEmbed c input content answer) := by
  have hc : ∀ entry embedding, s.calls c ≠ .upsertingEmbedding entry embedding := by
    intro entry v h
    rw [hcall] at h
    cases h
  cases answer with
  | none => exact hkept.set trivial (hkept.others hc)
  | some embedding =>
    have hkept' := hkept.computed (content, embedding)
    exact hkept'.set (List.mem_cons_self ..) (hkept'.others hc)

/-! ### the upsert of an entry -/

section
variable {values : CorpusEntryRow}

theorem origin_upsertedEntry : (s.upsertedEntry values).origin = values.origin := by
  unfold upsertedEntry
  split
  next => rfl
  next entry hget => exact (Table.get_eq_some_iff.mp hget).2

theorem content_upsertedEntry : (s.upsertedEntry values).content = values.content := by
  unfold upsertedEntry
  split <;> rfl

/-- an entry that is there keeps its id -/
theorem id_upsertedEntry (he : s.entries.get values.origin = some e) :
    (s.upsertedEntry values).id = e.id := by
  unfold upsertedEntry
  rw [he]

/-- the id of an entry outlasts an upsert -/
theorem id_mem_upserted {id : JsString} (h : ∃ e ∈ s.entries.rows, e.id = id) :
    ∃ e ∈ (s.entries.set (s.upsertedEntry values)).rows, e.id = id := by
  obtain ⟨e, he, rfl⟩ := h
  by_cases horigin : e.origin = values.origin
  · refine ⟨_, Table.mem_set_self _ _, id_upsertedEntry ?_⟩
    exact Table.get_eq_some_iff.mpr ⟨he, horigin⟩
  · refine ⟨e, Table.mem_set_other he ?_, rfl⟩
    rw [origin_upsertedEntry]
    exact horigin

theorem phaseOk_upserted (h : PhaseOk s phase) :
    PhaseOk (s.putEntry values) phase := by
  cases phase with
  | upsertingEmbedding entry embedding => exact ⟨h.1, id_mem_upserted h.2⟩
  | _ => exact h

/-- the entries other than the one that is upserted -/
theorem settled_upserted (hkept : Kept s) {next : Phase ν}
    (hc : ∀ entry embedding, s.calls c ≠ .upsertingEmbedding entry embedding) (he : e ∈ s.entries.rows) :
    Embedded ((s.putEntry values).set c next) e
      ∨ ∃ k, Owes ((s.putEntry values).set c next) k e := by
  rcases hkept.others hc e he with hembedded | ⟨k, hk, howes⟩
  · exact Or.inl hembedded
  · exact Or.inr ⟨k, Owes.set (s := s.putEntry values) howes hk next⟩

theorem kept_upserted (hkept : Kept s) {next : Phase ν}
    (hc : ∀ entry embedding, s.calls c ≠ .upsertingEmbedding entry embedding)
    (hnext : PhaseOk (s.putEntry values) next)
    (hself : Embedded ((s.putEntry values).set c next) (s.upsertedEntry values)
      ∨ ∃ k, Owes ((s.putEntry values).set c next) k (s.upsertedEntry values)) :
    Kept ((s.putEntry values).set c next) where
  settled e he := by
    rcases Table.mem_set he with rfl | ⟨he, -⟩
    · exact hself
    · exact settled_upserted hkept hc he
  phases k := by
    by_cases hk : k = c
    · rw [hk, set_self]
      exact hnext.set
    · rw [set_other _ hk]
      exact (phaseOk_upserted (hkept.phases k)).set

end

theorem kept_upsertEntry {input : IndexEmailInput} {content id : JsString} {embedding : ν} {now : JsDate}
    {fate : Fate} (hkept : Kept s) (hcall : s.calls c = .upsertingEntry input content embedding)
    (horderly : Orderly s (.upsertEntry c id now fate)) :
    Kept (s.onUpsertEntry c (entryValues input content id now) embedding fate) := by
  have hc : ∀ entry v, s.calls c ≠ .upsertingEmbedding entry v := by
    intro entry v h
    rw [hcall] at h
    cases h
  have hcontent : (s.upsertedEntry (entryValues input content id now)).content = content :=
    content_upsertedEntry
  cases fate with
  | lost => exact hkept.set trivial (hkept.others hc)
  | ok =>
    have hcomputed : (content, embedding) ∈ s.computed := by
      have hok := hkept.phases c
      rw [hcall] at hok
      exact hok
    refine kept_upserted hkept hc ⟨?_, _, Table.mem_set_self _ _, rfl⟩ (Or.inr ⟨c, _, embedding, ?_, rfl, rfl⟩)
    · rw [hcontent]
      exact hcomputed
    · exact set_self _ _ _
  | applied =>
    refine kept_upserted hkept hc trivial ?_
    -- the entry holds this text already, and what was settled of it still is
    obtain ⟨e, hget, hsame⟩ := horderly input content embedding hcall rfl
    have hid : (s.upsertedEntry (entryValues input content id now)).id = e.id := id_upsertedEntry hget
    have hsettled : Embedded ((s.putEntry (entryValues input content id now)).set c .failed) e
        ∨ ∃ k, Owes ((s.putEntry (entryValues input content id now)).set c .failed) k e :=
      settled_upserted hkept hc (Table.get_eq_some_iff.mp hget).1
    rcases hsettled with ⟨row, hrow, hmem⟩ | ⟨k, entry, v, hk, hkid, hktext⟩
    · refine Or.inl ⟨row, ?_, ?_⟩
      · rw [hid]
        exact hrow
      · rw [hcontent, ← hsame]
        exact hmem
    · exact Or.inr ⟨k, entry, v, hk, hkid.trans hid.symm, hktext.trans (hsame.trans hcontent.symm)⟩

/-! ### the upsert of an embedding -/

section
variable {values : CorpusEmbeddingRow ν}

theorem entryId_upsertedEmbedding : (s.upsertedEmbedding values).entryId = values.entryId := by
  unfold upsertedEmbedding
  split
  next => rfl
  next row hget => exact (Table.get_eq_some_iff.mp hget).2

theorem embedding_upsertedEmbedding : (s.upsertedEmbedding values).embedding = values.embedding := by
  unfold upsertedEmbedding
  split <;> rfl

theorem get_upsertedEmbedding (id : JsString) :
    (s.embeddings.set (s.upsertedEmbedding values)).get id
      = if id = values.entryId then some (s.upsertedEmbedding values) else s.embeddings.get id := by
  rw [Table.get_set, entryId_upsertedEmbedding]

end

theorem phaseOk_stored {values : CorpusEmbeddingRow ν} (h : PhaseOk s phase) :
    PhaseOk (s.putEmbedding values) phase := by
  cases phase <;> exact h

theorem kept_stored {entry : CorpusEntryRow} {embedding : ν} {id : JsString} {next : Phase ν}
    (hkept : Kept s) (hcall : s.calls c = .upsertingEmbedding entry embedding)
    (hnext : ∀ t : CorpusDb ν, PhaseOk t next)
    (horderly : ∀ e ∈ s.entries.rows, e.id = entry.id →
      e.content = entry.content ∨ ∃ k, k ≠ c ∧ Owes s k e) :
    Kept ((s.putEmbedding ⟨id, entry.id, embedding, embeddingModelId⟩).set c next) := by
  have hcomputed : (entry.content, embedding) ∈ s.computed := by
    have hok := hkept.phases c
    rw [hcall] at hok
    exact hok.1
  refine ⟨fun e he => ?_, fun k => ?_⟩
  · let t := s.putEmbedding ⟨id, entry.id, embedding, embeddingModelId⟩
    have hother : ∀ {k}, k ≠ c → Owes s k e → Owes (t.set c next) k e :=
      fun hk howes => Owes.set (s := t) howes hk next
    by_cases hid : e.id = entry.id
    · rcases horderly e he hid with hsame | ⟨k, hk, howes⟩
      · refine Or.inl ⟨_, (get_upsertedEmbedding e.id).trans (if_pos hid), ?_⟩
        rw [hsame, embedding_upsertedEmbedding]
        exact hcomputed
      · exact Or.inr ⟨k, hother hk howes⟩
    · rcases hkept.settled e he with ⟨row, hrow, hmem⟩ | ⟨k, howes⟩
      · exact Or.inl ⟨row, (get_upsertedEmbedding e.id).trans ((if_neg hid).trans hrow), hmem⟩
      · refine Or.inr ⟨k, hother ?_ howes⟩
        -- this call owes the embedding of another entry
        rintro rfl
        obtain ⟨entry', embedding', hcall', hid', -⟩ := howes
        cases hcall.symm.trans hcall'
        exact hid hid'.symm
  · by_cases hk : k = c
    · rw [hk, set_self]
      exact hnext _
    · rw [set_other _ hk]
      exact (phaseOk_stored (hkept.phases k)).set

theorem kept_upsertEmbedding {entry : CorpusEntryRow} {embedding : ν} {id : JsString} {fate : Fate}
    (hkept : Kept s) (hcall : s.calls c = .upsertingEmbedding entry embedding)
    (horderly : Orderly s (.upsertEmbedding c id fate)) :
    Kept (s.onUpsertEmbedding c entry ⟨id, entry.id, embedding, embeddingModelId⟩ fate) := by
  have hstores : fate ≠ .lost → ∀ e ∈ s.entries.rows, e.id = entry.id →
      e.content = entry.content ∨ ∃ k, k ≠ c ∧ Owes s k e := by
    intro hfate e he hid
    rcases horderly entry embedding hcall e he hid with hsame | howes | hlost
    · exact Or.inl hsame.2
    · exact Or.inr howes
    · exact absurd hlost.1 hfate
  cases fate with
  | lost =>
    refine hkept.set trivial fun e he => ?_
    by_cases hid : e.id = entry.id
    · rcases horderly entry embedding hcall e he hid with hsame | howes | hlost
      · exact absurd rfl hsame.1
      · exact Or.inr howes
      · exact Or.inl hlost.2
    · rcases hkept.settled e he with hembedded | ⟨k, howes⟩
      · exact Or.inl hembedded
      · refine Or.inr ⟨k, ?_, howes⟩
        rintro rfl
        obtain ⟨entry', embedding', hcall', hid', -⟩ := howes
        cases hcall.symm.trans hcall'
        exact hid hid'.symm
  | ok => exact kept_stored hkept hcall (fun _ => trivial) (hstores Fate.noConfusion)
  | applied => exact kept_stored hkept hcall (fun _ => trivial) (hstores Fate.noConfusion)

theorem kept_step {a : Action ν} (hkept : Kept s) (horderly : Orderly s a) (hstep : step s a = some s') :
    Kept s' := by
  cases a with
  | indexEmail c input =>
    rw [step] at hstep
    split at hstep
    next hcall =>
      cases hstep
      refine hkept.set trivial (hkept.others ?_)
      intro entry v h
      rw [hcall] at h
      cases h
    next => cases hstep
  | embed c answer =>
    rw [step] at hstep
    split at hstep
    next input content hcall =>
      cases hstep
      exact kept_embed hkept hcall answer
    next => cases hstep
  | upsertEntry c id now fate =>
    rw [step] at hstep
    split at hstep
    next input content embedding hcall =>
      split at hstep
      next => cases hstep
      next =>
        cases hstep
        exact kept_upsertEntry hkept hcall horderly
    next => cases hstep
  | upsertEmbedding c id fate =>
    rw [step] at hstep
    split at hstep
    next entry embedding hcall =>
      split at hstep
      next => cases hstep
      next =>
        split at hstep
        next =>
          cases hstep
          exact kept_upsertEmbedding hkept hcall horderly
        next hmissing =>
          -- the foreign key always finds the entry
          have hok := hkept.phases c
          rw [hcall] at hok
          obtain ⟨e, he, hid⟩ := hok.2
          exact absurd (List.mem_map.mpr ⟨e, he, hid⟩) hmissing
    next => cases hstep

theorem kept_empty : Kept (empty ν) where
  settled _ he := absurd he List.not_mem_nil
  phases _ := trivial

theorem Kept.agree (hkept : Kept s) (hfinished : ∀ c, (s.calls c).running = false) : Agree s where
  one a ha b hb hsource hsourceId := by
    have horigin : b.origin = a.origin := by
      unfold CorpusEntryRow.origin
      rw [hsource, hsourceId]
    have hget := Table.get_eq_some_iff.mpr ⟨ha, rfl⟩
    exact Option.some.inj (hget.symm.trans (Table.get_eq_some_iff.mpr ⟨hb, horigin⟩))
  embedded e he := by
    rcases hkept.settled e he with ⟨row, hrow, hmem⟩ | ⟨c, entry, embedding, hcall, -⟩
    · have hin := Table.get_eq_some_iff.mp hrow
      refine ⟨row, hin.1, hin.2, fun other hother hid => ?_, hmem⟩
      exact Option.some.inj ((Table.get_eq_some_iff.mpr ⟨hother, hid⟩).symm.trans hrow)
    · have hrunning := hfinished c
      rw [hcall] at hrunning
      cases hrunning

/-- **Entries and embeddings agree.**  In every interleaving of any number of calls, with any answers of
the provider and any statements that fail, whose steps are all orderly: whenever no call is running,
there is one entry for an email, and its one embedding row is of the text that it holds. -/
theorem entries_agree (as : List (Action ν)) (s : CorpusDb ν)
    (horderly : Guarded step Orderly (empty ν) as) (hrun : run step (empty ν) as = some s)
    (hfinished : ∀ c, (s.calls c).running = false) : Agree s :=
  (run_inv_guarded (fun _ _ _ hkept hG hstep => kept_step hkept hG hstep) as _ s kept_empty horderly
    hrun).agree hfinished

end

/-! ## two emails with one id -/

def emailOf (body : JsString) : IndexEmailInput := ⟨lit "m1", none, none, none, body⟩

def epoch : JsDate := ⟨0, by decide⟩

/-- the second call stores its text after the first one and its embedding before it -/
def crossed : List (Action Nat) :=
  [.indexEmail 0 (emailOf (lit "a")), .indexEmail 1 (emailOf (lit "b")), .embed 0 (some 10),
   .embed 1 (some 20), .upsertEntry 0 (lit "e0") epoch .ok, .upsertEntry 1 (lit "e1") epoch .ok,
   .upsertEmbedding 1 (lit "v1") .ok, .upsertEmbedding 0 (lit "v0") .ok]

/-- the upsert of the embedding is lost -/
def halfDone : List (Action Nat) :=
  [.indexEmail 0 (emailOf (lit "a")), .embed 0 (some 10), .upsertEntry 0 (lit "e0") epoch .ok,
   .upsertEmbedding 0 (lit "v0") .lost]

/-- the second call comes to both tables last -/
def orderly : List (Action Nat) :=
  [.indexEmail 0 (emailOf (lit "a")), .indexEmail 1 (emailOf (lit "b")), .embed 0 (some 10),
   .embed 1 (some 20), .upsertEntry 0 (lit "e0") epoch .ok, .upsertEntry 1 (lit "e1") epoch .ok,
   .upsertEmbedding 0 (lit "v0") .ok, .upsertEmbedding 1 (lit "v1") .ok]

def owes (s : CorpusDb Nat) (k : CallId) (e : CorpusEntryRow) : Bool :=
  match s.calls k with
  | .upsertingEmbedding entry _ => entry.id = e.id ∧ entry.content = e.content
  | _ => false

theorem owes_of_check {s : CorpusDb Nat} {k : CallId} {e : CorpusEntryRow} (h : owes s k e = true) :
    Owes s k e := by
  unfold owes at h
  split at h
  next entry embedding hcall => exact ⟨entry, embedding, hcall, of_decide_eq_true h⟩
  next => cases h

/-- the condition on a step, where the second call is the only one that owes what another one does not
store -/
def checkOrderly (s : CorpusDb Nat) : Action Nat → Bool
  | .upsertEntry _ _ _ fate => fate ≠ .applied
  | .upsertEmbedding c _ fate =>
    match s.calls c with
    | .upsertingEmbedding entry _ => s.entries.rows.all fun e =>
        decide (fate ≠ .lost ∧ e.content = entry.content) || (decide (1 ≠ c) && owes s 1 e)
    | _ => true
  | _ => true

theorem orderly_of_check (s : CorpusDb Nat) (a : Action Nat) (h : checkOrderly s a = true) :
    Orderly s a := by
  cases a with
  | upsertEntry c id now fate =>
    intro input content embedding _ hfate
    exact absurd hfate (of_decide_eq_true h)
  | upsertEmbedding c id fate =>
    intro entry embedding hcall e he _
    rw [checkOrderly, hcall] at h
    rcases Bool.or_eq_true_iff.mp (List.all_eq_true.mp h e he) with hsame | howes
    · exact Or.inl (of_decide_eq_true hsame)
    · obtain ⟨hne, howes⟩ := Bool.and_eq_true_iff.mp howes
      exact Or.inr (Or.inl ⟨1, of_decide_eq_true hne, owes_of_check howes⟩)
  | _ => trivial

/-- the state after two calls, when both are done -/
theorem idle_of_two {as : List (Action Nat)} {s : CorpusDb Nat}
    (h : (run step (empty Nat) as).map (fun s => (s.calls 0).running || (s.calls 1).running) = some false)
    (hrun : run step (empty Nat) as = some s) (hrest : ∀ c, (s.calls (c + 2)).running = false) :
    ∀ c, (s.calls c).running = false := by
  rw [hrun] at h
  obtain ⟨h0, h1⟩ := Bool.or_eq_false_iff.mp (Option.some.inj h)
  intro c
  match c with
  | 0 => exact h0
  | 1 => exact h1
  | c + 2 => exact hrest c

/-- the run of two calls on one email that is in order -/
theorem entries_agree_two : ∃ s, run step (empty Nat) orderly = some s ∧ Agree s := by
  have hsome : (run step (empty Nat) orderly).isSome := by decide
  refine ⟨(run step (empty Nat) orderly).get hsome, Option.some_get _ |>.symm, ?_⟩
  refine entries_agree orderly _ (guarded_of_checkAll orderly_of_check _ _ (by decide))
    (Option.some_get hsome).symm (idle_of_two (by decide) (Option.some_get hsome).symm ?_)
  exact fun c => rfl

/-- what agreement says of every entry, as a check -/
def checkEmbedded (s : CorpusDb Nat) : Bool :=
  s.entries.rows.all fun e => s.embeddings.rows.any fun row =>
    decide (row.entryId = e.id) && decide ((e.content, row.embedding) ∈ s.computed)

theorem checkEmbedded_of_agree {s : CorpusDb Nat} (h : Agree s) : checkEmbedded s = true := by
  refine List.all_eq_true.mpr fun e he => List.any_eq_true.mpr ?_
  obtain ⟨row, hrow, hid, -, hmem⟩ := h.embedded e he
  exact ⟨row, hrow, Bool.and_eq_true_iff.mpr ⟨decide_eq_true hid, decide_eq_true hmem⟩⟩

/-- Both runs end with an entry whose embedding is not of its text: it is that of another text, or there
is none. -/
theorem entries_disagree :
    (∃ s, run step (empty Nat) crossed = some s ∧ (∀ c, (s.calls c).running = false) ∧ ¬ Agree s)
      ∧ ∃ s, run step (empty Nat) halfDone = some s ∧ (∀ c, (s.calls c).running = false)
        ∧ ¬ Agree s := by
  constructor
  · refine ⟨(run step (empty Nat) crossed).get (by decide), Option.some_get _ |>.symm, ?_, ?_⟩
    · exact idle_of_two (by decide) (Option.some_get _).symm fun c => rfl
    · intro h
      exact absurd (checkEmbedded_of_agree h) (by decide)
  · refine ⟨(run step (empty Nat) halfDone).get (by decide), Option.some_get _ |>.symm, ?_, ?_⟩
    · exact idle_of_two (by decide) (Option.some_get _).symm fun c => rfl
    · intro h
      exact absurd (checkEmbedded_of_agree h) (by decide)

end Corpus
