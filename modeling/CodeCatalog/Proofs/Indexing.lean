import CodeCatalog.Indexing
import CodeCatalog.Proofs.Embedding.Fill
import CodeCatalog.Proofs.Store.Calls
import CodeCatalog.Proofs.Surroundings
import CodeCatalog.Proofs.Unembedded
set_option autoImplicit false

/-!
# The counts of an indexing run

An indexing run counts at different stages: entities after the survey, vectors after the batch,
points after the upsert.  The counts fit together all the same.  Every entity is counted once, as
embedded, as unembedded or because its snippet is blank, and the points that are counted are those
by which the collection has grown.  What a run that ends early has not got to, it has not touched.
-/

namespace CodeCatalog

variable {σ : Type}

/-! ## Counts of filled records -/

namespace Record

/-- An entity without a vector becomes one with a vector, one that still needs one, or it stays as
it is because its snippet is blank. -/
theorem counts_of_mayBeFilled {es : List (Entity Text)} {rs : List Record}
    (hes : AreUnembedded es) (h : List.Forall₂ MayBeFilled (es.map Entity.toRecord) rs) :
    es.length = rs.countP (fun r => r.embedding.isSome) + rs.countP isPending +
      es.countP fun e => e.snippet.isBlank := by
  induction es generalizing rs with
  | nil =>
    cases h
    rfl
  | cons e es ih =>
    obtain ⟨hbare, hrest⟩ := List.forall_mem_cons.1 hes
    rw [List.map_cons, List.forall₂_cons_left_iff] at h
    obtain ⟨r, rest, hr, hall, rfl⟩ := h
    have hcounts := ih hrest hall
    have hembedding : e.toRecord.embedding = none := hbare
    have htext : e.toRecord.pendingText? =
        if e.snippet.isBlank then none else some e.snippet := by
      rw [pendingText?, hembedding]
      rfl
    simp only [List.length_cons, List.countP_cons]
    cases hr with
    | kept hnone =>
      rw [htext] at hnone
      have hblank : e.snippet.isBlank = true := by
        by_contra hnot
        simp [hnot] at hnone
      have hdone : e.toRecord.isPending = false := by
        rw [← Bool.not_eq_true, isPending_iff, htext, if_pos hblank]
        simp
      simp only [hembedding, hdone, hblank, Option.isSome_none, Bool.false_eq_true, if_false,
        if_true]
      omega
    | @embedded text v hsome =>
      rw [htext] at hsome
      have hblank : e.snippet.isBlank = false := by
        by_contra hnot
        simp [hnot] at hsome
      cases v with
      | some vector =>
        have hdone : isPending { e.toRecord with embedding := some vector } = false := rfl
        simp only [hdone, hblank, Option.isSome_some, Bool.false_eq_true, if_false, if_true]
        omega
      | none =>
        have hpending : isPending { e.toRecord with embedding := none } = true := by
          rw [isPending_iff]
          refine ⟨e.snippet, ?_⟩
          rw [pendingText?]
          change (if e.snippet.isBlank then none else some e.snippet) = _
          rw [hblank]
          rfl
        simp only [hpending, hblank, Option.isSome_none, Bool.false_eq_true, if_false, if_true]
        omega

end Record

/-! ## The points of a collection -/

namespace VectorServer

variable {s s' : VectorServer} {name : Value}

/-- The number of points of the collection that a value names; none if there is no such
collection. -/
def pointCount (s : VectorServer) (name : Value) : Nat :=
  match s.existing name with
  | .ok c => c.points.length
  | .error _ => 0

theorem Alike.pointCount (h : Alike s s') : s'.pointCount name = s.pointCount name := by
  unfold VectorServer.pointCount
  rw [h.existing]

theorem Holds.pointCount {points : List Point} (h : Holds name points s) :
    s.pointCount name = points.length := by
  obtain ⟨c, hfound, rfl⟩ := h
  rw [VectorServer.pointCount, hfound]

/-- The number of points is what a count of them gives. -/
theorem pointCount_of_count {n : Nat} (h : (count name s).1 = .ok n) : s.pointCount name = n := by
  obtain ⟨s', halike, hread⟩ := (counting_read "count"
    (fun s => (s.existing name).map fun c : Collection => c.points.length) s).2 n h
  rw [← halike.pointCount, pointCount]
  cases hfound : s'.existing name with
  | error f =>
    rw [hfound] at hread
    cases hread
  | ok c =>
    rw [hfound] at hread
    exact Except.ok.inj hread

/-- Whether there is a collection is told by whether one is found. -/
theorem hasCollection_eq_ok {found : Bool} (h : hasCollection name s = (.ok found, s')) :
    Alike s s' ∧ ∃ key, name.names key = true ∧ found = (s'.collection? key).isSome := by
  have hread := counting_read "exists" (fun s => (s.lookup name).map Option.isSome) s
  change Alike s (hasCollection name s).2 ∧ _ at hread
  rw [h] at hread
  refine ⟨hread.1, ?_⟩
  obtain ⟨s'', halike, hlookup⟩ := hread.2 found (congrArg Prod.fst h)
  rw [halike.lookup, ← hread.1.lookup, VectorServer.lookup] at hlookup
  cases hkey : keyOf name with
  | error f =>
    rw [hkey] at hlookup
    cases hlookup
  | ok key =>
    rw [hkey] at hlookup
    exact ⟨key, keyOf_eq_ok.1 hkey, (Except.ok.inj hlookup).symm⟩

end VectorServer

namespace VectorStore

open VectorServer

variable {st : VectorStore} {s s' : VectorServer} {name : Value}

/-- A collection that is asked for is there afterwards, with the points that it had. -/
theorem holds_of_create {made : Bool} (h : st.create name s = (.ok made, s')) :
    ∃ points, Holds name points s' ∧ points.length = s.pointCount name := by
  obtain ⟨found, between, hasked, hmade⟩ := Action.bind_eq_ok.1 h
  obtain ⟨halike, key, hname, hfound⟩ := hasCollection_eq_ok (call_eq_ok.1 hasked)
  cases found with
  | true =>
    cases hmade
    obtain ⟨c, hc⟩ := Option.isSome_iff_exists.1 hfound.symm
    have hholds : Holds name c.points s' := ⟨c, existing_eq_ok.2 ⟨key, hname, hc⟩, rfl⟩
    exact ⟨c.points, hholds, hholds.pointCount.symm.trans halike.pointCount⟩
  | false =>
    obtain ⟨_, after, hcreated, hdone⟩ := Action.bind_eq_ok.1 hmade
    cases hdone
    have hfree : between.collection? key = none := by
      simpa using hfound.symm
    have hnone : between.pointCount name = 0 := by
      rw [VectorServer.pointCount]
      split
      · rename_i c hc
        obtain ⟨other, hother, hthere⟩ := existing_eq_ok.1 hc
        rw [Value.names_unique hother hname, hfree] at hthere
        cases hthere
      · rfl
    obtain ⟨f, t, hfails, -⟩ | ⟨t, hok, hmade⟩ :=
      VectorServer.create_cases name st.vectorSize between
    · rw [call_eq_ok.1 hcreated] at hfails
      cases hfails
    · rw [call_eq_ok.1 hcreated] at hok
      cases hok
      exact ⟨[], hmade.holds, hnone.symm.trans halike.pointCount⟩

theorem ne_noCredentials_of_create {e : Fault} (h : st.create name s = (.error e, s')) :
    e ≠ .noCredentials := by
  rintro rfl
  obtain hasked | ⟨found, between, -, hmade⟩ := Action.bind_eq_error.1 h
  · obtain ⟨cause, hcause⟩ := exists_cause_of_call hasked
    cases hcause
  · cases found with
    | true => cases hmade
    | false =>
      obtain hcreated | ⟨_, after, -, hdone⟩ := Action.bind_eq_error.1 hmade
      · obtain ⟨cause, hcause⟩ := exists_cause_of_call hcreated
        cases hcause
      · cases hdone

/-- An upsert adds as many points to a collection as it tells, and no more than there are records
with a vector. -/
theorem pointCount_of_upsert {points : List Point} {rs : List Record} {n : Nat}
    (hholds : Holds name points s) (h : st.upsert name rs s = (.ok n, s')) :
    s'.pointCount name = points.length + n ∧ n ≤ rs.countP fun r => r.embedding.isSome := by
  have hput := st.upsert_puts name rs s
  obtain ⟨_, after, -, hdone⟩ := Action.bind_eq_ok.1 h
  cases hdone
  rw [h] at hput
  have hafter := hput.holds hholds
  rw [storedBatches, batchesOf, flatten_batches] at hafter
  refine ⟨hafter.pointCount.trans List.length_append, ?_⟩
  rw [List.length_filterMap_eq_countP]
  refine List.countP_mono_left fun r _ hr => ?_
  cases hembedding : r.embedding with
  | some v => rfl
  | none => simp [point?, hembedding] at hr

theorem ne_noCredentials_of_upsert {e : Fault} {rs : List Record}
    (h : st.upsert name rs s = (.error e, s')) : e ≠ .noCredentials := by
  rintro rfl
  have hsend := Action.bind_eq_error.1 h
  obtain ⟨t, hsent, -⟩ | ⟨taken, first, last, cause, t, hfails, -⟩ :=
    sendBatches_cases name (st.batchesOf rs).length (st.batchesOf rs) 0 0 s
  · obtain hfails | ⟨_, _, -, hdone⟩ := hsend
    · cases hsent.symm.trans hfails
    · cases hdone
  · obtain hfails' | ⟨_, _, hsent, -⟩ := hsend
    · cases hfails.symm.trans hfails'
    · cases hfails.symm.trans hsent

/-- No setting of a store is about credentials of the service. -/
theorem ofSettings_ne_noCredentials {settings : Value} {embedder : Option Embedder} :
    ofSettings settings embedder ≠ .error .noCredentials := by
  intro h
  unfold ofSettings at h
  have hdata : ∀ {α : Type} {r : Except DataFault α}, Outcome.ofData r ≠ .error .noCredentials := by
    intro α r hr
    cases r <;> cases hr
  obtain hpart | ⟨part, -, h⟩ := bind_eq_error.1 h
  · exact hdata hpart
  obtain hbackend | ⟨backend, -, h⟩ := bind_eq_error.1 h
  · exact hdata hbackend
  cases backend with
  | none => exact hdata h
  | some v =>
    cases v with
    | text t =>
      by_cases hname : t ≠ backendName
      · simp only [if_pos hname] at h
        cases h
      · simp only [if_neg hname] at h
        exact hdata h
    | _ => cases h

end VectorStore

/-! ## The stages of a run -/

namespace Surroundings

variable {w w' : Surroundings σ} {settings : Value} {e : Embedder} {rs : List Record}

/-- Filling records may fail on the settings, before anything is done; otherwise it changes nothing
but the service. -/
theorem fillRecords_cases (settings : Value) (e : Embedder) (rs : List Record)
    (w : Surroundings σ) :
    (∃ fault, fillRecords settings { embedder := some e } rs w = (.error (.data fault), w)) ∨
      ∃ filled serviceState inFlight,
        fillRecords settings { embedder := some e } rs w =
          (.ok filled, { w with serviceState, inFlight }) ∧
        List.Forall₂ Record.MayBeFilled rs filled := by
  let options : FillOptions := { embedder := some e }
  have hgiven : options.embedderFor settings w = (.ok e, w) := rfl
  by_cases hjobs : Record.jobs rs = []
  · refine .inr ⟨rs, w.serviceState, w.inFlight, fillRecords_of_no_jobs hjobs, ?_⟩
    have hfilled := Record.forall₂_mayBeFilled
      (Batch.map_fst_start (κ := Double) (Record.jobs rs) w.serviceState)
    have hnone := Setup.results_firstBatch (κ := Double) rs w.serviceState
    rw [Setup.firstBatch] at hnone
    rwa [hnone] at hfilled
  · cases hconcurrency : Settings.concurrency settings with
    | error fault =>
      have hpermits : options.permitsFor settings = .error fault := by
        rw [FillOptions.permitsFor, hconcurrency]
        rfl
      refine .inl ⟨fault, ?_⟩
      rw [fillRecords_of_stages settings options w hjobs, Action.bind_of_ok hgiven, hpermits]
      rfl
    | ok n =>
      have hpermits : options.permitsFor settings = .ok (.int n) := by
        rw [FillOptions.permitsFor, hconcurrency]
        rfl
      cases hpolicy : options.policyFor settings with
      | error fault =>
        refine .inl ⟨fault, ?_⟩
        rw [fillRecords_of_stages settings options w hjobs, Action.bind_of_ok hgiven, hpermits,
          hpolicy]
        rfl
      | ok policy =>
        let round := (w.setup e policy n).run (Record.jobs rs) w.serviceState
        refine .inr ⟨Record.fillAll rs round.batch.results, round.batch.state,
          max w.inFlight round.inFlight, ?_, ?_⟩
        · rw [fillRecords_of_given hgiven hpermits hpolicy rfl hjobs]
          rfl
        · apply Record.forall₂_mayBeFilled
          obtain ⟨order, horder, -⟩ := Setup.exists_follow_run (s := w.setup e policy n)
            (permitsOf_pos n) (Record.jobs rs) w.serviceState
          exact (Setup.map_fst_of_follow horder).trans (Batch.map_fst_start _ _)

/-- Making a store leaves the server alone and does not ask for credentials. -/
theorem setUpStore_cases (settings : Value) (embedder : Option Embedder) (w : Surroundings σ) :
    (∃ fault, setUpStore settings embedder w = (.error fault, w) ∧ fault ≠ .noCredentials) ∨
      ∃ store serverClients,
        setUpStore settings embedder w = (.ok store, { w with serverClients }) := by
  cases hmade : VectorStore.ofSettings settings embedder with
  | ok made => exact .inr ⟨made.1, _, setUpStore_of_ok hmade⟩
  | error fault =>
    refine .inl ⟨fault, setUpStore_of_error hmade, ?_⟩
    rintro rfl
    exact VectorStore.ofSettings_ne_noCredentials hmade

/-- Getting an embedder leaves the server alone, and fails before anything is done. -/
theorem embedderFor_cases (settings : Value) (o : IndexingOptions) (w : Surroundings σ) :
    (∃ fault, embedderFor settings o w = (.error fault, w)) ∨
      ∃ e embeddingClients, embedderFor settings o w = (.ok e, { w with embeddingClients }) := by
  unfold embedderFor
  cases o.embedder with
  | some e => exact .inr ⟨e, w.embeddingClients, rfl⟩
  | none =>
    cases hmade : Embedder.ofSettings settings {} with
    | error fault => exact .inl ⟨fault, setUpEmbedder_of_error hmade⟩
    | ok e => exact .inr ⟨e, _, setUpEmbedder_of_ok hmade⟩

theorem storeFor_cases (settings : Value) (o : IndexingOptions) (e : Embedder)
    (w : Surroundings σ) :
    (∃ fault, storeFor settings o e w = (.error fault, w) ∧ fault ≠ .noCredentials) ∨
      ∃ store serverClients, storeFor settings o e w = (.ok store, { w with serverClients }) := by
  unfold storeFor
  cases o.store with
  | some store => exact .inr ⟨store, w.serverClients, rfl⟩
  | none => exact setUpStore_cases settings (some e) w

/-- The collection grows by the number of records that are told to be stored. -/
theorem storeRecords_cases (store : VectorStore) (collection : Value) (rs : List Record)
    (w : Surroundings σ) :
    (∃ fault w', storeRecords store collection rs w = (.error fault, w') ∧
        fault ≠ .noCredentials) ∨
      ∃ n server, storeRecords store collection rs w = (.ok n, { w with server }) ∧
        server.pointCount collection = w.server.pointCount collection + n ∧
        n ≤ rs.countP fun r => r.embedding.isSome := by
  rcases hcreate : store.create collection w.server with ⟨fault | made, made'⟩
  · refine .inl ⟨fault, { w with server := made' }, ?_,
      VectorStore.ne_noCredentials_of_create hcreate⟩
    exact Action.bind_of_error (onServer_of_eq hcreate)
  · obtain ⟨points, hholds, hlength⟩ := VectorStore.holds_of_create hcreate
    have hmade := onServer_of_eq hcreate
    rcases hupsert : store.upsert collection rs made' with ⟨fault | n, after⟩
    · refine .inl ⟨fault, { w with server := after }, ?_,
        VectorStore.ne_noCredentials_of_upsert hupsert⟩
      rw [storeRecords, Action.bind_of_ok hmade, onServer_of_eq hupsert]
    · obtain ⟨hcount, hle⟩ := VectorStore.pointCount_of_upsert hholds hupsert
      refine .inr ⟨n, after, ?_, hlength ▸ hcount, hle⟩
      rw [storeRecords, Action.bind_of_ok hmade, onServer_of_eq hupsert]

end Surroundings

/-! ## The whole run -/

/-- The counts of a report fit a survey and what became of the server: every entity is embedded, or
unembedded, or has a blank snippet; the collection has grown by the points that were upserted, each
of which is that of an embedded entity; and without one no call was made. -/
structure IndexingReport.Accounts (report : IndexingReport) (survey : Survey)
    (before after : VectorServer) : Prop where
  entities : report.entities = survey.entities.length
  parts : report.entities = report.embedded + report.unembedded +
    survey.entities.countP fun e => e.snippet.isBlank
  upserted_le : report.upserted ≤ report.embedded
  grown : after.pointCount report.collection =
    before.pointCount report.collection + report.upserted
  untouched : report.embedded = 0 → after = before

namespace Surroundings

/-- A report on an indexing run accounts for the entities of the survey and for what happened to the
server.  A run without credentials ends before a request is made, with everything as it was. -/
theorem index_accounts (settings : Value) (o : IndexingOptions) (root : Path)
    (w : Surroundings σ) :
    (∀ report w', index settings o root w = (.ok report, w') →
      ∃ rules survey, o.rules settings = .ok rules ∧
        w.files.survey w.parser root rules = .ok survey ∧
        report.Accounts survey w.server w'.server) ∧
    ∀ w', index settings o root w = (.error .noCredentials, w') → w' = w := by
  constructor
  · intro report w' h
    obtain ⟨collection, _, hcollection, h⟩ := Action.bind_eq_ok.1 h
    obtain ⟨-, rfl⟩ := ask_eq_ok.1 hcollection
    obtain ⟨survey, _, hasked, h⟩ := Action.bind_eq_ok.1 h
    obtain ⟨hread, rfl⟩ := ask_eq_ok.1 hasked
    obtain ⟨rules, hrules, hsurvey⟩ := bind_eq_ok.1 hread
    refine ⟨rules, survey, hrules, hsurvey, ?_⟩
    split at h
    · rename_i hempty
      cases h
      have hnone : survey.entities = [] := List.isEmpty_iff.1 hempty
      refine ⟨rfl, ?_, Nat.le_refl _, rfl, fun _ => rfl⟩
      simp [IndexingReport.ofSurvey, hnone]
    · obtain ⟨e, w₁, he, h⟩ := Action.bind_eq_ok.1 h
      obtain ⟨rs, w₂, hfill, h⟩ := Action.bind_eq_ok.1 h
      have hserver₁ : w₁.server = w.server := by
        obtain ⟨fault, hfails⟩ | ⟨_, _, hok⟩ := embedderFor_cases settings o w
        · cases hfails.symm.trans he
        · cases hok.symm.trans he
          rfl
      obtain ⟨hserver₂, hfilled⟩ : w₂.server = w.server ∧
          List.Forall₂ Record.MayBeFilled (survey.entities.map Entity.toRecord) rs := by
        obtain ⟨fault, hfails⟩ | ⟨_, _, _, hok, hfilled⟩ := fillRecords_cases settings e
          (survey.entities.map Entity.toRecord) w₁
        · cases hfails.symm.trans hfill
        · cases hok.symm.trans hfill
          exact ⟨hserver₁, hfilled⟩
      have hcounts := Record.counts_of_mayBeFilled
        (Workspace.areUnembedded_survey hsurvey) hfilled
      split at h
      · cases h
        refine ⟨rfl, hcounts, Nat.zero_le _, ?_, fun _ => hserver₂⟩
        rw [hserver₂]
        rfl
      · rename_i hsome
        obtain ⟨store, w₃, hstore, h⟩ := Action.bind_eq_ok.1 h
        obtain ⟨n, w₄, hstored, h⟩ := Action.bind_eq_ok.1 h
        cases h
        have hserver₃ : w₃.server = w.server := by
          obtain ⟨fault, hfails, -⟩ | ⟨_, _, hok⟩ := storeFor_cases settings o e w₂
          · cases hfails.symm.trans hstore
          · cases hok.symm.trans hstore
            exact hserver₂
        obtain ⟨fault, _, hfails, -⟩ | ⟨_, server, hok, hgrown, hle⟩ :=
          storeRecords_cases store collection rs w₃
        · cases hfails.symm.trans hstored
        · cases hok.symm.trans hstored
          rw [hserver₃] at hgrown
          exact ⟨rfl, hcounts, hle, hgrown, fun hzero => absurd hzero hsome⟩
  · intro w' h
    obtain hfails | ⟨collection, _, hcollection, h⟩ := Action.bind_eq_error.1 h
    · exact (ask_eq_error.1 hfails).2.symm
    obtain ⟨-, rfl⟩ := ask_eq_ok.1 hcollection
    obtain hfails | ⟨survey, _, hasked, h⟩ := Action.bind_eq_error.1 h
    · exact (ask_eq_error.1 hfails).2.symm
    obtain ⟨-, rfl⟩ := ask_eq_ok.1 hasked
    split at h
    · cases h
    · obtain hfails | ⟨e, w₁, -, h⟩ := Action.bind_eq_error.1 h
      · obtain ⟨fault, hembedder⟩ | ⟨_, _, hok⟩ := embedderFor_cases settings o w
        · cases hembedder.symm.trans hfails
          rfl
        · cases hok.symm.trans hfails
      obtain hfails | ⟨rs, w₂, -, h⟩ := Action.bind_eq_error.1 h
      · obtain ⟨fault, hdata⟩ | ⟨_, _, _, hok, -⟩ := fillRecords_cases settings e
          (survey.entities.map Entity.toRecord) w₁
        · cases hdata.symm.trans hfails
        · cases hok.symm.trans hfails
      split at h
      · cases h
      · obtain hfails | ⟨store, w₃, -, h⟩ := Action.bind_eq_error.1 h
        · obtain ⟨fault, hother, hne⟩ | ⟨_, _, hok⟩ := storeFor_cases settings o e w₂
          · cases hother.symm.trans hfails
            exact absurd rfl hne
          · cases hok.symm.trans hfails
        obtain hfails | ⟨n, w₄, -, h⟩ := Action.bind_eq_error.1 h
        · obtain ⟨fault, _, hother, hne⟩ | ⟨_, _, hok, -, -⟩ :=
            storeRecords_cases store collection rs w₃
          · cases hother.symm.trans hfails
            exact absurd rfl hne
          · cases hok.symm.trans hfails
        · cases h

/-! ### A folder with one import -/

def oneFile : Workspace where
  root := .folder true [("a.py", .file (Utf8.encode "import os\n"))]
  home := []

def importOs : Entity Text where
  name := "import os"
  signature := "import os"
  kind := Kind.importItem
  docstring := none
  line := 1
  lineFrom := 1
  lineTo := 1
  context := ⟨"a.py", "a.py", "import os", some "a", none⟩
  embedding := none

theorem findFiles_oneFile :
    oneFile.findFiles ⟨[], []⟩ (normalExtensions ["py"]) [] = .ok [⟨[], ["a.py"]⟩] := by
  have hspelled : Workspace.misspelled? (Path.text ⟨[], []⟩) = none := by
    decide
  have hentry : oneFile.entry? ⟨[], []⟩ = .ok (some oneFile.root) := by
    simp only [ Workspace.entry?, Workspace.locate, hspelled, Workspace.locateFrom]
    rfl
  rw [Workspace.findFiles, hentry]
  decide +kernel

theorem source_oneFile : oneFile.source ⟨[], ["a.py"]⟩ =
    .ok ⟨Grammar.python, Utf8.encode "import os\n", ⟨[], ["a.py"]⟩⟩ := by
  have hspelled : Workspace.misspelled? (Path.text ⟨[], ["a.py"]⟩) = none := by
    decide
  have hlocate : oneFile.locate .followed ⟨[], ["a.py"]⟩ =
      .ok ⟨["a.py"], some (.file (Utf8.encode "import os\n"))⟩ := by
    rw [Workspace.locate, hspelled]
    simp only [Workspace.locateFrom]
    rfl
  rw [Workspace.source, Workspace.read, hlocate]
  rfl

theorem survey_oneFile :
    oneFile.survey Workspace.oneImport ⟨[], []⟩ ⟨["py"], [], .null, .fine⟩ =
      .ok ⟨[importOs], 1, 0⟩ := by
  have hentities : (Workspace.oneImport "python" (Utf8.encode "import os\n")).entities
      ⟨Grammar.python, Utf8.encode "import os\n", ⟨[], ["a.py"]⟩⟩ .null = .ok [importOs] := by
    decide +kernel
  have hextract : oneFile.extract Workspace.oneImport ⟨[], ["a.py"]⟩ .null = .ok [importOs] := by
    rw [Workspace.extract, source_oneFile]
    exact hentities
  have hadded : Survey.addFiles oneFile Workspace.oneImport .null ⟨[], 1, 0⟩ [⟨[], ["a.py"]⟩] =
      .ok ⟨[importOs], 1, 0⟩ := by
    rw [Survey.addFiles, List.foldlM_cons, hextract]
    rfl
  have hmerged : mergeEntities .fine none [importOs] = [importOs] := by
    decide +kernel
  rw [Workspace.survey]
  simp only
  rw [findFiles_oneFile]
  change Survey.addFiles oneFile Workspace.oneImport .null ⟨[], 1, 0⟩ [⟨[], ["a.py"]⟩] >>= _ = _
  rw [hadded]
  change Outcome.ofData (.ok (⟨mergeEntities .fine none [importOs], 1, 0⟩ : Survey)) = _
  rw [hmerged]
  rfl

/-- The folder with a service that is busy at first and a server without collections. -/
def oneFileSurroundings : Surroundings (Text → Nat) :=
  { busySurroundings with files := oneFile, parser := Workspace.oneImport }

/-- An embedder has to come from the settings. -/
def keyless : IndexingOptions where
  collection := .text "units"
  extensions := .list [.text "py"]
  excluded := .list []
  granularity := .text "fine"
  store := some (VectorStore.make .null none 1 10)

def keyed : IndexingOptions := { keyless with embedder := some smallEmbedder }

theorem ask_collection_oneFile {o : IndexingOptions} (h : o.collection = .text "units") :
    ask (fun s : Surroundings (Text → Nat) => o.collectionFor (.object []) s.files ⟨[], []⟩)
      oneFileSurroundings = (.ok (.text "units"), oneFileSurroundings) := by
  rw [ask, IndexingOptions.collectionFor, h]
  rfl

theorem ask_survey_oneFile {o : IndexingOptions}
    (h : o.rules (.object []) = .ok ⟨["py"], [], .null, .fine⟩) :
    ask (fun s : Surroundings (Text → Nat) => do
      s.files.survey s.parser ⟨[], []⟩ (← o.rules (.object []))) oneFileSurroundings =
        (.ok ⟨[importOs], 1, 0⟩, oneFileSurroundings) := by
  rw [ask, h]
  exact congrArg (fun r => (r, oneFileSurroundings)) survey_oneFile

theorem index_accounts_oneFile :
    (∃ report w', index (.object []) keyed ⟨[], []⟩ oneFileSurroundings = (.ok report, w') ∧
      report.upserted = 1 ∧
      ∃ rules survey, keyed.rules (.object []) = .ok rules ∧
        oneFile.survey Workspace.oneImport ⟨[], []⟩ rules = .ok survey ∧
        report.Accounts survey oneFileSurroundings.server w'.server) ∧
    index (.object []) keyless ⟨[], []⟩ oneFileSurroundings =
      (.error .noCredentials, oneFileSurroundings) := by
  constructor
  · have hstored : (index (.object []) keyed ⟨[], []⟩
        oneFileSurroundings).1.toOption.map IndexingReport.upserted = some 1 := by
      rw [index, Action.bind_of_ok (ask_collection_oneFile rfl),
        Action.bind_of_ok (ask_survey_oneFile rfl)]
      decide +kernel
    rcases hrun : index (.object []) keyed ⟨[], []⟩ oneFileSurroundings with ⟨fault | report, w'⟩
    · rw [hrun] at hstored
      cases hstored
    · rw [hrun] at hstored
      exact ⟨report, w', rfl, Option.some.inj hstored,
        (index_accounts _ _ _ oneFileSurroundings).1 report w' hrun⟩
  · have hfails : (index (.object []) keyless ⟨[], []⟩ oneFileSurroundings).1 =
        .error .noCredentials := by
      rw [index, Action.bind_of_ok (ask_collection_oneFile rfl),
        Action.bind_of_ok (ask_survey_oneFile rfl)]
      rfl
    have hrun : index (.object []) keyless ⟨[], []⟩ oneFileSurroundings =
        (.error .noCredentials, (index (.object []) keyless ⟨[], []⟩ oneFileSurroundings).2) :=
      Prod.ext hfails rfl
    have hsame := (index_accounts (.object []) keyless ⟨[], []⟩ oneFileSurroundings).2 _ hrun
    rwa [hsame] at hrun

end Surroundings

end CodeCatalog
