import CodeCatalog.Command
import CodeCatalog.Proofs.Backoff
import CodeCatalog.Proofs.Command.Form
import CodeCatalog.Proofs.Embedding.Apart
import CodeCatalog.Proofs.Store.Calls
import CodeCatalog.Proofs.Surroundings
import CodeCatalog.Proofs.Text.Utf8
import CodeCatalog.Proofs.Value.Written
set_option autoImplicit false

/-!
# How a query command ends

The request, the settings and the files of a query command are dealt with in such a way that every
fault of theirs is reported.  What is left are three ways in which a fault escapes: the embedding
service fails of anything but the input, the reading of a payload breaks, and what was found cannot
be printed, since a value has no JSON form or the console does not take a piece of the document.
-/

namespace CodeCatalog

variable {σ : Type}

/-! ## Faults that escape -/

/-- A result is a fault that no command reports. -/
def Escapes {α : Type} (r : Outcome α) (fault : Fault) : Prop :=
  r = .error fault ∧ fault.isReported = false

section

variable {α β : Type} {f fault : Fault}

@[simp] theorem not_escapes_ok {a : α} : ¬ Escapes (.ok a) fault := by
  rintro ⟨h, _⟩
  cases h

@[simp] theorem escapes_error :
    Escapes (.error f : Outcome α) fault ↔ f = fault ∧ f.isReported = false := by
  constructor
  · rintro ⟨h, hfault⟩
    cases h
    exact ⟨rfl, hfault⟩
  · rintro ⟨rfl, hf⟩
    exact ⟨rfl, hf⟩

theorem escapes_map {r : Outcome α} {g : α → β} : Escapes (r.map g) fault ↔ Escapes r fault := by
  cases r with
  | ok a => exact iff_of_false not_escapes_ok not_escapes_ok
  | error f => exact escapes_error.trans escapes_error.symm

/-- From a traversal escapes what escapes from its first step that fails. -/
theorem escapes_mapM {step : α → Outcome β} {xs : List α} :
    Escapes (xs.mapM step) fault ↔
      ∃ before x after, xs = before ++ x :: after ∧ (∀ y ∈ before, ∃ b, step y = .ok b) ∧
        Escapes (step x) fault := by
  unfold Escapes
  rw [mapM_eq_error]
  constructor
  · rintro ⟨⟨before, x, after, hxs, hbefore, hx⟩, hfault⟩
    exact ⟨before, x, after, hxs, hbefore, hx, hfault⟩
  · rintro ⟨before, x, after, hxs, hbefore, hx, hfault⟩
    exact ⟨⟨before, x, after, hxs, hbefore, hx⟩, hfault⟩

end

/-! ## Embedding the text -/

namespace Embedder

variable {e : Embedder} {t name : Text}

/-- A text without lone surrogates can be cut for a model with a name. -/
theorem exists_prepareText (hmodel : e.model = .text name) (ht : t.isScalar = true) :
    ∃ sent, e.prepareText t = .ok sent := by
  have hbytes : Utf8.encode? t = .ok (Utf8.encode t) := Utf8.encode?_eq_ok.2 ⟨ht, rfl⟩
  have htail : e.model.tokenTail = .ok (tokenTail name) := by
    rw [hmodel]
    rfl
  rw [prepareText, Text.cutToTokens, Text.mayExceed, hbytes, htail]
  simp only [bind, Except.bind, pure, Except.pure]
  split
  · split
    · exact ⟨_, rfl⟩
    · exact ⟨_, rfl⟩
  · exact ⟨_, rfl⟩

end Embedder

namespace Surroundings

variable {e : Embedder} {t name : Text} {fault : Fault}

/-- The vector of a text depends on the service alone, and nothing else changes. -/
theorem embedQuery_eq (e : Embedder) (t : Text) (w : Surroundings σ) :
    ∃ outcome serviceState, ∀ embeddingClients serverClients,
      embedQuery e (.text t) { w with embeddingClients, serverClients } =
        (outcome, { w with serviceState, embeddingClients, serverClients }) := by
  cases hretry : Backoff.standard.retry Fault.isTransient w.draw (e.embedText w.service t)
      Backoff.callLimit w.serviceState with
  | some r => exact ⟨r.outcome, r.state, fun _ _ => by simp [embedQuery, hretry]⟩
  | none =>
    exact ⟨.error (.service .timedOut), w.serviceState, fun _ _ => by simp [embedQuery, hretry]⟩

/-- A text that can be cut fails with a fault of the service or for the length of its reply. -/
theorem embedQuery_eq_error {w : Surroundings σ} (hmodel : e.model = .text name)
    (ht : t.isScalar = true) (h : (embedQuery e (.text t) w).1 = .error fault) :
    (∃ f, fault = .service f) ∨ ∃ n, fault = .wrongCount 1 n := by
  obtain ⟨sent, hsent⟩ := e.exists_prepareText hmodel ht
  unfold embedQuery at h
  dsimp only at h
  split at h
  · rename_i r hretry
    obtain ⟨now, state, hcall⟩ := Backoff.exists_call hretry
    rw [Embedder.embedText_of_ok hsent] at hcall
    simp only at h
    rw [h] at hcall
    cases hreply : (w.service.send state now e.model [sent]).reply with
    | error f =>
      rw [hreply] at hcall
      cases hcall
      exact .inl ⟨f, rfl⟩
    | ok items =>
      rw [hreply] at hcall
      simp only [Embedder.vectorOf, Embedder.vectors] at hcall
      split at hcall
      · cases hcall
      · cases hcall
        exact .inr ⟨_, rfl⟩
  · cases h
    exact .inl ⟨_, rfl⟩

/-- From embedding a text a fault escapes exactly if the service fails of anything but the input. -/
theorem embedQuery_escapes_iff {w : Surroundings σ} (hmodel : e.model = .text name)
    (ht : t.isScalar = true) :
    Escapes (embedQuery e (.text t) w).1 fault ↔
      ∃ f, fault = .service f ∧ f ≠ .badInput ∧
        (embedQuery e (.text t) w).1 = .error (.service f) := by
  constructor
  · rintro ⟨h, hfault⟩
    obtain ⟨f, rfl⟩ | ⟨n, rfl⟩ := embedQuery_eq_error hmodel ht h
    · refine ⟨f, rfl, ?_, h⟩
      rintro rfl
      cases hfault
    · cases hfault
  · rintro ⟨f, rfl, hf, h⟩
    refine ⟨h, ?_⟩
    simpa [Fault.isReported] using hf

end Surroundings

/-! ## Searching -/

namespace VectorStore

variable {S : Type} {ranked : List Point → List (S × Point)} {name topK : Value}
  {s : VectorServer} {fault : Fault}

/-- A hit can be read where its payload can. -/
theorem exists_hit_iff {hit : S × Point} :
    (∃ b, ((recordOf name hit.2).map fun r => (hit.1, r) : Outcome (S × Record)) = .ok b) ↔
      ∃ r, Record.ofValue (payloadOf hit.2) = .ok r := by
  unfold recordOf
  cases Record.ofValue (payloadOf hit.2) with
  | ok r => simp [Except.map]
  | error f => simp [Except.map]

/-- A payload that cannot be read is told of, unless its reading breaks. -/
theorem recordOf_escapes_iff {p : Point} :
    Escapes (recordOf name p) fault ↔
      ∃ cause, fault = .data cause ∧ Record.Breaks (payloadOf p) cause := by
  simp only [← Record.breaksWith_ofValue]
  unfold recordOf
  cases Record.ofValue (payloadOf p) with
  | ok r => simp
  | error f =>
    simp only [breaksWith_error, escapes_error]
    by_cases hf : f.isMalformed = true
    · simp [hf, Fault.isReported]
    · constructor
      · rintro ⟨rfl, -⟩
        exact ⟨f, if_neg hf, rfl, by simpa using hf⟩
      · rintro ⟨_, rfl, rfl, -⟩
        rw [if_neg hf]
        exact ⟨rfl, rfl⟩

/-- From a search a fault escapes exactly if the reading of a hit breaks and the better ones can be
read. -/
theorem searchRanked_escapes_iff :
    Escapes (searchRanked ranked name topK s).1 fault ↔
      ∃ before hit after cause, fault = .data cause ∧
        (VectorServer.query ranked name topK s).1 = .ok (before ++ hit :: after) ∧
        (∀ h ∈ before, ∃ r, Record.ofValue (payloadOf h.2) = .ok r) ∧
        Record.Breaks (payloadOf hit.2) cause := by
  unfold searchRanked
  obtain ⟨hits, hhits, hfound⟩ | ⟨cause, hhits, hfails⟩ :=
    call_cases (.queryFailed name.shown) (VectorServer.query ranked name topK) s
  · rw [Action.bind_of_ok hfound, hhits, Action.ofOutcome, escapes_mapM]
    simp only [exists_hit_iff, escapes_map, recordOf_escapes_iff, Except.ok.injEq]
    constructor
    · rintro ⟨before, hit, after, hsplit, hbefore, cause, rfl, hbreaks⟩
      exact ⟨before, hit, after, cause, rfl, hsplit, hbefore, hbreaks⟩
    · rintro ⟨before, hit, after, cause, rfl, hsplit, hbefore, hbreaks⟩
      exact ⟨before, hit, after, hsplit, hbefore, cause, rfl, hbreaks⟩
  · rw [Action.bind_of_error hfails, hhits]
    simp [Fault.isReported]

end VectorStore

namespace Surroundings

variable {store : VectorStore} {e : Embedder} {collection text topK : Value}
  {w w' : Surroundings σ}

theorem query_of_error {f : Fault} (hstore : store.embedder = some e)
    (h : embedQuery e text w = (.error f, w')) :
    query store collection text topK w = (.error f, w') := by
  rw [query, hstore]
  exact Action.bind_of_error h

/-- With the vector of the text a query is a search. -/
theorem query_of_ok {vector : List Double} (hstore : store.embedder = some e)
    (h : embedQuery e text w = (.ok vector, w')) :
    query store collection text topK w =
      ((VectorStore.search collection vector topK w'.server).1.map fun hits =>
          hits.map Prod.snd,
        { w' with server := (VectorStore.search collection vector topK w'.server).2 }) := by
  rw [query, hstore]
  dsimp only
  rw [Action.bind_of_ok h]
  rcases hsearch : VectorStore.search collection vector topK w'.server with ⟨f | hits, server⟩
  · rw [Action.bind_of_error (onServer_of_eq hsearch)]
    rfl
  · rw [Action.bind_of_ok (onServer_of_eq hsearch)]
    rfl

end Surroundings

/-! ## Putting out what was found -/

/-- A file that cannot be written is told of. -/
theorem IndexFile.exists_cause_of_write {rs : List Record} {p : Path} {access : Access}
    {w : Workspace} {fault : Fault} (h : (write rs p access w).1 = .error fault) :
    ∃ cause, fault = .writeFailed p.text cause := by
  unfold write at h
  split at h
  · cases h
    exact ⟨_, rfl⟩
  · split at h
    · cases h
      exact ⟨_, rfl⟩
    · dsimp only at h
      split at h
      · cases h
        exact ⟨_, rfl⟩
      · split at h
        · cases h
        · cases h
          exact ⟨_, rfl⟩

namespace Console

variable {c : Console} {p : Value.Printed} {fault : Fault}

/-- No command reports that a document is not printed to its end. -/
theorem isReported_of_fault? (h : c.fault? p = some fault) : fault.isReported = false := by
  obtain hrefused | ⟨-, hstop⟩ := Option.or_eq_some_iff.1 h
  · obtain ⟨t, -, ht⟩ := List.exists_of_findSome?_eq_some hrefused
    exact c.passed t fault ht
  · obtain ⟨cause, -, rfl⟩ := Option.map_eq_some_iff.1 hstop
    rfl

theorem refusal?_utf8_eq_none {t : Text} : utf8.refusal? t = none ↔ t.isScalar = true := by
  change utf8Refusal? t = none ↔ _
  unfold utf8Refusal?
  cases hbytes : Utf8.encode? t with
  | ok bytes => simp [(Utf8.encode?_eq_ok.1 hbytes).1]
  | error u =>
    refine iff_of_false (by simp) fun ht => ?_
    cases hbytes.symm.trans (Utf8.encode?_eq_ok.2 ⟨ht, rfl⟩)

/-- A stream of UTF-8 prints to its end what a file can hold. -/
theorem fault?_utf8_eq_none : utf8.fault? p = none ↔ p.IsWritable := by
  rw [fault?, Option.or_eq_none_iff, Option.map_eq_none_iff, List.findSome?_eq_none_iff]
  simp only [refusal?_utf8_eq_none]
  exact and_comm

end Console

namespace Surroundings

variable {w : Surroundings σ} {p : Value.Printed} {fault : Fault}

/-- From printing escapes whatever keeps it from its end. -/
theorem print_escapes_iff : Escapes (print p w).1 fault ↔ w.console.fault? p = some fault := by
  unfold print
  cases hstop : w.console.fault? p with
  | none => exact iff_of_false not_escapes_ok (by simp)
  | some f => simp [Console.isReported_of_fault? hstop]

end Surroundings

namespace Command

/-- A stream of UTF-8 prints records if a file can hold each of them. -/
theorem fault?_utf8_listing_eq_none {rs : List Record} :
    Console.utf8.fault? (listing rs) = none ↔
      ∀ r ∈ rs, (Value.print 1 r.toValue).IsWritable := by
  have hend : (Value.Printed.piece "\n").IsWritable := Value.Printed.isWritable_piece.2 rfl
  rw [Console.fault?_utf8_eq_none, listing, Value.Printed.isWritable_append, and_iff_left hend,
    Record.document, Value.isWritable_print_list, List.forall_mem_map]

/-- From putting out records a fault escapes exactly if they are printed and cannot be. -/
theorem emit_escapes_iff {rs : List Record} {output : Value} {w : Surroundings σ} {fault : Fault}
    (houtput : output.IsArgument) :
    Escapes (emit rs output w).1 fault ↔
      output.isPresent = false ∧ w.console.fault? (listing rs) = some fault := by
  unfold emit
  cases hpresent : output.isPresent with
  | true =>
    obtain ⟨t, rfl⟩ := houtput.exists_text hpresent
    refine iff_of_false ?_ (by simp)
    have hpath : pathOf (.text t) w = (.ok (Path.parse t), w) := rfl
    rcases hwrite : IndexFile.write rs (Path.parse t) w.access w.files with ⟨f | done, files⟩
    · obtain ⟨cause, rfl⟩ := IndexFile.exists_cause_of_write (congrArg Prod.fst hwrite)
      have hfails := Surroundings.writeIndex_of_eq hwrite
      rw [if_pos rfl, Action.bind_of_ok hpath, Action.bind_of_error hfails]
      simp [Fault.isReported]
    · have hwritten := Surroundings.writeIndex_of_eq hwrite
      rw [if_pos rfl, Action.bind_of_ok hpath, Action.bind_of_ok hwritten]
      exact not_escapes_ok
  | false =>
    rw [if_neg Bool.false_ne_true, Surroundings.print_escapes_iff]
    exact (and_iff_right rfl).symm

/-! ## Running the command -/

/-- The settings of a query command. -/
def querySettings (env : Environment) (serverUrl : Value) (options : Embedder.Given) : Value :=
  Settings.load env [("embedding", optionOverrides options), serverOverride serverUrl]

/-- The settings of a query command suffice whatever the environment is. -/
theorem exists_querySettings (env : Environment) (serverUrl : Value) {options : Embedder.Given}
    (hmodel : options.model.IsArgument) :
    ∃ members, querySettings env serverUrl options = .object members ∧
      Settings.Suffices members := by
  refine ⟨_, rfl, ?_⟩
  apply (Settings.suffices_ofEnvironment env).overrideAll
  · intro part hpart
    exact hpart.overrideAll hmodel
  · intro part hpart
    exact hpart.overrideAll

/-- How a fault escapes from a query for valid parameters with an embedder. -/
inductive QueryEscapes (e : Embedder) (r : SearchRequest) (output : Value) (w : Surroundings σ) :
    Fault → Prop
  /-- The service fails; only that it cannot use the input is told. -/
  | service {f : ServiceFault}
    (hembed : (Surroundings.embedQuery e (.text r.text) w).1 = .error (.service f))
    (hf : f ≠ .badInput) : QueryEscapes e r output w (.service f)
  /-- The reading of a payload that was found breaks. -/
  | payload {vector : List Double} {before after : List (Double × Point)} {hit : Double × Point}
    {cause : DataFault}
    (hembed : (Surroundings.embedQuery e (.text r.text) w).1 = .ok vector)
    (hhits : (VectorServer.query (rankNearest vector) (.text r.collection) (.int r.topK)
      w.server).1 = .ok (before ++ hit :: after))
    (hbefore : ∀ h ∈ before, ∃ found, Record.ofValue (VectorStore.payloadOf h.2) = .ok found)
    (hbreaks : Record.Breaks (VectorStore.payloadOf hit.2) cause) :
    QueryEscapes e r output w (.data cause)
  /-- What was found is to be printed and cannot be. -/
  | printing {vector : List Double} {hits : List (Double × Record)} {fault : Fault}
    (hembed : (Surroundings.embedQuery e (.text r.text) w).1 = .ok vector)
    (hhits : (VectorStore.search (.text r.collection) vector (.int r.topK) w.server).1 = .ok hits)
    (houtput : output.isPresent = false)
    (hprint : w.console.fault? (listing (hits.map Prod.snd)) = some fault) :
    QueryEscapes e r output w fault

namespace QueryEscapes

variable {e : Embedder} {r : SearchRequest} {output : Value} {w : Surroundings σ} {f fault : Fault}
  {name : Text} {vector : List Double}

/-- Where the text is not embedded the fault of the service escapes. -/
theorem iff_of_embed_error (hname : e.model = .text name) (htext : r.text.isScalar = true)
    (hembed : (Surroundings.embedQuery e (.text r.text) w).1 = .error f) :
    QueryEscapes e r output w fault ↔ Escapes (.error f : Outcome Unit) fault := by
  constructor
  · intro h
    cases h with
    | service hfails hf =>
      cases hembed.symm.trans hfails
      exact ⟨rfl, by simpa [Fault.isReported] using hf⟩
    | payload hvector => cases hembed.symm.trans hvector
    | printing hvector => cases hembed.symm.trans hvector
  · rintro ⟨h, hfault⟩
    cases h
    obtain ⟨f, rfl, hf, hfails⟩ :=
      (Surroundings.embedQuery_escapes_iff hname htext).1 ⟨hembed, hfault⟩
    exact .service hfails hf

/-- Where the search fails a fault escapes if a payload breaks. -/
theorem iff_of_search_error
    (hembed : (Surroundings.embedQuery e (.text r.text) w).1 = .ok vector)
    (hsearch : (VectorStore.search (.text r.collection) vector (.int r.topK) w.server).1 =
      .error f) :
    QueryEscapes e r output w fault ↔ Escapes (.error f : Outcome Unit) fault := by
  constructor
  · intro h
    cases h with
    | service hfails _ => cases hembed.symm.trans hfails
    | payload hvector hhits hbefore hbreaks =>
      cases hembed.symm.trans hvector
      have hescapes := VectorStore.searchRanked_escapes_iff.2
        ⟨_, _, _, _, rfl, hhits, hbefore, hbreaks⟩
      cases hsearch.symm.trans hescapes.1
      exact ⟨rfl, rfl⟩
    | printing hvector hhits _ _ =>
      cases hembed.symm.trans hvector
      cases hsearch.symm.trans hhits
  · rintro ⟨h, hfault⟩
    cases h
    obtain ⟨before, hit, after, cause, rfl, hhits, hbefore, hbreaks⟩ :=
      VectorStore.searchRanked_escapes_iff.1 ⟨hsearch, hfault⟩
    exact .payload hembed hhits hbefore hbreaks

/-- Where something was found a fault escapes if it cannot be printed. -/
theorem iff_of_search_ok {hits : List (Double × Record)}
    (hembed : (Surroundings.embedQuery e (.text r.text) w).1 = .ok vector)
    (hsearch : (VectorStore.search (.text r.collection) vector (.int r.topK) w.server).1 =
      .ok hits) :
    QueryEscapes e r output w fault ↔
      output.isPresent = false ∧
        w.console.fault? (listing (hits.map Prod.snd)) = some fault := by
  constructor
  · intro h
    cases h with
    | service hfails _ => cases hembed.symm.trans hfails
    | payload hvector hhits hbefore hbreaks =>
      cases hembed.symm.trans hvector
      have hescapes := VectorStore.searchRanked_escapes_iff.2
        ⟨_, _, _, _, rfl, hhits, hbefore, hbreaks⟩
      cases hsearch.symm.trans hescapes.1
    | printing hvector hhits houtput hprint =>
      cases hembed.symm.trans hvector
      cases hsearch.symm.trans hhits
      exact ⟨houtput, hprint⟩
  · rintro ⟨houtput, hprint⟩
    exact .printing hembed hsearch houtput hprint

end QueryEscapes

open Surroundings in
/-- A fault escapes from a query exactly in one of these ways. -/
theorem find_escapes_iff {r : SearchRequest} {serverUrl output : Value} {options : Embedder.Given}
    {w : Surroundings σ} {fault : Fault} (hmodel : options.model.IsArgument)
    (houtput : output.IsArgument) (htext : r.text.isScalar = true) :
    Escapes (find r serverUrl output options w).1 fault ↔
      ∃ e, Embedder.ofSettings (querySettings w.environment serverUrl options) {} = .ok e ∧
        QueryEscapes e r output w fault := by
  obtain ⟨members, hmembers, hsuffices⟩ := exists_querySettings w.environment serverUrl hmodel
  have hsettings : settings [("embedding", optionOverrides options), serverOverride serverUrl] w =
      (.ok (.object members), w) := congrArg (fun v => (Except.ok v, w)) hmembers
  rw [find, Action.bind_of_ok hsettings, hmembers]
  obtain hnone | ⟨e, name, hsome, hname⟩ := Embedder.ofSettings_cases hsuffices
  · rw [Action.bind_of_error (setUpEmbedder_of_error hnone), hnone]
    simp [Fault.isReported]
  · obtain ⟨made, hmade, hembedder⟩ := VectorStore.exists_ofSettings hsuffices e
    rw [Action.bind_of_ok (setUpEmbedder_of_ok hsome), Action.bind_of_ok (setUpStore_of_ok hmade)]
    obtain ⟨outcome, serviceState, hembed⟩ := embedQuery_eq e r.text w
    have hown : (embedQuery e (.text r.text) w).1 = outcome :=
      congrArg Prod.fst (hembed w.embeddingClients w.serverClients)
    have hset := hembed (w.embeddingClients ++ e.clients) (w.serverClients ++ [made.2])
    simp only [hsome, Except.ok.injEq, exists_eq_left']
    cases outcome with
    | error f =>
      rw [Action.bind_of_error (query_of_error hembedder hset),
        QueryEscapes.iff_of_embed_error hname htext hown]
      exact escapes_error.trans escapes_error.symm
    | ok vector =>
      have hquery : Surroundings.query made.1 (.text r.collection) (.text r.text) (.int r.topK) _ =
          _ := query_of_ok hembedder hset
      dsimp only at hquery
      rcases hsearch : VectorStore.search (.text r.collection) vector (.int r.topK) w.server with
        ⟨f | hits, server⟩
      · rw [hsearch] at hquery
        rw [Action.bind_of_error hquery,
          QueryEscapes.iff_of_search_error hown (congrArg Prod.fst hsearch)]
        exact escapes_error.trans escapes_error.symm
      · rw [hsearch] at hquery
        rw [Action.bind_of_ok hquery, emit_escapes_iff houtput,
          QueryEscapes.iff_of_search_ok hown (congrArg Prod.fst hsearch)]

/-- From a command line that is accepted escapes what escapes from its command. -/
theorem main_eq_error_iff {args : List Text} {command : Command} {w : Surroundings σ}
    {fault : Fault} (hargs : ofArguments args = .ok command) :
    (main args w).1 = .error fault ↔ Escapes (command.run w).1 fault := by
  rw [main, hargs]
  dsimp only
  rcases hrun : command.run w with ⟨f | (violations | output), w'⟩
  · dsimp only
    by_cases hf : f.isReported = true
    · simp [hf]
    · simp [hf, escapes_error]
  · exact iff_of_false nofun not_escapes_ok
  · exact iff_of_false nofun not_escapes_ok

/-- A reply tells of a result, of an invalid request, or of a fault of the catalog. -/
theorem main_eq_ok_cases {args : List Text} {command : Command} {w : Surroundings σ}
    {reply : Reply} (hargs : ofArguments args = .ok command) (h : (main args w).1 = .ok reply) :
    (∃ output, (command.run w).1 = .ok (.ok output) ∧ reply = ⟨0, output, []⟩) ∨
      (∃ violations, (command.run w).1 = .ok (.error violations) ∧
        reply = ⟨2, [], violationReport violations⟩) ∨
      ∃ f, (command.run w).1 = .error f ∧ f.isReported = true ∧
        reply = ⟨1, [], line ("Error: " ++ f.message)⟩ := by
  rw [main, hargs] at h
  dsimp only at h
  rcases hrun : command.run w with ⟨f | (violations | output), w'⟩
  · rw [hrun] at h
    dsimp only at h
    split at h
    · rename_i hf
      cases h
      exact .inr (.inr ⟨f, rfl, hf, rfl⟩)
    · cases h
  · rw [hrun] at h
    cases h
    exact .inr (.inl ⟨violations, rfl, rfl⟩)
  · rw [hrun] at h
    cases h
    exact .inl ⟨output, rfl, rfl⟩

/-- The text of a query can be encoded. -/
theorem isScalar_of_queryText {place : List Request.Step} {v : Value} {t : Text}
    (h : Request.queryText place v = .ok t) : t.isScalar = true := by
  obtain ⟨t', hsome, h⟩ := bind_eq_ok.1 h
  obtain ⟨t'', -, hsome⟩ := bind_eq_ok.1 hsome
  have hsame : t' = t := by
    split at h
    · cases h
    · exact Except.ok.inj h
  split at hsome
  · cases hsome
  · rename_i hscalar
    split at hsome
    · cases hsome
    · rw [← hsame, ← Except.ok.inj hsome]
      simpa using hscalar

theorem isScalar_text_of_check {data : List (Text × Value)} {r : SearchRequest}
    (h : SearchRequest.check data = .ok r) : r.text.isScalar = true := by
  simp only [SearchRequest.check] at h
  split at h
  · rename_i collection t topK _ htext _
    cases h
    unfold Request.required at htext
    split at htext
    · exact isScalar_of_queryText htext
    · cases htext
  · cases h

/-- The data of the request that the arguments of a query make. -/
def queryData (text collection topK : Value) : List (Text × Value) :=
  [("collection", collection), ("text", text), ("top_k", topK)]

/-- A query command whose arguments make no valid request exits with status 2.  With a valid request
it exits with status 0, or with status 1 and a report on one line, unless a fault escapes; and that
is the case exactly if there are credentials and the service fails of anything but the input, the
reading of a payload that was found breaks, or what was found is to be printed and cannot be. -/
theorem main_query_escapes_iff {args : List Text} {text collection topK serverUrl output : Value}
    {options : Embedder.Given}
    (hargs : ofArguments args = .ok (.query text collection topK serverUrl output options))
    (w : Surroundings σ) :
    (∀ violations, SearchRequest.check (queryData text collection topK) = .error violations →
      main args w = (.ok ⟨2, [], violationReport violations⟩, w)) ∧
    ∀ r, SearchRequest.check (queryData text collection topK) = .ok r →
      (∀ reply, (main args w).1 = .ok reply →
        (∃ found, reply = ⟨0, found, []⟩) ∨
        ∃ f : Fault, f.isReported = true ∧ reply = ⟨1, [], line ("Error: " ++ f.message)⟩) ∧
      ∀ fault, (main args w).1 = .error fault ↔
        ∃ e, Embedder.ofSettings (querySettings w.environment serverUrl options) {} = .ok e ∧
          QueryEscapes e r output w fault := by
  obtain ⟨hmodel, houtput⟩ := isArgument_of_query hargs
  have hrun : ∀ {check}, SearchRequest.check (queryData text collection topK) = check →
      (query text collection topK serverUrl output options).run w =
        ifValid check (fun r => find r serverUrl output options) w := by
    rintro _ rfl
    rfl
  constructor
  · intro violations hcheck
    rw [main, hargs]
    dsimp only
    rw [hrun hcheck]
    rfl
  · intro r hcheck
    have hbranch : (query text collection topK serverUrl output options).run w =
        (((find r serverUrl output options w).1.map .ok : Outcome Result),
          (find r serverUrl output options w).2) :=
      (hrun hcheck).trans (Action.map_apply _ _ _)
    constructor
    · intro reply hreply
      obtain ⟨found, -, rfl⟩ | ⟨violations, hviolations, -⟩ | ⟨f, -, hf, rfl⟩ :=
        main_eq_ok_cases hargs hreply
      · exact .inl ⟨found, rfl⟩
      · rw [hbranch] at hviolations
        cases hfound : (find r serverUrl output options w).1 with
        | ok found =>
          rw [hfound] at hviolations
          cases hviolations
        | error f =>
          rw [hfound] at hviolations
          cases hviolations
      · exact .inr ⟨f, hf, rfl⟩
    · intro fault
      rw [main_eq_error_iff hargs,
        ← find_escapes_iff hmodel houtput (isScalar_text_of_check hcheck), hbranch]
      exact escapes_map

/-! A service that rejects the key. -/

/-- An environment with a key, a service that rejects it, a server without collections, and a
console of UTF-8. -/
def rejecting : Surroundings ScriptedService where
  files := ⟨.folder true [], []⟩
  environment := [("OPENAI_API_KEY", "k")]
  parser := fun _ _ => .noTree
  service := ScriptedService.endpoint
  serviceState := { broken := [("bad", .badCredentials)] }
  server := {}
  console := .utf8
  draw := Double.zero

theorem ofArguments_rejected : ofArguments ["query", "bad", "--collection", "c"] =
    .ok (.query (.text "bad") (.text "c") (.int 10) .null .null {}) := by
  with_unfolding_all rfl

theorem main_query_escapes_iff_rejecting :
    ofArguments ["query", "bad", "--collection", "c"] =
      .ok (.query (.text "bad") (.text "c") (.int 10) .null .null {}) ∧
    SearchRequest.check (queryData (.text "bad") (.text "c") (.int 10)) = .ok ⟨"c", "bad", 10⟩ ∧
    ∀ fault, (main ["query", "bad", "--collection", "c"] rejecting).1 = .error fault ↔
      ∃ e, Embedder.ofSettings (querySettings rejecting.environment .null {}) {} = .ok e ∧
        QueryEscapes e ⟨"c", "bad", 10⟩ .null rejecting fault := by
  have hcheck : SearchRequest.check (queryData (.text "bad") (.text "c") (.int 10)) =
      .ok ⟨"c", "bad", 10⟩ := by
    decide +kernel
  refine ⟨ofArguments_rejected, hcheck, ?_⟩
  exact ((main_query_escapes_iff ofArguments_rejected rejecting).2 _ hcheck).2

/-- The key is rejected, and the command ends without an exit status. -/
theorem main_rejected : (main ["query", "bad", "--collection", "c"] rejecting).1 =
    .error (.service .badCredentials) := by
  rw [main, ofArguments_rejected]
  decide +kernel

end Command

end CodeCatalog
