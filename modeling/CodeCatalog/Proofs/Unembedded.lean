import CodeCatalog.Proofs.Entity.Reading
import CodeCatalog.Proofs.Survey
set_option autoImplicit false

/-!
# Entities without vectors

Extraction gives no vector to an entity, and neither a chunk nor a merged entity takes one from
what it was made of.  So no entity of a survey has a vector, whatever the bound and the level of
granularity are.
-/

namespace CodeCatalog

/-- No entity has a vector. -/
def AreUnembedded {τ : Type} (es : List (Entity τ)) : Prop := ∀ e ∈ es, e.embedding = none

theorem AreUnembedded.append {τ : Type} {es others : List (Entity τ)} (h : AreUnembedded es)
    (h' : AreUnembedded others) : AreUnembedded (es ++ others) := by
  intro e he
  rcases List.mem_append.1 he with he | he
  · exact h e he
  · exact h' e he

section

variable {τ : Type} [Fragment τ]

/-! ## Splitting -/

namespace Entity

variable {e : Entity τ}

theorem areUnembedded_chunksFrom (total number : Nat) (runs : List PlacedRun) :
    AreUnembedded (e.chunksFrom total number runs) := by
  induction runs generalizing number with
  | nil =>
    intro c hc
    cases hc
  | cons run rest ih =>
    intro c hc
    rcases List.mem_cons.1 hc with rfl | hc
    · rfl
    · exact ih (number + 1) c hc

theorem areUnembedded_splitWithin {bound : Value} {es : List (Entity τ)}
    (he : e.embedding = none) (h : e.splitWithin bound = .ok es) : AreUnembedded es := by
  have hself : AreUnembedded [e] := by
    intro c hc
    rwa [List.mem_singleton.1 hc]
  unfold splitWithin at h
  split at h
  · cases h
    exact hself
  · obtain ⟨size, -, h⟩ := bind_eq_ok.1 h
    obtain ⟨limit, -, h⟩ := bind_eq_ok.1 h
    split at h
    · cases h
      exact hself
    · obtain ⟨lines, -, h⟩ := bind_eq_ok.1 h
      cases h
      exact areUnembedded_chunksFrom _ _ _

theorem areUnembedded_splitAll {bound : Value} {es split : List (Entity τ)}
    (hes : AreUnembedded es) (h : splitAll bound es = .ok split) : AreUnembedded split := by
  unfold splitAll at h
  cases hlists : es.mapM (splitWithin bound) with
  | error f =>
    rw [hlists] at h
    cases h
  | ok lists =>
    rw [hlists] at h
    cases h
    intro c hc
    obtain ⟨part, hpart, hc⟩ := List.mem_flatten.1 hc
    obtain ⟨e, he, hsplit⟩ := exists_of_mem_mapM hlists hpart
    exact areUnembedded_splitWithin (hes e he) hsplit c hc

/-! ## Merging -/

theorem embedding_of_mergeGroup {first merged : Entity τ} {more : List (Entity τ)}
    (hfirst : first.embedding = none) (h : first.mergeGroup more = .ok merged) :
    merged.embedding = none := by
  unfold mergeGroup at h
  split at h
  · cases h
    exact hfirst
  · obtain ⟨kind, -, h⟩ := bind_eq_ok.1 h
    obtain ⟨signature, -, h⟩ := bind_eq_ok.1 h
    obtain ⟨snippet, -, h⟩ := bind_eq_ok.1 h
    cases h
    rfl

end Entity

namespace CheckedGathering

variable {g : CheckedGathering τ}

theorem first_of_openAt {e : Entity τ} {group : OpenGroup τ} (h : g.openAt e = .ok group) :
    group.first = e := by
  obtain ⟨opens, -, h⟩ := bind_eq_ok.1 h
  split at h
  · obtain ⟨size, -, h⟩ := bind_eq_ok.1 h
    cases h
    rfl
  · cases h
    rfl

theorem first_of_extend? {group wider : OpenGroup τ} {e : Entity τ}
    (h : g.extend? group e = .ok (some wider)) : wider.first = group.first := by
  unfold extend? at h
  split at h
  · cases h
  · obtain ⟨size, -, h⟩ := bind_eq_ok.1 h
    obtain ⟨exceeded, -, h⟩ := bind_eq_ok.1 h
    split at h <;> cases h
    rfl

/-- A group's entity depends on the first member for what it does not make anew. -/
theorem areUnembedded_mergeFrom {group : OpenGroup τ} {es merged : List (Entity τ)}
    (hfirst : group.first.embedding = none) (hes : AreUnembedded es)
    (h : g.mergeFrom group es = .ok merged) : AreUnembedded merged := by
  induction es generalizing group merged with
  | nil =>
    obtain ⟨e, he, h⟩ := bind_eq_ok.1 h
    cases h
    intro c hc
    rw [List.mem_singleton.1 hc]
    exact Entity.embedding_of_mergeGroup hfirst he
  | cons e rest ih =>
    obtain ⟨hhead, hrest⟩ := List.forall_mem_cons.1 hes
    obtain ⟨wider?, hextend, h⟩ := bind_eq_ok.1 h
    cases wider? with
    | some wider => exact ih (first_of_extend? hextend ▸ hfirst) hrest h
    | none =>
      obtain ⟨closed, hclosed, h⟩ := bind_eq_ok.1 h
      obtain ⟨opened, hopened, h⟩ := bind_eq_ok.1 h
      obtain ⟨others, hothers, h⟩ := bind_eq_ok.1 h
      cases h
      refine List.forall_mem_cons.2 ⟨Entity.embedding_of_mergeGroup hfirst hclosed, ?_⟩
      exact ih (first_of_openAt hopened ▸ hhead) hrest hothers

theorem areUnembedded_mergeFile {es merged : List (Entity τ)} (hes : AreUnembedded es)
    (h : g.mergeFile es = .ok merged) : AreUnembedded merged := by
  cases es with
  | nil =>
    cases h
    exact hes
  | cons e rest =>
    obtain ⟨hhead, hrest⟩ := List.forall_mem_cons.1 hes
    obtain ⟨opened, hopened, h⟩ := bind_eq_ok.1 h
    exact areUnembedded_mergeFrom (first_of_openAt hopened ▸ hhead) hrest h

theorem areUnembedded_perFile {es : List (Entity τ)} {files : List (List (Entity τ))}
    (hes : AreUnembedded es) (h : perFile es = .ok files) :
    ∀ file ∈ files, AreUnembedded file := by
  obtain ⟨keyed, hkeyed, h⟩ := bind_eq_ok.1 h
  cases h
  intro file hfile e he
  obtain ⟨k, -, rfl⟩ := List.mem_map.1 hfile
  obtain ⟨pair, hpair, rfl⟩ := List.mem_map.1 (List.mem_mergeSort.1 he)
  obtain ⟨d, hd, hkey⟩ := exists_of_mem_mapM hkeyed (List.mem_of_mem_filter hpair)
  cases hk : (Fragment.toValue d.filePath).key with
  | error f =>
    rw [hk] at hkey
    cases hkey
  | ok k =>
    rw [hk] at hkey
    cases hkey
    exact hes d hd

theorem areUnembedded_mergeAll {es merged : List (Entity τ)} (hes : AreUnembedded es)
    (h : g.mergeAll es = .ok merged) : AreUnembedded merged := by
  unfold mergeAll at h
  split at h
  · cases h
    exact hes
  · cases h
    exact hes
  · obtain ⟨files, hfiles, h⟩ := bind_eq_ok.1 h
    obtain ⟨parts, hparts, h⟩ := bind_eq_ok.1 h
    cases h
    intro c hc
    obtain ⟨part, hpart, hc⟩ := List.mem_flatten.1 hc
    obtain ⟨file, hfile, hmerge⟩ := exists_of_mem_mapM hparts hpart
    exact areUnembedded_mergeFile (areUnembedded_perFile hes hfiles file hfile) hmerge c hc

end CheckedGathering

theorem areUnembedded_mergeWithin {level : Granularity} {bound : Value}
    {es merged : List (Entity τ)} (hes : AreUnembedded es)
    (h : mergeWithin level bound es = .ok merged) : AreUnembedded merged := by
  obtain ⟨g, -, h⟩ := bind_eq_ok.1 h
  exact CheckedGathering.areUnembedded_mergeAll hes h

end

/-! ## Extraction and surveys -/

theorem SourceFile.areUnembedded_entities (f : SourceFile) (root : Node) (bound : Option Int) :
    AreUnembedded (f.entities root bound) := by
  intro e he
  rw [entities_eq_flatMap] at he
  obtain ⟨s, hs, he⟩ := List.mem_flatMap.1 he
  have hsite : s.entity.embedding = none := by
    obtain ⟨p, scope, wrapper, -, hs⟩ := exists_visited_of_mem_sites hs
    obtain ⟨rule, -, -, ⟨-, hs⟩ | ⟨-, hs⟩⟩ := mem_sites_visit hs
    · obtain ⟨rawName, -, hs⟩ := Option.bind_eq_some_iff.1 hs
      cases hs
      rfl
    · obtain ⟨_, _, _, _, _, rfl⟩ := exists_declarator_of_mem_declaratorSites hs
      rfl
  have hsplit := Entity.splitWithin_embed (τ := Text) bound s.entity
  simp only [List.map_congr_left fun e _ => Entity.embed_text e, List.map_id',
    Entity.embed_text] at hsplit
  exact Entity.areUnembedded_splitWithin hsite hsplit e he

theorem Workspace.areUnembedded_extract {w : Workspace} {parser : Parser} {p : Path}
    {bound : Value} {es : List (Entity Text)} (h : w.extract parser p bound = .ok es) :
    AreUnembedded es := by
  unfold extract at h
  cases hsource : w.source p with
  | error fault =>
    rw [hsource] at h
    cases h
  | ok f =>
    rw [hsource] at h
    change (parser f.grammar.name f.source).entities f bound = .ok es at h
    unfold ParserReply.entities at h
    split at h
    · rename_i root _
      unfold SourceFile.entitiesWithin at h
      split at h
      · cases h
        exact f.areUnembedded_entities root _
      · rename_i hbound
        cases hsplit : Entity.splitAll bound (f.entities root none) with
        | error fault =>
          rw [hsplit] at h
          cases h
        | ok split =>
          rw [hsplit] at h
          cases h
          exact Entity.areUnembedded_splitAll (f.areUnembedded_entities root none) hsplit
    · cases h
    · cases h

namespace Survey

variable {w : Workspace} {parser : Parser} {bound : Value}

theorem areUnembedded_addFiles {files : List Path} {s s' : Survey}
    (hs : AreUnembedded s.entities) (h : addFiles w parser bound s files = .ok s') :
    AreUnembedded s'.entities := by
  induction files generalizing s with
  | nil =>
    cases h
    exact hs
  | cons p files ih =>
    unfold addFiles at h
    rw [List.foldlM_cons] at h
    split at h
    · cases hextract : w.extract parser p bound with
      | ok es =>
        rw [hextract] at h
        exact ih (hs.append (Workspace.areUnembedded_extract hextract)) h
      | error f =>
        rw [hextract, add] at h
        split at h
        · exact ih (s := { s with skipped := s.skipped + 1 }) hs h
        · cases h
    · exact ih hs h

theorem areUnembedded_merge {level : Granularity} {s s' : Survey}
    (hs : AreUnembedded s.entities) (h : s.merge level bound = .ok s') :
    AreUnembedded s'.entities := by
  unfold merge at h
  split at h
  · cases h
    exact hs
  · split at h
    · rename_i whole _
      cases h
      exact areUnembedded_mergeWithin hs (mergeWithin_text level whole s.entities)
    · cases hmerge : mergeWithin level bound s.entities with
      | error f =>
        rw [hmerge] at h
        cases h
      | ok es =>
        rw [hmerge] at h
        cases h
        exact areUnembedded_mergeWithin hs hmerge

end Survey

/-- No entity of a survey has a vector. -/
theorem Workspace.areUnembedded_survey {w : Workspace} {parser : Parser} {root : Path}
    {rules : SurveyRules} {s : Survey} (h : w.survey parser root rules = .ok s) :
    AreUnembedded s.entities := by
  unfold survey at h
  cases hfiles : w.findFiles root (normalExtensions rules.extensions) rules.excluded with
  | error f =>
    rw [hfiles] at h
    cases h
  | ok files =>
    rw [hfiles] at h
    change (Survey.addFiles w parser rules.bound { Survey.empty with found := files.length }
      files >>= fun s => Outcome.ofData (s.merge rules.granularity rules.bound)) = .ok s at h
    cases hadded : Survey.addFiles w parser rules.bound
        { Survey.empty with found := files.length } files with
    | error f =>
      rw [hadded] at h
      cases h
    | ok added =>
      rw [hadded] at h
      change Outcome.ofData (added.merge rules.granularity rules.bound) = .ok s at h
      cases hmerge : added.merge rules.granularity rules.bound with
      | error f =>
        rw [hmerge] at h
        cases h
      | ok merged =>
        rw [hmerge] at h
        cases h
        refine Survey.areUnembedded_merge (Survey.areUnembedded_addFiles ?_ hadded) hmerge
        intro e he
        cases he

end CodeCatalog
