import CodeCatalog.Embedding.Embedder
import CodeCatalog.Proofs.Entity.Reading
import CodeCatalog.Store
set_option autoImplicit false

/-!
# Where the settings come from

A setting is read by the path of keys that leads to it.  Setting another path leaves it alone
unless one of the two paths leads on from the other, so the environment decides on the paths of its
variables and on nothing else.  Overrides are laid over a level of the settings key by key.  In this
way the settings always hold what an embedder and a store need, and credentials are all that can be
missing.
-/

namespace CodeCatalog

/-! ## Members -/

namespace Value

variable {key k : Text} {v : Value} {members : List (Text × Value)}

@[simp] theorem find?_nil : find? k [] = none := rfl

@[simp] theorem find?_cons : find? k ((key, v) :: members) =
    if key = k then some v else find? k members := by
  unfold find?
  rw [List.find?_cons]
  by_cases h : key = k
  · simp [h]
  · have hne : (key == k) = false := by simpa using h
    simp [h, hne]

theorem mem_of_find? (h : find? k members = some v) : (k, v) ∈ members := by
  unfold find? at h
  obtain ⟨m, hm, rfl⟩ := Option.map_eq_some_iff.1 h
  have hkey : m.1 = k := by
    simpa using List.find?_some hm
  rw [← hkey]
  exact List.mem_of_find?_eq_some hm

/-- A member that is put is found, and the others are found as before. -/
theorem find?_put : find? k (put key v members) = if key = k then some v else find? k members := by
  induction members with
  | nil => rw [put, find?_cons]
  | cons m rest ih =>
    rw [put]
    by_cases hm : m.1 = key
    · rw [if_pos hm, find?_cons, find?_cons]
      by_cases hk : key = k
      · rw [if_pos hk, if_pos hk]
      · rw [if_neg hk, if_neg hk, if_neg (hm ▸ hk)]
    · rw [if_neg hm, find?_cons, find?_cons, ih]
      by_cases hk : m.1 = k
      · rw [if_pos hk, if_pos hk, if_neg fun h => hm (hk.trans h.symm)]
      · rw [if_neg hk, if_neg hk]

/-! ## Arguments -/

/-- What an argument can be: a text, nothing, or an option that was given without its value. -/
inductive IsArgument : Value → Prop
  | absent : IsArgument .null
  | text (t : Text) : IsArgument (.text t)
  | empty : IsArgument (.list [])

theorem IsArgument.exists_text (h : IsArgument v) (hv : v.isPresent = true) :
    ∃ t, v = .text t := by
  cases h with
  | absent => cases hv
  | text t => exact ⟨t, rfl⟩
  | empty => cases hv

end Value

namespace Settings

open Value

variable {key k : Text} {v : Value} {members settings : List (Text × Value)} {p q : List Text}
  {env : Environment}

/-! ## Paths -/

/-- Neither of two paths leads on from the other. -/
def IsApart (p q : List Text) : Prop := ¬ p <+: q ∧ ¬ q <+: p

instance (p q : List Text) : Decidable (IsApart p q) := inferInstanceAs (Decidable (_ ∧ _))

theorem IsApart.symm (h : IsApart p q) : IsApart q p := ⟨h.2, h.1⟩

theorem isApart_cons_cons : IsApart (k :: p) (k :: q) ↔ IsApart p q := by
  simp [IsApart, List.cons_prefix_cons]

/-- What follows the first key of a path is looked up in the part that the key leads to. -/
theorem getAt?_cons (hp : p ≠ []) :
    getAt? (k :: p) members = getAt? p (membersOf (find? k members)) := by
  cases p with
  | nil => exact absurd rfl hp
  | cons _ _ => rfl

theorem setAt_cons (hp : p ≠ []) :
    setAt (k :: p) v members =
      put k (.object (setAt p v (membersOf (find? k members)))) members := by
  cases p with
  | nil => exact absurd rfl hp
  | cons _ _ => rfl

/-- What is set at a path is there. -/
theorem getAt?_setAt_self (hp : p ≠ []) : getAt? p (setAt p v members) = some v := by
  induction p generalizing members with
  | nil => exact absurd rfl hp
  | cons k p ih =>
    by_cases hrest : p = []
    · subst hrest
      exact find?_put.trans (if_pos rfl)
    · rw [setAt_cons hrest, getAt?_cons hrest, find?_put, if_pos rfl]
      exact ih hrest

/-- Setting a path changes nothing at a path apart from it. -/
theorem getAt?_setAt_of_isApart (h : IsApart p q) :
    getAt? p (setAt q v members) = getAt? p members := by
  induction q generalizing p members with
  | nil => exact absurd (List.nil_prefix (l := p)) h.2
  | cons k q ih =>
    cases p with
    | nil => exact absurd (List.nil_prefix (l := k :: q)) h.1
    | cons k' p =>
      have hset : ∃ w, setAt (k :: q) v members = put k w members := by
        cases q with
        | nil => exact ⟨v, rfl⟩
        | cons _ _ => exact ⟨_, rfl⟩
      by_cases hk : k = k'
      · subst hk
        have hrest := isApart_cons_cons.1 h
        have hp : p ≠ [] := by
          rintro rfl
          exact hrest.1 (List.nil_prefix (l := q))
        have hq : q ≠ [] := by
          rintro rfl
          exact hrest.2 (List.nil_prefix (l := p))
        rw [setAt_cons hq, getAt?_cons hp, getAt?_cons hp, find?_put, if_pos rfl]
        exact ih hrest
      · obtain ⟨w, hw⟩ := hset
        rw [hw]
        cases p with
        | nil => exact find?_put.trans (if_neg hk)
        | cons k'' p =>
          have hp : k'' :: p ≠ [] := List.cons_ne_nil k'' p
          rw [getAt?_cons hp, getAt?_cons hp, find?_put, if_neg hk]

theorem getAt?_of_object {inner : List (Text × Value)} (hp : p ≠ [])
    (h : find? k members = some (.object inner)) :
    getAt? (k :: p) members = getAt? p inner := by
  rw [getAt?_cons hp, h]
  rfl

theorem getAt?_nil (p : List Text) : getAt? p [] = none := by
  induction p with
  | nil => rfl
  | cons k p ih =>
    by_cases hp : p = []
    · subst hp
      rfl
    · rw [getAt?_cons hp]
      exact ih

/-- Only an object has members in which something is found. -/
theorem exists_object_of_membersOf {setting : Option Value}
    (h : getAt? p (membersOf setting) = some v) :
    ∃ inner, setting = some (.object inner) ∧ getAt? p inner = some v := by
  have hempty : getAt? p [] ≠ some v := by
    rw [getAt?_nil]
    exact nofun
  cases setting with
  | none => exact absurd h hempty
  | some w =>
    cases w with
    | object inner => exact ⟨inner, rfl, h⟩
    | _ => exact absurd h hempty

/-- A setting of a part is found in the members of the part. -/
theorem exists_object_of_getAt? (hp : p ≠ []) (h : getAt? (k :: p) members = some v) :
    ∃ inner, find? k members = some (.object inner) ∧ getAt? p inner = some v := by
  rw [getAt?_cons hp] at h
  exact exists_object_of_membersOf h

/-! ## The environment -/

/-- The settings after a source, which sets its path if its variable has a value. -/
def setFrom (env : Environment) (settings : List (Text × Value)) (source : Text × List Text) :
    List (Text × Value) :=
  match valueOf? env source.1 with
  | some t => setAt source.2 (.text t) settings
  | none => settings

theorem ofEnvironment_eq_foldl (env : Environment) :
    ofEnvironment env = sources.foldl (setFrom env) defaults := rfl

/-- Sources change nothing at a path apart from theirs. -/
theorem getAt?_foldl_of_isApart {sources : List (Text × List Text)}
    (h : ∀ source ∈ sources, IsApart p source.2) :
    getAt? p (sources.foldl (setFrom env) members) = getAt? p members := by
  induction sources generalizing members with
  | nil => rfl
  | cons source rest ih =>
    obtain ⟨hsource, hrest⟩ := List.forall_mem_cons.1 h
    rw [List.foldl_cons, ih hrest, setFrom]
    split
    · exact getAt?_setAt_of_isApart hsource
    · rfl

/-- Where no variable leads the default stays. -/
theorem getAt?_ofEnvironment_of_isApart (h : ∀ source ∈ sources, IsApart p source.2) :
    getAt? p (ofEnvironment env) = getAt? p defaults :=
  getAt?_foldl_of_isApart h

theorem isApart_sources : sources.Pairwise fun a b => IsApart a.2 b.2 := by
  decide +kernel

/-- Where a variable leads its value counts, if it has one. -/
theorem getAt?_ofEnvironment_of_mem {n : Text} (h : (n, p) ∈ sources) (hp : p ≠ []) :
    getAt? p (ofEnvironment env) =
      match valueOf? env n with
      | some t => some (.text t)
      | none => getAt? p defaults := by
  obtain ⟨before, after, hsplit⟩ := List.append_of_mem h
  have hapart := isApart_sources
  rw [hsplit, List.pairwise_append, List.pairwise_cons] at hapart
  have hafter : ∀ source ∈ after, IsApart p source.2 := hapart.2.1.1
  have hbefore : ∀ source ∈ before, IsApart p source.2 := fun source hsource =>
    (hapart.2.2 source hsource (n, p) List.mem_cons_self).symm
  rw [ofEnvironment_eq_foldl, hsplit, List.foldl_append, List.foldl_cons,
    getAt?_foldl_of_isApart hafter, setFrom]
  dsimp only
  split
  · exact getAt?_setAt_self hp
  · exact getAt?_foldl_of_isApart hbefore

/-! ## Overrides -/

/-- What an override makes of a setting, if there is one. -/
def overridden (setting : Option Value) : Option Value → Option Value
  | none => setting
  | some .null => setting
  | some v => some (override setting v)

theorem find?_eq_none_of_notMem (h : k ∉ members.map Prod.fst) : find? k members = none := by
  induction members with
  | nil => rfl
  | cons m rest ih =>
    rw [List.map_cons, List.mem_cons, not_or] at h
    rw [find?_cons, if_neg fun hm => h.1 hm.symm, ih h.2]

/-- Overrides with different keys are laid over the settings key by key. -/
theorem find?_overrideAll {overrides : List (Text × Value)}
    (hkeys : (overrides.map Prod.fst).Nodup) :
    find? k (overrideAll settings overrides) =
      overridden (find? k settings) (find? k overrides) := by
  induction overrides generalizing settings with
  | nil =>
    rw [overrideAll]
    rfl
  | cons m rest ih =>
    obtain ⟨key, v⟩ := m
    rw [List.map_cons, List.nodup_cons] at hkeys
    obtain ⟨hnew, hrest⟩ := hkeys
    have hlast : key = k → find? k rest = none := by
      rintro rfl
      exact find?_eq_none_of_notMem hnew
    by_cases hv : v = .null
    · subst hv
      rw [overrideAll, ih hrest, find?_cons]
      by_cases hk : key = k
      · rw [if_pos hk, hlast hk]
        rfl
      · rw [if_neg hk]
    · have hput : overrideAll settings ((key, v) :: rest) =
          overrideAll (put key (override (find? key settings) v) settings) rest := by
        rw [overrideAll]
        exact hv
      have hoverridden : overridden (find? key settings) (some v) =
          some (override (find? key settings) v) := by
        cases v with
        | null => exact absurd rfl hv
        | _ => rfl
      rw [hput, ih hrest, find?_put, find?_cons]
      by_cases hk : key = k
      · rw [if_pos hk, if_pos hk, hlast hk, ← hk, hoverridden]
        rfl
      · rw [if_neg hk, if_neg hk]

/-! ## Settings that suffice -/

/-- A part holds all that is asked of it to make an embedder. -/
structure SufficesForEmbedder (part : List (Text × Value)) : Prop where
  model : ∃ v, find? "model" part = some v ∧ IsArgument v
  dimension : ∃ i, find? "dimension" part = some (.int i)
  maxTokens : ∃ i, find? "max_input_tokens" part = some (.int i)
  timeout : ∃ x, find? "timeout" part = some (.float x)

/-- A part holds all that is asked of it to make a store. -/
structure SufficesForStore (part : List (Text × Value)) : Prop where
  backend : find? "backend" part = some (.text VectorStore.backendName)
  server : ∃ inner i, find? "qdrant" part = some (.object inner) ∧
    find? "batch_size" inner = some (.int i)

/-- The settings have the parts of which an embedder and a store are made. -/
structure Suffices (members : List (Text × Value)) : Prop where
  embedding : ∃ part, find? "embedding" members = some (.object part) ∧ SufficesForEmbedder part
  store : ∃ part, find? "vector_store" members = some (.object part) ∧ SufficesForStore part

/-- Whatever the environment is, the settings suffice. -/
theorem suffices_ofEnvironment (env : Environment) : Suffices (ofEnvironment env) := by
  have hdefault : ∀ {p : List Text} {v : Value}, (∀ source ∈ sources, IsApart p source.2) →
      getAt? p defaults = some v → getAt? p (ofEnvironment env) = some v := by
    intro p v hapart hv
    rw [getAt?_ofEnvironment_of_isApart hapart, hv]
  have hmodel : ∃ t, getAt? ["embedding", "model"] (ofEnvironment env) = some (.text t) := by
    rw [getAt?_ofEnvironment_of_mem (n := "EMBEDDING_MODEL") (by decide +kernel) (by simp)]
    cases valueOf? env "EMBEDDING_MODEL" with
    | some t => exact ⟨t, rfl⟩
    | none => exact ⟨defaultModel, rfl⟩
  have hdimension := hdefault (p := ["embedding", "dimension"]) (by decide +kernel) rfl
  have hmax := hdefault (p := ["embedding", "max_input_tokens"]) (by decide +kernel) rfl
  have htimeout := hdefault (p := ["embedding", "timeout"]) (by decide +kernel) rfl
  have hbackend := hdefault (p := ["vector_store", "backend"]) (by decide +kernel) rfl
  have hbatch := hdefault (p := ["vector_store", "qdrant", "batch_size"]) (by decide +kernel) rfl
  constructor
  · obtain ⟨t, hmodel⟩ := hmodel
    obtain ⟨part, hpart, hmodel⟩ := exists_object_of_getAt? (List.cons_ne_nil _ _) hmodel
    rw [getAt?_of_object (List.cons_ne_nil _ _) hpart] at hdimension hmax htimeout
    exact ⟨part, hpart, ⟨_, hmodel, .text t⟩, ⟨_, hdimension⟩, ⟨_, hmax⟩, ⟨_, htimeout⟩⟩
  · obtain ⟨part, hpart, hbackend⟩ := exists_object_of_getAt? (List.cons_ne_nil _ _) hbackend
    rw [getAt?_of_object (List.cons_ne_nil _ _) hpart] at hbatch
    obtain ⟨server, hserver, hbatch⟩ := exists_object_of_getAt? (List.cons_ne_nil _ _) hbatch
    exact ⟨part, hpart, hbackend, server, _, hserver, hbatch⟩

/-- Overrides of the model, the credentials and the address of the service leave a part that
suffices. -/
theorem SufficesForEmbedder.overrideAll {part : List (Text × Value)} {model key address : Value}
    (h : SufficesForEmbedder part) (hmodel : IsArgument model) :
    SufficesForEmbedder
      (overrideAll part [("model", model), ("api_key", key), ("api_base", address)]) := by
  have hfound : ∀ k, find? k
      (Settings.overrideAll part [("model", model), ("api_key", key), ("api_base", address)]) =
        overridden (find? k part)
          (find? k [("model", model), ("api_key", key), ("api_base", address)]) := by
    intro k
    apply find?_overrideAll
    exact (by decide : (["model", "api_key", "api_base"] : List Text).Nodup)
  obtain ⟨old, hold, hargument⟩ := h.model
  obtain ⟨dimension, hdimension⟩ := h.dimension
  obtain ⟨maxTokens, hmax⟩ := h.maxTokens
  obtain ⟨timeout, htimeout⟩ := h.timeout
  refine ⟨?_, ⟨dimension, ?_⟩, ⟨maxTokens, ?_⟩, ⟨timeout, ?_⟩⟩
  · rw [hfound, hold]
    cases hmodel with
    | absent => exact ⟨old, rfl, hargument⟩
    | text t => exact ⟨.text t, rfl, .text t⟩
    | empty => exact ⟨.list [], rfl, .empty⟩
  · rw [hfound, hdimension]
    rfl
  · rw [hfound, hmax]
    rfl
  · rw [hfound, htimeout]
    rfl

/-- So does an override of the address of the server for the part of a store. -/
theorem SufficesForStore.overrideAll {part : List (Text × Value)} {address : Value}
    (h : SufficesForStore part) :
    SufficesForStore (overrideAll part [("qdrant", .object [("url", address)])]) := by
  have hfound : ∀ {ms : List (Text × Value)} {k key : Text} {v : Value},
      find? k (Settings.overrideAll ms [(key, v)]) =
        overridden (find? k ms) (find? k [(key, v)]) := by
    intro ms k key v
    apply find?_overrideAll
    simp
  obtain ⟨server, size, hserver, hsize⟩ := h.server
  refine ⟨?_, Settings.overrideAll server [("url", address)], size, ?_, ?_⟩
  · rw [hfound, h.backend]
    rfl
  · rw [hfound, hserver]
    simp [overridden, override]
  · rw [hfound, hsize]
    rfl

/-- Overrides of the two parts leave settings that suffice if they leave parts that do. -/
theorem Suffices.overrideAll {embedding store : List (Text × Value)} (h : Suffices members)
    (hembedding : ∀ part, SufficesForEmbedder part →
      SufficesForEmbedder (Settings.overrideAll part embedding))
    (hstore : ∀ part, SufficesForStore part →
      SufficesForStore (Settings.overrideAll part store)) :
    Suffices (overrideAll members
      [("embedding", .object embedding), ("vector_store", .object store)]) := by
  have hfound : ∀ k, find? k (Settings.overrideAll members
      [("embedding", .object embedding), ("vector_store", .object store)]) =
        overridden (find? k members)
          (find? k [("embedding", .object embedding), ("vector_store", .object store)]) := by
    intro k
    apply find?_overrideAll
    exact (by decide : (["embedding", "vector_store"] : List Text).Nodup)
  obtain ⟨part, hpart, hsuffices⟩ := h.embedding
  obtain ⟨part', hpart', hsuffices'⟩ := h.store
  refine ⟨⟨_, ?_, hembedding part hsuffices⟩, ⟨_, ?_, hstore part' hsuffices'⟩⟩
  · rw [hfound, hpart]
    simp [overridden, override]
  · rw [hfound, hpart']
    have hother : ¬ Text.ofString "embedding" = Text.ofString "vector_store" := by decide
    simp [overridden, override, hother]

end Settings

/-! ## What is made of settings that suffice -/

theorem Value.member?_object {key : Text} {members : List (Text × Value)} :
    (object members).member? key = .ok (find? key members) := rfl

theorem Settings.part_object {name : Text} {members : List (Text × Value)} :
    part (.object members) name = .ok ((Value.find? name members).getD (.object [])) := rfl

theorem Outcome.ofData_ok {α : Type} {a : α} : ofData (.ok a) = .ok a := rfl

theorem ok_bind {ε α β : Type} {a : α} {next : α → Except ε β} :
    (Except.ok a >>= next) = next a := rfl

section

open Value Settings

variable {members : List (Text × Value)}

/-- Credentials are all that an embedder can lack. -/
theorem Embedder.ofSettings_cases (h : Suffices members) :
    ofSettings (.object members) {} = .error .noCredentials ∨
      ∃ e name, ofSettings (.object members) {} = .ok e ∧ e.model = .text name := by
  obtain ⟨part, hpart, hsuffices⟩ := h.embedding
  obtain ⟨model, hmodel, hargument⟩ := hsuffices.model
  obtain ⟨dimension, hdimension⟩ := hsuffices.dimension
  obtain ⟨maxTokens, hmax⟩ := hsuffices.maxTokens
  obtain ⟨timeout, htimeout⟩ := hsuffices.timeout
  have hname : ∃ name, (null.orElse model).orElse (.text defaultModel) = .text name := by
    cases hargument with
    | absent => exact ⟨_, rfl⟩
    | empty => exact ⟨_, rfl⟩
    | text t => cases t <;> exact ⟨_, rfl⟩
  rw [ofSettings, part_object, hpart]
  simp only [Outcome.ofData_ok, ok_bind, Option.getD_some, member_object, member?_object, hmodel,
    hdimension, hmax, htimeout, toInteger, toDouble]
  cases hkey : (null.orElse (ofOption (find? "api_key" part))).isPresent with
  | false => exact .inl rfl
  | true =>
    obtain ⟨name, hname⟩ := hname
    exact .inr ⟨_, name, rfl, hname⟩

/-- Nothing is lacking for a store. -/
theorem VectorStore.exists_ofSettings (h : Suffices members) (e : Embedder) :
    ∃ made, ofSettings (.object members) (some e) = .ok made ∧ made.1.embedder = some e := by
  obtain ⟨part, hpart, hsuffices⟩ := h.store
  obtain ⟨server, size, hserver, hsize⟩ := hsuffices.server
  obtain ⟨embedding, hembedding, -⟩ := h.embedding
  rw [ofSettings, part_object, hpart]
  simp only [Outcome.ofData_ok, ok_bind, Option.getD_some, member_object, member?_object,
    hsuffices.backend, part_object, hserver, hembedding, hsize, toInteger, ne_eq, not_true,
    if_false]
  exact ⟨_, rfl, rfl⟩

end

end CodeCatalog
