import CodeCatalog.Proofs.Settings
set_option autoImplicit false

/-!
# Which source of a setting counts

A setting has the value of the override for it, else that of the variable of the environment for
it, else the default.  The overrides are laid over the settings part by part, so this holds at the
end of every path of keys as long as no override puts another value in the place of a part.
-/

namespace CodeCatalog

namespace Settings

open Value

variable {k : Text} {v : Value} {members settings overrides : List (Text × Value)}
  {p q : List Text} {env : Environment}

/-! ## Paths that lead on -/

theorem getAt?_append (hp : p ≠ []) (hq : q ≠ []) :
    getAt? (p ++ q) members = getAt? q (membersOf (getAt? p members)) := by
  induction p generalizing members with
  | nil => exact absurd rfl hp
  | cons k p ih =>
    rw [List.cons_append, getAt?_cons (by simp [hq])]
    by_cases hrest : p = []
    · subst hrest
      rfl
    · rw [ih hrest, getAt?_cons hrest]

/-- Only in an object is there something further down. -/
theorem exists_object_of_front (hq : q ≠ []) (hfront : q <+: p) (hne : q ≠ p)
    (h : getAt? p members = some v) : ∃ inner, getAt? q members = some (.object inner) := by
  obtain ⟨rest, rfl⟩ := hfront
  have hrest : rest ≠ [] := by
    rintro rfl
    exact hne (List.append_nil q).symm
  rw [getAt?_append hq hrest] at h
  obtain ⟨inner, hinner, -⟩ := exists_object_of_membersOf h
  exact ⟨inner, hinner⟩

theorem ne_nil_of_getAt? (h : getAt? p members = some v) : p ≠ [] := by
  rintro rfl
  cases h

/-- A setting that is no part of others. -/
def IsLeaf (p : List Text) : Prop :=
  ∃ v, getAt? p defaults = some v ∧ ∀ members, v ≠ .object members

/-- No default lies beyond a leaf. -/
theorem IsLeaf.eq_of_front (hp : IsLeaf p) (hq : getAt? q defaults = some v) (h : p <+: q) :
    p = q := by
  obtain ⟨leaf, hleaf, hobject⟩ := hp
  by_contra hne
  obtain ⟨inner, hinner⟩ := exists_object_of_front (ne_nil_of_getAt? hleaf) h hne hq
  rw [hleaf] at hinner
  exact hobject inner (Option.some.inj hinner)

/-- Variables of the environment set leaves. -/
theorem isLeaf_of_mem_sources {source : Text × List Text} (h : source ∈ sources) :
    IsLeaf source.2 := by
  simp only [sources, List.mem_cons, List.not_mem_nil, or_false] at h
  rcases h with rfl | rfl | rfl | rfl | rfl | rfl
  all_goals exact ⟨_, rfl, nofun⟩

theorem IsLeaf.isApart (hp : IsLeaf p) (hq : IsLeaf q) (hne : p ≠ q) : IsApart p q := by
  have ⟨_, hp', _⟩ := hp
  have ⟨_, hq', _⟩ := hq
  exact ⟨fun h => hne (hp.eq_of_front hq' h), fun h => hne (hq.eq_of_front hp' h).symm⟩

/-! ## Settings without overrides -/

/-- The value of the variable for a setting, if there is one that is set and not empty. -/
def variableAt? (env : Environment) (p : List Text) : Option Value :=
  ((sources.find? fun source => source.2 = p).bind fun source => valueOf? env source.1).map .text

theorem getAt?_ofEnvironment_of_isLeaf (env : Environment) (hp : IsLeaf p) :
    getAt? p (ofEnvironment env) = (variableAt? env p).or (getAt? p defaults) := by
  cases hsource : sources.find? fun source => source.2 = p with
  | none =>
    have hapart : ∀ source ∈ sources, IsApart p source.2 := by
      intro source hmem
      have hne := List.find?_eq_none.1 hsource source hmem
      exact hp.isApart (isLeaf_of_mem_sources hmem) fun heq => hne (by simp [heq])
    rw [getAt?_ofEnvironment_of_isApart hapart, variableAt?, hsource]
    rfl
  | some source =>
    obtain ⟨_, hleaf, -⟩ := hp
    have hpath : source.2 = p := by
      simpa using List.find?_some hsource
    have hmem : (source.1, p) ∈ sources := by
      rw [← hpath]
      exact List.mem_of_find?_eq_some hsource
    rw [getAt?_ofEnvironment_of_mem hmem (ne_nil_of_getAt? hleaf), variableAt?, hsource,
      Option.bind_some]
    cases valueOf? env source.1 <;> rfl

/-- What lies on the way to a setting is there once the setting is. -/
theorem exists_getAt?_setAt_of_front (hp : p ≠ []) (h : p <+: q) :
    ∃ kept, getAt? p (setAt q v members) = some kept := by
  induction p generalizing q members with
  | nil => exact absurd rfl hp
  | cons k p ih =>
    obtain ⟨rest, rfl⟩ := h
    by_cases hrest : p = []
    · subst hrest
      cases rest with
      | nil => exact ⟨v, find?_put.trans (if_pos rfl)⟩
      | cons => exact ⟨_, find?_put.trans (if_pos rfl)⟩
    · rw [List.cons_append, setAt_cons (by simp [hrest]), getAt?_cons hrest, find?_put, if_pos rfl]
      exact ih hrest (List.prefix_append p rest)

/-- No setting is lost when another one is set, unless this one leads on from that. -/
theorem exists_getAt?_setAt {w : Value} (h : getAt? p members = some w) (hq : q <+: p → q = p) :
    ∃ kept, getAt? p (setAt q v members) = some kept := by
  have hp := ne_nil_of_getAt? h
  by_cases hpq : p <+: q
  · exact exists_getAt?_setAt_of_front hp hpq
  · have hapart : IsApart p q := ⟨hpq, fun hqp => hpq (hq hqp ▸ List.prefix_rfl)⟩
    exact ⟨w, (getAt?_setAt_of_isApart hapart).trans h⟩

/-- Every default is set in any environment. -/
theorem exists_getAt?_ofEnvironment (env : Environment) (h : getAt? p defaults = some v) :
    ∃ kept, getAt? p (ofEnvironment env) = some kept := by
  have hsources : ∀ source ∈ sources, source.2 <+: p → source.2 = p := fun source hmem =>
    (isLeaf_of_mem_sources hmem).eq_of_front h
  rw [ofEnvironment_eq_foldl]
  refine List.foldlRecOn (motive := fun members => ∃ kept, getAt? p members = some kept)
    sources (setFrom env) ⟨v, h⟩ ?_
  rintro members ⟨kept, hkept⟩ source hmem
  unfold setFrom
  split
  · exact exists_getAt?_setAt hkept (hsources source hmem)
  · exact ⟨kept, hkept⟩

/-! ## Overrides -/

/-- A dictionary holds no key twice, and neither does one within it. -/
inductive IsDictionary : List (Text × Value) → Prop
  | intro {members : List (Text × Value)} (distinct : (members.map Prod.fst).Nodup)
    (inner : ∀ key ms, (key, .object ms) ∈ members → IsDictionary ms) : IsDictionary members

/-- Overrides leave what they find at a path a part, if it is one. -/
def KeepsPart (overrides : List (Text × Value)) (p : List Text) : Prop :=
  ∀ v, getAt? p overrides = some v → v = .null ∨ ∃ inner, v = .object inner

/-- A part further down is kept by what is given for the part on the way to it. -/
theorem KeepsPart.inside {inner : List (Text × Value)} (hk : find? k members = some (.object inner))
    (h : KeepsPart members (k :: q)) : KeepsPart inner q := by
  by_cases hq : q = []
  · subst hq
    exact nofun
  · unfold KeepsPart at h
    rwa [getAt?_of_object hq hk] at h

/-- What is found at a path is a member or lies within one. -/
theorem mem_of_getAt?_cons (h : getAt? (k :: p) members = some v) :
    p = [] ∧ (k, v) ∈ members ∨
      ∃ inner, (k, .object inner) ∈ members ∧ getAt? p inner = some v := by
  by_cases hp : p = []
  · subst hp
    exact .inl ⟨rfl, mem_of_find? h⟩
  · obtain ⟨inner, hinner, hbelow⟩ := exists_object_of_getAt? hp h
    exact .inr ⟨inner, mem_of_find? hinner, hbelow⟩

/-- Overrides are laid over a setting that they find. -/
theorem getAt?_overrideAll (hoverrides : IsDictionary overrides)
    (hsetting : getAt? p settings = some v)
    (hparts : ∀ q, q <+: p → q ≠ p → KeepsPart overrides q) :
    getAt? p (overrideAll settings overrides) = overridden (some v) (getAt? p overrides) := by
  induction p generalizing settings overrides with
  | nil => cases hsetting
  | cons k p ih =>
    obtain ⟨distinct, inner⟩ := hoverrides
    have hfound : find? k (overrideAll settings overrides) =
        overridden (find? k settings) (find? k overrides) := find?_overrideAll distinct
    by_cases hrest : p = []
    · subst hrest
      rw [← hsetting]
      exact hfound
    · obtain ⟨part, hpart, hbelow⟩ := exists_object_of_getAt? hrest hsetting
      rw [getAt?_cons hrest, getAt?_cons hrest, hfound, hpart]
      -- What overrides nothing at the key overrides nothing below it.
      have hkept : getAt? p part = overridden (some v) (getAt? p []) := by
        rw [getAt?_nil]
        exact hbelow
      cases hgiven : find? k overrides with
      | none => exact hkept
      | some w =>
        have hkey : KeepsPart overrides [k] :=
          hparts [k] (List.prefix_append [k] p) (by simpa using Ne.symm hrest)
        obtain rfl | ⟨ms, rfl⟩ := hkey w hgiven
        · exact hkept
        · refine ih (inner k ms (mem_of_find? hgiven)) hbelow fun q hq hne => ?_
          exact .inside hgiven
            (hparts (k :: q) (List.cons_prefix_cons.2 ⟨rfl, hq⟩) (by simpa using hne))

/-! ## The three sources -/

/-- A value that is given and not `null`. -/
def given? : Option Value → Option Value
  | some .null => none
  | v => v

/-- A setting that is no part is replaced by what is given for it. -/
theorem overridden_of_not_object (hv : ∀ members, v ≠ .object members) (given : Option Value) :
    overridden (some v) given = (given? given).or (some v) := by
  cases given with
  | none => rfl
  | some w =>
    cases w with
    | object members =>
      cases v with
      | object inner => exact absurd rfl (hv inner)
      | _ => rfl
    | _ => rfl

/-- Overrides that keep every part of the defaults keep those on the way to a default. -/
theorem keepsPart_of_front (hdefault : getAt? p defaults = some v)
    (hparts : ∀ q members, getAt? q defaults = some (.object members) → KeepsPart overrides q)
    (hq : q <+: p) (hne : q ≠ p) : KeepsPart overrides q := by
  by_cases hempty : q = []
  · subst hempty
    exact nofun
  · obtain ⟨inner, hinner⟩ := exists_object_of_front hempty hq hne hdefault
    exact hparts q inner hinner

/-- Settings without overrides are those of the environment. -/
theorem load_nil : load env [] = .object (ofEnvironment env) := by
  rw [load, overrideAll]

/-- At every leaf of the defaults the settings hold the first of what the overrides give, the value
of the variable of the environment, and the default; and whatever the overrides do not mention is
as it is without them. -/
theorem load_precedence (env : Environment) (overrides : List (Text × Value))
    (hoverrides : IsDictionary overrides)
    (hparts : ∀ p members, getAt? p defaults = some (.object members) → KeepsPart overrides p) :
    ∃ settings without, load env overrides = .object settings ∧ load env [] = .object without ∧
      (∀ p v, getAt? p defaults = some v → (∀ members, v ≠ .object members) →
        getAt? p settings =
          (given? (getAt? p overrides)).or ((variableAt? env p).or (some v))) ∧
      ∀ p v, getAt? p defaults = some v → getAt? p overrides = none →
        ∃ kept, getAt? p settings = some kept ∧ getAt? p without = some kept := by
  have hlaid : ∀ p v kept, getAt? p defaults = some v → getAt? p (ofEnvironment env) = some kept →
      getAt? p (overrideAll (ofEnvironment env) overrides) =
        overridden (some kept) (getAt? p overrides) :=
    fun p v kept hdefault hkept => getAt?_overrideAll hoverrides hkept fun q =>
      keepsPart_of_front hdefault hparts
  refine ⟨_, _, rfl, load_nil, fun p v hdefault hv => ?_, fun p v hdefault hnone => ?_⟩
  · have hkept := getAt?_ofEnvironment_of_isLeaf env ⟨v, hdefault, hv⟩
    rw [hdefault] at hkept
    cases hvariable : variableAt? env p with
    | none =>
      rw [hvariable] at hkept
      rw [hlaid p v v hdefault hkept]
      exact overridden_of_not_object hv _
    | some w =>
      rw [hvariable] at hkept
      rw [hlaid p v w hdefault hkept]
      refine overridden_of_not_object ?_ _
      obtain ⟨t, -, rfl⟩ := Option.map_eq_some_iff.1 hvariable
      exact nofun
  · obtain ⟨kept, hkept⟩ := exists_getAt?_ofEnvironment env hdefault
    refine ⟨kept, ?_, hkept⟩
    rw [hlaid p v kept hdefault hkept, hnone]
    rfl

/-- Overrides that give one key and leave the model as it is. -/
def explicitKey : List (Text × Value) :=
  [("embedding", .object [("api_key", .text "sk-explicit"), ("model", .null)])]

theorem isDictionary_explicitKey : IsDictionary explicitKey := by
  refine .intro (by decide) fun key ms hmem => ?_
  cases List.mem_singleton.1 hmem
  refine .intro (by decide) fun key ms hmem => ?_
  rcases List.mem_pair.1 hmem with h | h <;> cases h

theorem keepsPart_explicitKey (p : List Text) (members : List (Text × Value))
    (h : getAt? p defaults = some (.object members)) : KeepsPart explicitKey p := by
  intro v hv
  cases p with
  | nil => cases hv
  | cons k p =>
    rcases mem_of_getAt?_cons hv with ⟨rfl, hmem⟩ | ⟨inner, hmem, hbelow⟩
    · cases List.mem_singleton.1 hmem
      exact .inr ⟨_, rfl⟩
    · cases List.mem_singleton.1 hmem
      cases p with
      | nil => cases hbelow
      | cons k' p =>
        rcases mem_of_getAt?_cons hbelow with ⟨rfl, hmem⟩ | ⟨_, hmem, -⟩
        · rcases List.mem_pair.1 hmem with hkey | hmodel
          · cases hkey
            cases h
          · cases hmodel
            exact .inl rfl
        · rcases List.mem_pair.1 hmem with hkey | hmodel
          · cases hkey
          · cases hmodel

theorem load_precedence_explicitKey :
    IsDictionary explicitKey ∧
    (∀ p members, getAt? p defaults = some (.object members) → KeepsPart explicitKey p) ∧
    ∃ settings, load [("OPENAI_API_KEY", "sk-env"), ("QDRANT_URL", "")] explicitKey =
        .object settings ∧
      getAt? ["embedding", "api_key"] settings = some (.text "sk-explicit") ∧
      getAt? ["embedding", "model"] settings = some (.text defaultModel) ∧
      getAt? ["vector_store", "qdrant", "url"] settings = some (.text defaultUrl) := by
  obtain ⟨settings, _, hload, -, hleaf, -⟩ := load_precedence
    [("OPENAI_API_KEY", "sk-env"), ("QDRANT_URL", "")] explicitKey isDictionary_explicitKey
    keepsPart_explicitKey
  refine ⟨isDictionary_explicitKey, keepsPart_explicitKey, settings, hload, ?_, ?_, ?_⟩
  · rw [hleaf _ .null rfl nofun]
    rfl
  · rw [hleaf _ (.text defaultModel) rfl nofun]
    rfl
  · rw [hleaf _ (.text defaultUrl) rfl nofun]
    rfl

end Settings

end CodeCatalog
