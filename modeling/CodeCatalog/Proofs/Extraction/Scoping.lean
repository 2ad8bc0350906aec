import CodeCatalog.Grammar.Rust
import CodeCatalog.Proofs.Extraction.Preorder
import CodeCatalog.Proofs.Lists
import CodeCatalog.Proofs.Text.Lines
set_option autoImplicit false

/-!
# The scope of an entity

A container adds a name to the scope inside its body: a module the name that is shown for it, a type
the name in the source.  A walk hands the scope down, so an entity stands in the modules whose
bodies it lies in and in the innermost of such types.  Nothing else has an influence: two nodes,
above which the nodes add the same, stand in the same scope, whatever else there is in their trees.
-/

namespace CodeCatalog

/-! ## What containers add -/

/-- The scope inside a container with what it adds: the kind and the name that counts for it. -/
def Scope.inside (scope : Scope) (separator : Text) : ScopeKind × Text → Scope
  | (.moduleScope, name) => scope.insideModule name separator
  | (.typeScope, name) => scope.insideType name

namespace Site

/-- What a site adds to the scope in its body. -/
def added? (s : Site) : Option (ScopeKind × Text) :=
  s.rule.scope.map fun
    | .moduleScope => (.moduleScope, s.entity.name)
    | .typeScope => (.typeScope, s.rawName)

/-- A place lies in the body of a site. -/
def Holds (s : Site) (q : Place) : Prop := ∃ body ∈ s.body, body.Encloses q

instance (s : Site) (q : Place) : Decidable (s.Holds q) :=
  inferInstanceAs (Decidable (∃ body ∈ s.body, body.Encloses q))

end Site

/-- The scope after a site, which it may add to. -/
def Scope.after (separator : Text) (scope : Scope) (s : Site) : Scope :=
  (s.added?.map (scope.inside separator)).getD scope

section Fold

variable {separator outer : Text} {scope : Scope}

/-- Modules are put together with the separator, in their order. -/
theorem moduleName_foldl_after (hscope : scope.moduleName = some outer) (houter : outer ≠ [])
    (containers : List Site) :
    (containers.foldl (Scope.after separator) scope).moduleName =
      some (Text.joinWith separator (outer :: (containers.filter fun s =>
        s.rule.scope = some .moduleScope).map fun s => s.entity.name)) := by
  induction containers generalizing scope outer with
  | nil => simpa using hscope
  | cons s rest ih =>
    rw [List.foldl_cons]
    match hkind : s.rule.scope with
    | some .moduleScope =>
      have hafter : (scope.after separator s).moduleName =
          some (outer ++ separator ++ s.entity.name) := by
        have hnonEmpty : outer.nonEmpty? = some outer := Text.nonEmpty?_eq_some_iff.2 ⟨rfl, houter⟩
        simp [Scope.after, Site.added?, hkind, Scope.inside, Scope.insideModule, hscope, hnonEmpty]
      rw [ih hafter (by simp [houter]), List.filter_cons_of_pos (by simp [hkind]), List.map_cons,
        Text.joinWith_cons_cons]
    | some .typeScope =>
      have hafter : (scope.after separator s).moduleName = some outer := by
        simp [Scope.after, Site.added?, hkind, Scope.inside, Scope.insideType, hscope]
      rw [ih hafter houter, List.filter_cons_of_neg (by simp [hkind])]
    | none =>
      have hafter : (scope.after separator s).moduleName = some outer := by
        simp [Scope.after, Site.added?, hkind, hscope]
      rw [ih hafter houter, List.filter_cons_of_neg (by simp [hkind])]

/-- The last type counts. -/
theorem typeName_foldl_after (separator : Text) (scope : Scope) (containers : List Site) :
    (containers.foldl (Scope.after separator) scope).typeName =
      (((containers.filter fun s => s.rule.scope = some .typeScope).getLast?).map
        Site.rawName).or scope.typeName := by
  induction containers generalizing scope with
  | nil => rfl
  | cons s rest ih =>
    rw [List.foldl_cons, ih]
    match hkind : s.rule.scope with
    | some .moduleScope =>
      have hafter : (scope.after separator s).typeName = scope.typeName := by
        simp only [Scope.after, Site.added?, hkind, Option.map_some, Option.getD_some,
          Scope.inside, Scope.insideModule]
        split <;> rfl
      rw [hafter, List.filter_cons_of_neg (by simp [hkind])]
    | some .typeScope =>
      have hafter : (scope.after separator s).typeName = some s.rawName := by
        simp [Scope.after, Site.added?, hkind, Scope.inside, Scope.insideType]
      rw [hafter, List.filter_cons_of_pos (by simp [hkind]), List.getLast?_cons]
      cases (rest.filter fun s => s.rule.scope = some .typeScope).getLast? <;> rfl
    | none =>
      have hafter : (scope.after separator s).typeName = scope.typeName := by
        simp [Scope.after, Site.added?, hkind]
      rw [hafter, List.filter_cons_of_neg (by simp [hkind])]

end Fold

namespace SourceFile

variable {f : SourceFile} {root : Node} {p q : Place} {scope : Scope} {wrapper : Option Wrapper}
  {s t : Site}

theorem innerScope?_eq (f : SourceFile) (s : Site) :
    f.innerScope? s = s.added?.map (s.scope.inside f.grammar.separator) := by
  rw [innerScope?, Site.added?, Option.map_map]
  cases s.rule.scope with
  | none => rfl
  | some kind => cases kind <;> rfl

/-! ## The containers around a place -/

/-- The containers of one kind in whose bodies a place lies. -/
def containersAround (f : SourceFile) (root : Node) (kind : ScopeKind) (q : Place) : List Site :=
  (f.sites root).filter fun s => s.rule.scope = some kind ∧ s.Holds q

/-- The body of a site that is found from a place on lies below the place. -/
theorem Visited.encloses_body (hp : f.Visited root p scope wrapper)
    (hs : s ∈ f.walk (fun s => [s]) p scope wrapper) {body : Place} (hbody : s.body = some body) :
    p.Encloses body := by
  obtain ⟨q, inner, w, -, hsite⟩ := hp.exists_of_mem_walk hs
  have hmem := body_mem_children hsite hbody
  have hway := Place.way_prefix_of_mem_preorder (place_mem_preorder_of_mem_walk hs)
  refine ⟨hway.trans (Place.way_prefix_of_mem_children hmem), fun heq => ?_⟩
  have hlength := Place.length_way_of_mem_children hmem
  have hle := hway.length_le
  rw [heq] at hle
  omega

/-- A site that is found from a place on does not hold that place. -/
theorem Visited.not_holds_self (hp : f.Visited root p scope wrapper)
    (hs : s ∈ f.walk (fun s => [s]) p scope wrapper) (hway : q.way = p.way) : ¬ s.Holds q := by
  rintro ⟨body, hbody, hbq, -⟩
  obtain ⟨hbelow, hne⟩ := hp.encloses_body hs hbody
  rw [hway] at hbq
  exact hne (hbelow.eq_of_length_le hbq.length_le)

/-- The sites that hold a place below a child are found from that child on. -/
theorem filter_holds_flatMap {inner : Scope} {c : Place}
    (hvisited : ∀ d ∈ p.namedChildren, f.Visited root d inner none) (hc : c ∈ p.namedChildren)
    (hq : c.way <+: q.way) :
    (p.namedChildren.flatMap fun d => f.walk (fun s => [s]) d inner none).filter
        (fun s => s.Holds q) =
      (f.walk (fun s => [s]) c inner none).filter fun s => s.Holds q := by
  rw [List.filter_flatMap]
  have hnodup : p.namedChildren.Nodup :=
    (p.pairwise_way_children.imp fun hne heq => hne (congrArg Place.way heq)).sublist
      List.filter_sublist
  refine flatMap_eq_of_mem hnodup hc fun d hd hne => List.filter_eq_nil_iff.2 fun s hs => ?_
  rw [decide_eq_true_eq]
  rintro ⟨body, hbody, hbq, -⟩
  have hdq := ((hvisited d hd).encloses_body hs hbody).1.trans hbq
  have hdc : d = c := Place.eq_of_way_prefix (Place.mem_children_of_mem_namedChildren hd)
    (Place.mem_children_of_mem_namedChildren hc) hdq hq
  exact hne hdc

/-- The scope of a site is that of the visit, and what the sites add that hold it. -/
theorem Visited.scope_of_mem_walk (hp : f.Visited root p scope wrapper)
    (ht : t ∈ f.walk (fun s => [s]) p scope wrapper) :
    t.scope = ((f.walk (fun s => [s]) p scope wrapper).filter fun s => s.Holds t.place).foldl
      (Scope.after f.grammar.separator) scope := by
  induction p, scope, wrapper using walk.induct (f := f) with
  | case1 p scope wrapper w hv =>
    rw [walk_of_unwrap_none hv] at ht
    exact absurd ht List.not_mem_nil
  | case2 p scope wrapper inner w hv ih =>
    rw [walk_of_unwrap hv] at ht ⊢
    exact ih (hp.unwrap hv) ht
  | case3 p scope wrapper sites hv =>
    rw [walk_of_declare hv, List.flatMap_singleton'] at ht ⊢
    cases Decides.of_visit hv with
    | @declare rule =>
      have hnone : ∀ s ∈ f.declared p rule scope wrapper, ¬ s.Holds t.place := by
        rintro s hs ⟨body, hbody, -⟩
        rw [(declares_of_mem_declared hs).body_eq] at hbody
        cases hbody
      rw [List.filter_eq_nil_iff.2 (by simpa using hnone)]
      exact (declares_of_mem_declared ht).scope_eq
  | case4 p scope wrapper d hv ih =>
    have hself : ∀ s ∈ f.walk (fun s => [s]) p scope wrapper, ∀ q : Place, q.way = p.way →
        ¬ s.Holds q := fun s hs q => hp.not_holds_self hs
    obtain ⟨rule, -, -, -, hd⟩ := defines_of_visit hv
    rw [walk_of_define hv, List.singleton_append] at ht hself ⊢
    rcases List.mem_cons.1 ht with rfl | ht
    · have hnone : ∀ s ∈ t :: f.walkBody (fun s => [s]) t, ¬ s.Holds t.place := fun s hs =>
        hself s hs t.place (congrArg Place.way hd.place_eq)
      rw [List.filter_eq_nil_iff.2 (by simpa using hnone)]
      exact hd.scope_eq
    · obtain ⟨inner, body, c, hinner, hbody, hc, ht⟩ := exists_of_mem_walkBody ht
      have hway := Place.way_prefix_of_mem_preorder (place_mem_preorder_of_mem_walk ht)
      have hchild := Place.mem_children_of_mem_namedChildren hc
      have hholds : d.Holds t.place := by
        refine ⟨body, hbody, Place.encloses_of_mem_below (Place.mem_below.2 ⟨c, hchild, ?_⟩)⟩
        exact place_mem_preorder_of_mem_walk ht
      have hafter : scope.after f.grammar.separator d = inner := by
        rw [innerScope?_eq, hd.scope_eq] at hinner
        rw [Scope.after, hinner, Option.getD_some]
      rw [List.filter_cons_of_pos (by simpa using hholds), List.foldl_cons, hafter, walkBody,
        hinner, hbody, filter_holds_flatMap (fun d hd => hp.body hv hinner hbody hd) hc hway]
      exact ih inner body hbody ⟨c, hc⟩ (hp.body hv hinner hbody hc) ht
  | case5 p scope wrapper hv ih =>
    rw [walk_of_pass hv] at ht ⊢
    obtain ⟨c, hc, ht⟩ := List.mem_flatMap.1 ht
    have hway := Place.way_prefix_of_mem_preorder (place_mem_preorder_of_mem_walk ht)
    rw [filter_holds_flatMap (fun d hd => hp.pass hv hd) hc hway]
    exact ih ⟨c, hc⟩ (hp.pass hv hc) ht

/-- The site stands in the scope that the containers around it give. -/
theorem scope_of_mem_sites (ht : t ∈ f.sites root) :
    t.scope = ((f.sites root).filter fun s => s.Holds t.place).foldl
      (Scope.after f.grammar.separator) f.rootScope :=
  Visited.start.scope_of_mem_walk ht

theorem filter_scope_filter_holds (kind : ScopeKind) (q : Place) :
    (((f.sites root).filter fun s => s.Holds q).filter fun s => s.rule.scope = some kind) =
      f.containersAround root kind q := by
  rw [List.filter_filter, containersAround]
  simp only [Bool.decide_and]

theorem moduleName_of_mem_sites (hstem : f.path.stem ≠ []) (ht : t ∈ f.sites root) :
    t.scope.moduleName = some (Text.joinWith f.grammar.separator (f.path.stem ::
      (f.containersAround root .moduleScope t.place).map fun s => s.entity.name)) := by
  have hroot : f.rootScope.moduleName = some f.path.stem :=
    Text.nonEmpty?_eq_some_iff.2 ⟨rfl, hstem⟩
  rw [scope_of_mem_sites ht, moduleName_foldl_after hroot hstem, filter_scope_filter_holds]

theorem typeName_of_mem_sites (ht : t ∈ f.sites root) :
    t.scope.typeName =
      ((f.containersAround root .typeScope t.place).getLast?).map Site.rawName := by
  have hroot : f.rootScope.typeName = none := rfl
  rw [scope_of_mem_sites ht, typeName_foldl_after, filter_scope_filter_holds, hroot,
    Option.or_none]

theorem way_prefix_of_holds (hs : s ∈ f.sites root) (h : s.Holds q) : s.place.way <+: q.way := by
  obtain ⟨body, hbody, hbq, -⟩ := h
  obtain ⟨p, scope, wrapper, -, hsite⟩ := exists_visited_of_mem_sites hs
  exact (Place.way_prefix_of_mem_children (body_mem_children hsite hbody)).trans hbq

/-- The containers around a place come from the outermost on. -/
theorem pairwise_containersAround (f : SourceFile) (root : Node) (kind : ScopeKind) (q : Place) :
    (f.containersAround root kind q).Pairwise fun s t => t.place ∈ s.place.below := by
  have hsublist := f.map_place_walk_sublist_preorder (Place.root root) f.rootScope none
  have hways := ((Place.root root).nodup_map_way_preorder.sublist (hsublist.map Place.way))
  have horder := (Place.root root).pairwise_preorder.sublist hsublist
  rw [List.map_map, List.Nodup, List.pairwise_map] at hways
  rw [List.pairwise_map] at horder
  refine ((hways.and horder).sublist List.filter_sublist).imp_of_mem ?_
  rintro s t hs ht ⟨hne, hbehind⟩
  obtain ⟨hs, hholds⟩ := List.mem_filter.1 hs
  obtain ⟨ht, hholdt⟩ := List.mem_filter.1 ht
  rw [decide_eq_true_eq] at hholds hholdt
  have hsplace := place_mem_preorder_of_mem_walk hs
  have htplace := place_mem_preorder_of_mem_walk ht
  rcases List.prefix_or_prefix_of_prefix (way_prefix_of_holds hs hholds.2)
    (way_prefix_of_holds ht hholdt.2) with hst | hts
  · exact (Place.mem_below_iff_encloses hsplace htplace).2 ⟨hst, hne⟩
  · exact absurd ((Place.mem_below_iff_encloses htplace hsplace).2 ⟨hts, Ne.symm hne⟩) hbehind

/-! ## What has no influence -/

/-- What a node adds to the scope in its body, if its rule makes it a container with a name. -/
def added? (f : SourceFile) (p : Place) : Option (ScopeKind × Text) :=
  match f.grammar.rule? p.node.type with
  | none => none
  | some rule =>
    if rule.unwrapFields = [] ∧ rule.declarators = [] then
      (f.definitionName? p rule).bind fun name => rule.scope.map fun
        | .moduleScope => (.moduleScope, f.shownName rule p name)
        | .typeScope => (.typeScope, name)
    else none

theorem added?_of_define (hv : f.visit p scope wrapper = .define s) : f.added? p = s.added? := by
  obtain ⟨rule, hrule, hunwrap, hdefines, hs⟩ := defines_of_visit hv
  simp only [added?, hrule, hunwrap, hdefines, and_self, if_true, hs.rawName_eq, Option.bind_some,
    Site.added?, hs.rule_eq, hs.name_eq]

/-- A node that adds to the scope is a definition, wherever it is visited. -/
theorem added?_of_not_define (hv : ∀ s, f.visit p scope wrapper ≠ .define s) :
    f.added? p = none := by
  generalize hvisit : f.visit p scope wrapper = v at hv
  cases Decides.of_visit hvisit with
  | noRule hrule => simp [added?, hrule]
  | unwrap hrule hunwrap => simp [added?, hrule, hunwrap]
  | noDeclarator hrule _ hdeclares => simp [added?, hrule, hdeclares]
  | declare hrule _ hdeclares => simp [added?, hrule, hdeclares]
  | @noName rule hrule hunwrap hdefines hsite =>
    have hname : f.definitionName? p rule = none := by
      by_contra hsome
      obtain ⟨name, hname⟩ := Option.ne_none_iff_exists'.1 hsome
      obtain ⟨s, hs⟩ := (exists_definition?_iff scope wrapper).2 ⟨name, hname⟩
      rw [hsite] at hs
      cases hs
    simp [added?, hrule, hunwrap, hdefines, hname]
  | @define _ s => exact absurd rfl (hv s)

/-- A site at a place in a scope, or found from that place on. -/
def FoundFrom (f : SourceFile) (p : Place) (scope : Scope) (t : Site) : Prop :=
  (t.place = p ∧ t.scope = scope) ∨ ∃ wrapper, t ∈ f.walk (fun s => [s]) p scope wrapper

theorem FoundFrom.way_prefix (h : f.FoundFrom p scope t) : p.way <+: t.place.way := by
  rcases h with ⟨rfl, -⟩ | ⟨wrapper, ht⟩
  · exact List.prefix_rfl
  · exact Place.way_prefix_of_mem_preorder (place_mem_preorder_of_mem_walk ht)

/-- What is found from a node on is at the node, or found from a place below on in the scope that
the node gives: from a child of a container's body, or from a child of any other node. -/
theorem FoundFrom.step (h : f.FoundFrom p scope t) :
    (t.place = p ∧ t.scope = scope) ∨ ∃ c ∈ p.below,
      c.way.length = p.way.length + (if (f.added? p).isSome then 2 else 1) ∧
        f.FoundFrom c (((f.added? p).map (scope.inside f.grammar.separator)).getD scope) t := by
  rcases h with h | ⟨wrapper, ht⟩
  · exact .inl h
  · -- Without a container the scope stays, and a child comes next.
    have hchild : (∀ s, f.visit p scope wrapper ≠ .define s) → ∀ c ∈ p.children,
        f.FoundFrom c scope t → ∃ c ∈ p.below,
          c.way.length = p.way.length + (if (f.added? p).isSome then 2 else 1) ∧
            f.FoundFrom c (((f.added? p).map (scope.inside f.grammar.separator)).getD scope) t := by
      intro hdefine c hc hfound
      rw [added?_of_not_define hdefine]
      exact ⟨c, Place.mem_below_of_mem_children hc, Place.length_way_of_mem_children hc, hfound⟩
    cases hv : f.visit p scope wrapper with
    | unwrap inner w =>
      cases inner with
      | none =>
        rw [walk_of_unwrap_none hv] at ht
        exact absurd ht List.not_mem_nil
      | some inner =>
        rw [walk_of_unwrap hv] at ht
        exact .inr (hchild (by simp [hv]) inner (f.mem_children_of_visit_unwrap hv) (.inr ⟨_, ht⟩))
    | declare sites =>
      rw [walk_of_declare hv, List.flatMap_singleton'] at ht
      cases Decides.of_visit hv with
      | declare =>
        have hs := declares_of_mem_declared ht
        exact .inr (hchild (by simp [hv]) t.place
          (Place.mem_children_of_mem_namedChildren hs.place_mem) (.inl ⟨rfl, hs.scope_eq⟩))
    | define s =>
      obtain ⟨rule, -, -, -, hs⟩ := defines_of_visit hv
      rw [walk_of_define hv, List.singleton_append] at ht
      rcases List.mem_cons.1 ht with rfl | ht
      · exact .inl ⟨hs.place_eq, hs.scope_eq⟩
      · obtain ⟨inner, body, c, hinner, hbody, hc, ht⟩ := exists_of_mem_walkBody ht
        rw [innerScope?_eq, ← added?_of_define hv, hs.scope_eq] at hinner
        have hmem := f.mem_children_of_visit_define hv hbody
        have hcmem := Place.mem_children_of_mem_namedChildren hc
        refine .inr ⟨c, Place.mem_below.2 ⟨body, hmem, ?_⟩, ?_, ?_⟩
        · exact Place.mem_preorder_of_mem_below (Place.mem_below_of_mem_children hcmem)
        · have hsome : (f.added? p).isSome := by
            obtain ⟨a, ha, -⟩ := Option.map_eq_some_iff.1 hinner
            rw [ha]
            rfl
          rw [if_pos hsome, Place.length_way_of_mem_children hcmem,
            Place.length_way_of_mem_children hmem]
        · rw [hinner]
          exact .inr ⟨none, ht⟩
    | pass =>
      rw [walk_of_pass hv] at ht
      obtain ⟨c, hc, ht⟩ := List.mem_flatMap.1 ht
      have hmem := Place.mem_children_of_mem_namedChildren hc
      exact .inr (hchild (by simp [hv]) c hmem (.inr ⟨none, ht⟩))

theorem FoundFrom.scope_of_way_eq (h : f.FoundFrom p scope t) (hway : t.place.way = p.way) :
    t.scope = scope := by
  rcases h.step with ⟨-, hscope⟩ | ⟨c, hc, -, hfound⟩
  · exact hscope
  · have hlength := Place.length_way_lt_of_mem_below hc
    have hle := hfound.way_prefix.length_le
    rw [hway] at hle
    omega

/-- Two sites at one way have one scope if they are found from places on that stand in one scope,
and the nodes above the sites add the same to it. -/
theorem FoundFrom.scope_eq {g : SourceFile} {u : Site} {p q : Place} {scope : Scope}
    (hseparator : g.grammar.separator = f.grammar.separator) (ht : f.FoundFrom p scope t)
    (hu : g.FoundFrom q scope u) (hpq : p.way = q.way) (htu : t.place.way = u.place.way)
    (hadded : ∀ a ∈ p.preorder, ∀ b ∈ q.preorder, a.way = b.way → a.Encloses t.place →
      g.added? b = f.added? a) : t.scope = u.scope := by
  by_cases hway : t.place.way = p.way
  · rw [ht.scope_of_way_eq hway, hu.scope_of_way_eq (by rw [← htu, hway, hpq])]
  · have hsame : g.added? q = f.added? p :=
      hadded p p.mem_preorder_self q q.mem_preorder_self hpq ⟨ht.way_prefix, Ne.symm hway⟩
    obtain ⟨c, hc, hclength, hfound⟩ :=
      ht.step.resolve_left fun h => hway (congrArg Place.way h.1)
    obtain ⟨d, hd, hdlength, hfound'⟩ :=
      hu.step.resolve_left fun h => hway (by rw [htu, h.1, hpq])
    rw [hsame, hseparator] at hfound'
    have hlength : c.way.length = d.way.length := by rw [hclength, hdlength, hsame, hpq]
    have hcd : c.way = d.way := (List.prefix_of_prefix_length_le hfound.way_prefix
      (htu ▸ hfound'.way_prefix) (Nat.le_of_eq hlength)).eq_of_length hlength
    have hlt := Place.length_way_lt_of_mem_below hc
    have hle := hfound.way_prefix.length_le
    exact FoundFrom.scope_eq hseparator hfound hfound' hcd htu fun a ha b hb =>
      hadded a (Place.mem_preorder_trans (Place.mem_preorder_of_mem_below hc) ha)
        b (Place.mem_preorder_trans (Place.mem_preorder_of_mem_below hd) hb)
termination_by t.place.way.length - p.way.length

/-- Two trees in which the nodes above a place add the same to the scope, in files with one stem and
one separator. -/
structure AgreesAbove (f g : SourceFile) (root other : Node) (q : Place) : Prop where
  stem_eq : g.path.stem = f.path.stem
  separator_eq : g.grammar.separator = f.grammar.separator
  added_eq : ∀ a ∈ (Place.root root).preorder, ∀ b ∈ (Place.root other).preorder,
    a.way = b.way → a.Encloses q → g.added? b = f.added? a

theorem AgreesAbove.scope_eq {g : SourceFile} {other : Node} {u : Site}
    (h : f.AgreesAbove g root other t.place) (ht : t ∈ f.sites root) (hu : u ∈ g.sites other)
    (hway : u.place.way = t.place.way) : u.scope = t.scope := by
  have hroot : g.rootScope = f.rootScope := by rw [rootScope, rootScope, h.stem_eq]
  have hfound : g.FoundFrom (Place.root other) f.rootScope u := .inr ⟨none, hroot ▸ hu⟩
  exact (FoundFrom.scope_eq h.separator_eq (.inr ⟨none, ht⟩) hfound rfl hway.symm h.added_eq).symm

theorem context_of_mem_split (hstem : f.path.stem ≠ []) (ht : t ∈ f.sites root)
    {bound : Option Int} {e : Entity Text} (he : e ∈ t.entity.split bound) :
    e.context.moduleName = some (Text.joinWith f.grammar.separator (f.path.stem ::
        (f.containersAround root .moduleScope t.place).map fun s => s.entity.name)) ∧
      e.context.enclosingType =
        ((f.containersAround root .typeScope t.place).getLast?).map Site.rawName := by
  obtain ⟨hmodule, htype⟩ := scope_of_mem_split ht he
  rw [hmodule, htype]
  exact ⟨moduleName_of_mem_sites hstem ht, typeName_of_mem_sites ht⟩

theorem AgreesAbove.context_eq {g : SourceFile} {other : Node} {u : Site}
    (h : f.AgreesAbove g root other t.place) (ht : t ∈ f.sites root) (hu : u ∈ g.sites other)
    (hway : u.place.way = t.place.way) {bound : Option Int} {e : Entity Text}
    (he : e ∈ u.entity.split bound) :
    e.context.moduleName = t.entity.context.moduleName ∧
      e.context.enclosingType = t.entity.context.enclosingType := by
  obtain ⟨hmodule, htype⟩ := scope_of_mem_split hu he
  rw [hmodule, htype, h.scope_eq ht hu hway, context_of_mem_sites ht]
  exact ⟨rfl, rfl⟩

/-- The entities of a site stand in the module that is put together from the stem of the file and
the names of the modules around the site, and in the innermost of the types around it; and in no
other tree does a site at the same way stand in another module or type, if the nodes above it add
the same to the scope. -/
theorem entities_inContainers (f : SourceFile) (root : Node) (hstem : f.path.stem ≠ []) :
    (∀ bound, f.entities root bound = (f.sites root).flatMap fun t => t.entity.split bound) ∧
    ∀ t ∈ f.sites root,
      (∀ bound, ∀ e ∈ t.entity.split bound,
        e.context.moduleName = some (Text.joinWith f.grammar.separator (f.path.stem ::
          (f.containersAround root .moduleScope t.place).map fun s => s.entity.name)) ∧
        e.context.enclosingType =
          ((f.containersAround root .typeScope t.place).getLast?).map Site.rawName) ∧
      (∀ kind, (f.containersAround root kind t.place).Pairwise fun s u =>
        u.place ∈ s.place.below) ∧
      ∀ (g : SourceFile) (other : Node), f.AgreesAbove g root other t.place →
        ∀ u ∈ g.sites other, u.place.way = t.place.way → ∀ bound, ∀ e ∈ u.entity.split bound,
          e.context.moduleName = t.entity.context.moduleName ∧
          e.context.enclosingType = t.entity.context.enclosingType :=
  ⟨f.entities_eq_flatMap root, fun t ht => ⟨fun _ _ he => context_of_mem_split hstem ht he,
    fun kind => f.pairwise_containersAround root kind t.place,
    fun _ _ hagree _ hu hway _ _ he => hagree.context_eq ht hu hway he⟩⟩

/-! ## A method in a module -/

/-- A module with an implementation block, and a function in that. -/
def nestedPeer : SourceFile where
  grammar := Grammar.rust
  source := Utf8.encode "mod net \x7b impl Peer \x7b fn ping() \x7b\x7d \x7d \x7d\n"
  path := ⟨[], ["src", "lib.rs"]⟩

def pingFunction : Node :=
  ⟨"function_item", true, "", 22, 34,
    [⟨"fn", false, "", 22, 24, []⟩, ⟨"identifier", true, "name", 25, 29, []⟩,
      ⟨"parameters", true, "parameters", 29, 31,
        [⟨"(", false, "", 29, 30, []⟩, ⟨")", false, "", 30, 31, []⟩]⟩,
      ⟨"block", true, "body", 32, 34,
        [⟨"\x7b", false, "", 32, 33, []⟩, ⟨"\x7d", false, "", 33, 34, []⟩]⟩]⟩

def peerBlock : Node :=
  ⟨"impl_item", true, "", 10, 36,
    [⟨"impl", false, "", 10, 14, []⟩, ⟨"type_identifier", true, "type", 15, 19, []⟩,
      ⟨"declaration_list", true, "body", 20, 36,
        [⟨"\x7b", false, "", 20, 21, []⟩, pingFunction, ⟨"\x7d", false, "", 35, 36, []⟩]⟩]⟩

def netModule : Node :=
  ⟨"mod_item", true, "", 0, 38,
    [⟨"mod", false, "", 0, 3, []⟩, ⟨"identifier", true, "name", 4, 7, []⟩,
      ⟨"declaration_list", true, "body", 8, 38,
        [⟨"\x7b", false, "", 8, 9, []⟩, peerBlock, ⟨"\x7d", false, "", 37, 38, []⟩]⟩]⟩

def nestedPeerTree : Node := ⟨"source_file", true, "", 0, 39, [netModule]⟩

def netPlace : Place := ⟨netModule, [0], []⟩

def peerPlace : Place := ⟨peerBlock, [0, 2, 1], []⟩

def pingPlace : Place := ⟨pingFunction, [0, 2, 1, 2, 1], []⟩

/-- The module, the block and the function are the sites, and the function lies in the bodies of
both others. -/
theorem exists_sites_nestedPeer : ∃ m b t, nestedPeer.sites nestedPeerTree = [m, b, t] ∧
    t.rawName = "ping" ∧ t.place.node.type = "function_item" ∧ t.entity.kind = Kind.method ∧
    nestedPeer.containersAround nestedPeerTree .moduleScope t.place = [m] ∧ m.entity.name = "net" ∧
    nestedPeer.containersAround nestedPeerTree .typeScope t.place = [b] ∧ b.rawName = "Peer" := by
  have hroot : nestedPeer.visit (Place.root nestedPeerTree) nestedPeer.rootScope none = .pass := rfl
  have hchildren : (Place.root nestedPeerTree).namedChildren = [netPlace] := rfl
  obtain ⟨m, mInner, mBody, hm, hmInner, hmBody, hmChildren, hmWay, hmScope, hmName⟩ :
      ∃ m inner body, nestedPeer.visit netPlace nestedPeer.rootScope none = .define m ∧
        nestedPeer.innerScope? m = some inner ∧ m.body = some body ∧
        body.namedChildren = [peerPlace] ∧ body.way = [0, 2] ∧
        m.rule.scope = some .moduleScope ∧ m.entity.name = "net" :=
    ⟨_, _, _, rfl, rfl, rfl, rfl, rfl, rfl, rfl⟩
  obtain ⟨b, bInner, bBody, hb, hbInner, hbBody, hbChildren, hbWay, hbScope, hbName, hbType⟩ :
      ∃ b inner body, nestedPeer.visit peerPlace mInner none = .define b ∧
        nestedPeer.innerScope? b = some inner ∧ b.body = some body ∧
        body.namedChildren = [pingPlace] ∧ body.way = [0, 2, 1, 2] ∧
        b.rule.scope = some .typeScope ∧ b.rawName = "Peer" ∧ inner.inType = true :=
    ⟨_, _, _, rfl, rfl, rfl, rfl, rfl, rfl, rfl, rfl⟩
  obtain ⟨t, ht, htInner, htPlace, htScope, htName, htNode, htKind⟩ :
      ∃ t, nestedPeer.visit pingPlace bInner none = .define t ∧ nestedPeer.innerScope? t = none ∧
        t.place.way = [0, 2, 1, 2, 1] ∧ t.rule.scope = none ∧ t.rawName = "ping" ∧
        t.place.node.type = "function_item" ∧ t.entity.kind = Kind.method :=
    ⟨_, rfl, rfl, rfl, rfl, rfl, rfl, if_pos hbType⟩
  have hsites : nestedPeer.sites nestedPeerTree = [m, b, t] := by
    rw [sites, walk_of_pass hroot, hchildren, List.flatMap_singleton, walk_of_define hm, walkBody,
      hmInner, hmBody]
    simp only [hmChildren, List.flatMap_singleton]
    rw [walk_of_define hb, walkBody, hbInner, hbBody]
    simp only [hbChildren, List.flatMap_singleton]
    rw [walk_of_define ht, walkBody, htInner]
    rfl
  refine ⟨m, b, t, hsites, htName, htNode, htKind, ?_, hmName, ?_, hbName⟩
  · rw [containersAround, hsites]
    simp [hmScope, hbScope, htScope, Site.Holds, hmBody, Place.Encloses, hmWay, htPlace]
  · rw [containersAround, hsites]
    simp [hmScope, hbScope, htScope, Site.Holds, hbBody, Place.Encloses, hbWay, htPlace]

theorem entities_inContainers_nestedPeer :
    nestedPeer.path.stem ≠ [] ∧ ∃ t ∈ nestedPeer.sites nestedPeerTree, t.rawName = "ping" ∧
      (∀ bound, ∀ e ∈ t.entity.split bound,
        e.context.moduleName = some "lib::net" ∧ e.context.enclosingType = some "Peer") ∧
      (∀ kind, (nestedPeer.containersAround nestedPeerTree kind t.place).Pairwise
        fun s u => u.place ∈ s.place.below) ∧
      ∀ (g : SourceFile) (other : Node), nestedPeer.AgreesAbove g nestedPeerTree other t.place →
        ∀ u ∈ g.sites other, u.place.way = t.place.way → ∀ bound, ∀ e ∈ u.entity.split bound,
          e.context.moduleName = t.entity.context.moduleName ∧
          e.context.enclosingType = t.entity.context.enclosingType := by
  obtain ⟨m, b, t, hsites, htName, -, -, hmodules, hmName, htypes, hbName⟩ :=
    exists_sites_nestedPeer
  have hstem : nestedPeer.path.stem ≠ [] := by decide
  have ht : t ∈ nestedPeer.sites nestedPeerTree := by simp [hsites]
  obtain ⟨-, hsite⟩ := entities_inContainers nestedPeer nestedPeerTree hstem
  obtain ⟨hcontext, horder, hframe⟩ := hsite t ht
  refine ⟨hstem, t, ht, htName, fun bound e he => ?_, horder, hframe⟩
  obtain ⟨hmodule, htype⟩ := hcontext bound e he
  rw [hmodule, htype, hmodules, htypes, List.map_singleton, hmName, List.getLast?_singleton,
    Option.map_some, hbName]
  exact ⟨rfl, rfl⟩

end SourceFile

end CodeCatalog
