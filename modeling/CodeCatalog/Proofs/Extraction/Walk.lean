import CodeCatalog.Extraction
import CodeCatalog.Proofs.Chunk.Split
import CodeCatalog.Proofs.Lists
import Mathlib.Data.List.Basic
set_option autoImplicit false

/-!
# The sites of a walk

A walk decides at each node what is to be done with it, and puts together what becomes of the
sites in their order.  So whatever is made of the sites, the walk finds the same ones, and each of
them is a site of a node that was visited: of a definition with a name, or of one of the
declarators of a declaration.
-/

namespace CodeCatalog.SourceFile

variable {f : SourceFile}

/-! ## Equations of the walk -/

section Equations

variable {α : Type} {emit : Site → List α} {p : Place} {scope : Scope} {wrapper : Option Wrapper}

/-- What becomes of the sites in the body of a container. -/
def walkBody (f : SourceFile) (emit : Site → List α) (s : Site) : List α :=
  match f.innerScope? s, s.body with
  | some inner, some body => body.namedChildren.flatMap fun c => f.walk emit c inner none
  | _, _ => []

theorem walk_of_unwrap_none {w : Wrapper} (h : f.visit p scope wrapper = .unwrap none w) :
    f.walk emit p scope wrapper = [] := by
  rw [walk]
  split <;> simp_all

theorem walk_of_unwrap {w : Wrapper} {inner : Place}
    (h : f.visit p scope wrapper = .unwrap (some inner) w) :
    f.walk emit p scope wrapper = f.walk emit inner scope (some w) := by
  rw [walk]
  split <;> simp_all

theorem walk_of_declare {sites : List Site} (h : f.visit p scope wrapper = .declare sites) :
    f.walk emit p scope wrapper = sites.flatMap emit := by
  rw [walk]
  split <;> simp_all

theorem walk_of_define {s : Site} (h : f.visit p scope wrapper = .define s) :
    f.walk emit p scope wrapper = emit s ++ f.walkBody emit s := by
  rw [walk, walkBody]
  split <;> simp_all
  -- The body is matched together with the equation that the recursion needs, so both matches are
  -- split by hand.
  subst h
  split
  · rename_i hinner hbody
    simp [hinner, hbody]
  · rename_i hnone
    split
    · simp_all
    · rfl

theorem walk_of_pass (h : f.visit p scope wrapper = .pass) :
    f.walk emit p scope wrapper = p.namedChildren.flatMap fun c => f.walk emit c scope none := by
  rw [walk]
  split <;> simp_all

end Equations

/-- A walk finds the same sites whatever is made of them. -/
theorem walk_eq_flatMap {α : Type} (f : SourceFile) (emit : Site → List α) (p : Place)
    (scope : Scope) (wrapper : Option Wrapper) :
    f.walk emit p scope wrapper = (f.walk (fun s => [s]) p scope wrapper).flatMap emit := by
  induction p, scope, wrapper using walk.induct (f := f) with
  | case1 p scope wrapper w hv =>
    rw [walk_of_unwrap_none hv, walk_of_unwrap_none hv, List.flatMap_nil]
  | case2 p scope wrapper inner w hv ih =>
    rw [walk_of_unwrap hv, walk_of_unwrap hv, ih]
  | case3 p scope wrapper sites hv =>
    rw [walk_of_declare hv, walk_of_declare hv, List.flatMap_singleton']
  | case4 p scope wrapper s hv ih =>
    have hbody : f.walkBody emit s = (f.walkBody (fun s => [s]) s).flatMap emit := by
      rw [walkBody, walkBody]
      split
      · rename_i inner body _ hbody
        rw [List.flatMap_assoc]
        exact List.flatMap_congr fun c hc => ih inner body hbody ⟨c, hc⟩
      · rfl
    rw [walk_of_define hv, walk_of_define hv, hbody, List.flatMap_append, List.flatMap_singleton]
  | case5 p scope wrapper hv ih =>
    rw [walk_of_pass hv, walk_of_pass hv, List.flatMap_assoc]
    exact List.flatMap_congr fun c hc => ih ⟨c, hc⟩

theorem entities_eq_flatMap (f : SourceFile) (root : Node) (bound : Option Int) :
    f.entities root bound = (f.sites root).flatMap fun s => s.entity.split bound :=
  f.walk_eq_flatMap _ _ _ _

/-- Without a bound there is one entity for each site. -/
theorem entities_none (f : SourceFile) (root : Node) :
    f.entities root none = (f.sites root).map Site.entity := by
  rw [entities_eq_flatMap, List.map_eq_flatMap]
  rfl

/-- Splitting has no influence on what a walk finds: with a bound, it gives the parts of what it
gives without one, in the same order. -/
theorem entities_eq_flatMap_split (f : SourceFile) (root : Node) (bound : Option Int) :
    f.entities root bound = (f.entities root none).flatMap (Entity.split bound) :=
  calc
    f.entities root bound = (f.sites root).flatMap fun s => s.entity.split bound :=
      f.entities_eq_flatMap root bound
    _ = ((f.sites root).map Site.entity).flatMap (Entity.split bound) :=
      (List.flatMap_map _ _ _).symm
    _ = (f.entities root none).flatMap (Entity.split bound) := by
      rw [f.entities_none root]

/-! ## What is decided at a node -/

/-- What is to be done with a node, told by the rule for its type. -/
inductive Decides (f : SourceFile) (p : Place) (scope : Scope) (wrapper : Option Wrapper) :
    Visit → Prop
  | noRule (hrule : f.grammar.rule? p.node.type = none) : f.Decides p scope wrapper .pass
  | unwrap {rule : Rule} (hrule : f.grammar.rule? p.node.type = some rule)
    (hunwrap : rule.unwrapFields ≠ []) :
    f.Decides p scope wrapper
      (.unwrap (p.firstField? rule.unwrapFields) (wrapper.getD ⟨p, rule.keepWrapper⟩))
  | noDeclarator {rule : Rule} (hrule : f.grammar.rule? p.node.type = some rule)
    (hunwrap : rule.unwrapFields = []) (hdeclares : rule.declarators ≠ [])
    (hsites : f.declared p rule scope wrapper = []) : f.Decides p scope wrapper .pass
  | declare {rule : Rule} (hrule : f.grammar.rule? p.node.type = some rule)
    (hunwrap : rule.unwrapFields = []) (hdeclares : rule.declarators ≠ [])
    (hsites : f.declared p rule scope wrapper ≠ []) :
    f.Decides p scope wrapper (.declare (f.declared p rule scope wrapper))
  | noName {rule : Rule} (hrule : f.grammar.rule? p.node.type = some rule)
    (hunwrap : rule.unwrapFields = []) (hdefines : rule.declarators = [])
    (hsite : f.definition? p rule scope wrapper = none) : f.Decides p scope wrapper .pass
  | define {rule : Rule} {s : Site} (hrule : f.grammar.rule? p.node.type = some rule)
    (hunwrap : rule.unwrapFields = []) (hdefines : rule.declarators = [])
    (hsite : f.definition? p rule scope wrapper = some s) : f.Decides p scope wrapper (.define s)

theorem decides_visit (f : SourceFile) (p : Place) (scope : Scope) (wrapper : Option Wrapper) :
    f.Decides p scope wrapper (f.visit p scope wrapper) := by
  unfold visit
  split
  · rename_i hrule
    exact .noRule hrule
  · rename_i rule hrule
    split
    · rename_i hunwrap
      exact .unwrap hrule (by simpa using hunwrap)
    · rename_i hunwrap
      have hfields : rule.unwrapFields = [] := by simpa using hunwrap
      split
      · rename_i hdeclares
        have hdeclarators : rule.declarators ≠ [] := by simpa using hdeclares
        split
        · rename_i hsites
          exact .noDeclarator hrule hfields hdeclarators hsites
        · rename_i hsites
          exact .declare hrule hfields hdeclarators hsites
      · rename_i hdefines
        have hdeclarators : rule.declarators = [] := by simpa using hdefines
        split
        · rename_i hsite
          exact .noName hrule hfields hdeclarators hsite
        · rename_i hsite
          exact .define hrule hfields hdeclarators hsite

theorem Decides.of_visit {p : Place} {scope : Scope} {wrapper : Option Wrapper} {v : Visit}
    (h : f.visit p scope wrapper = v) : f.Decides p scope wrapper v :=
  h ▸ f.decides_visit p scope wrapper

/-! ## Visits -/

/-- The sites that a visited node has itself. -/
def Visit.sites : Visit → List Site
  | .declare sites => sites
  | .define site => [site]
  | _ => []

section Visits

variable {root : Node} {p : Place} {scope : Scope} {wrapper : Option Wrapper}

/-- The visits of the walk of a tree: a place, with the scope and the wrapper that it is visited
in. -/
inductive Visited (f : SourceFile) (root : Node) : Place → Scope → Option Wrapper → Prop
  | start : f.Visited root (Place.root root) f.rootScope none
  | unwrap {p inner : Place} {scope : Scope} {wrapper : Option Wrapper} {w : Wrapper}
    (h : f.Visited root p scope wrapper) (hv : f.visit p scope wrapper = .unwrap (some inner) w) :
    f.Visited root inner scope (some w)
  | body {p body c : Place} {scope inner : Scope} {wrapper : Option Wrapper} {s : Site}
    (h : f.Visited root p scope wrapper) (hv : f.visit p scope wrapper = .define s)
    (hinner : f.innerScope? s = some inner) (hbody : s.body = some body)
    (hc : c ∈ body.namedChildren) : f.Visited root c inner none
  | pass {p c : Place} {scope : Scope} {wrapper : Option Wrapper}
    (h : f.Visited root p scope wrapper) (hv : f.visit p scope wrapper = .pass)
    (hc : c ∈ p.namedChildren) : f.Visited root c scope none

/-- Each site that is found from a visit on is a site of a visit. -/
theorem Visited.exists_of_mem_walk {s : Site} (hp : f.Visited root p scope wrapper)
    (h : s ∈ f.walk (fun s => [s]) p scope wrapper) :
    ∃ q inner w, f.Visited root q inner w ∧ s ∈ (f.visit q inner w).sites := by
  induction p, scope, wrapper using walk.induct (f := f) with
  | case1 p scope wrapper w hv =>
    rw [walk_of_unwrap_none hv] at h
    exact absurd h List.not_mem_nil
  | case2 p scope wrapper inner w hv ih =>
    rw [walk_of_unwrap hv] at h
    exact ih (hp.unwrap hv) h
  | case3 p scope wrapper sites hv =>
    rw [walk_of_declare hv, List.flatMap_singleton'] at h
    exact ⟨p, scope, wrapper, hp, by rwa [hv]⟩
  | case4 p scope wrapper d hv ih =>
    rw [walk_of_define hv] at h
    rcases List.mem_append.1 h with h | h
    · exact ⟨p, scope, wrapper, hp, by rwa [hv]⟩
    · rw [walkBody] at h
      split at h
      · rename_i inner body hinner hbody
        obtain ⟨c, hc, h⟩ := List.mem_flatMap.1 h
        exact ih inner body hbody ⟨c, hc⟩ (hp.body hv hinner hbody hc) h
      · exact absurd h List.not_mem_nil
  | case5 p scope wrapper hv ih =>
    rw [walk_of_pass hv] at h
    obtain ⟨c, hc, h⟩ := List.mem_flatMap.1 h
    exact ih ⟨c, hc⟩ (hp.pass hv hc) h

theorem mem_walk_of_mem_sites_visit {s : Site} (h : s ∈ (f.visit p scope wrapper).sites) :
    s ∈ f.walk (fun s => [s]) p scope wrapper := by
  cases hv : f.visit p scope wrapper with
  | unwrap | pass =>
    rw [hv] at h
    exact absurd h List.not_mem_nil
  | declare sites =>
    rw [hv] at h
    rwa [walk_of_declare hv, List.flatMap_singleton']
  | define d =>
    rw [hv] at h
    rw [walk_of_define hv]
    exact List.mem_append_left _ h

theorem mem_walk_of_pass {s : Site} {c : Place} (hv : f.visit p scope wrapper = .pass)
    (hc : c ∈ p.namedChildren) (h : s ∈ f.walk (fun s => [s]) c scope none) :
    s ∈ f.walk (fun s => [s]) p scope wrapper := by
  rw [walk_of_pass hv]
  exact List.mem_flatMap.2 ⟨c, hc, h⟩

theorem exists_visited_of_mem_sites {s : Site} (h : s ∈ f.sites root) :
    ∃ p scope wrapper, f.Visited root p scope wrapper ∧ s ∈ (f.visit p scope wrapper).sites :=
  Visited.start.exists_of_mem_walk h

end Visits

/-! ## Where sites come from -/

/-- The sites of a node are that of its definition, or those of its declarators. -/
theorem sites_visit_cases {s : Site} {p : Place} {scope : Scope} {wrapper : Option Wrapper}
    (h : s ∈ (f.visit p scope wrapper).sites) :
    ∃ rule, f.grammar.rule? p.node.type = some rule ∧ rule.unwrapFields = [] ∧
      ((rule.declarators = [] ∧ f.definition? p rule scope wrapper = some s ∧
          (f.visit p scope wrapper).sites = [s]) ∨
        (rule.declarators ≠ [] ∧
          (f.visit p scope wrapper).sites = f.declared p rule scope wrapper)) := by
  cases hv : f.visit p scope wrapper with
  | unwrap | pass =>
    rw [hv] at h
    exact absurd h List.not_mem_nil
  | declare sites =>
    cases Decides.of_visit hv with
    | declare hrule hunwrap hdeclares => exact ⟨_, hrule, hunwrap, .inr ⟨hdeclares, rfl⟩⟩
  | define d =>
    rw [hv] at h
    obtain rfl := List.mem_singleton.1 h
    cases Decides.of_visit hv with
    | define hrule hunwrap hdefines hsite =>
      exact ⟨_, hrule, hunwrap, .inl ⟨hdefines, hsite, rfl⟩⟩

/-- A site of a node is that of its definition, or one of its declarators. -/
theorem mem_sites_visit {s : Site} {p : Place} {scope : Scope} {wrapper : Option Wrapper}
    (h : s ∈ (f.visit p scope wrapper).sites) :
    ∃ rule, f.grammar.rule? p.node.type = some rule ∧ rule.unwrapFields = [] ∧
      ((rule.declarators = [] ∧ f.definition? p rule scope wrapper = some s) ∨
        (rule.declarators ≠ [] ∧ s ∈ f.declared p rule scope wrapper)) := by
  obtain ⟨rule, hrule, hunwrap, ⟨hdefines, hsite, -⟩ | ⟨hdeclares, hsites⟩⟩ := sites_visit_cases h
  · exact ⟨rule, hrule, hunwrap, .inl ⟨hdefines, hsite⟩⟩
  · exact ⟨rule, hrule, hunwrap, .inr ⟨hdeclares, hsites ▸ h⟩⟩

section Declarators

variable {s : Site} {d : Declaration} {isFirst : Bool} {ps : List Place}

/-- The first site of some declarators is that of the first one whose name is acceptable. -/
theorem exists_declarator_of_head? (h : (f.declaratorSites d isFirst ps).head? = some s) :
    ∃ p ∈ ps, ∃ nameNode, declaratorName? d.rule p = some nameNode ∧
      s = f.declaratorSite d isFirst p nameNode := by
  induction ps with
  | nil => cases h
  | cons p rest ih =>
    rw [declaratorSites] at h
    split at h
    · obtain ⟨q, hq, hsite⟩ := ih h
      exact ⟨q, List.mem_cons_of_mem _ hq, hsite⟩
    · rename_i nameNode hname
      rw [List.head?_cons, Option.some.injEq] at h
      exact ⟨p, List.mem_cons_self, nameNode, hname, h.symm⟩

/-- The sites behind it are not the first ones of their declaration. -/
theorem exists_declarator_of_mem_tail (h : s ∈ (f.declaratorSites d isFirst ps).tail) :
    ∃ p ∈ ps, ∃ nameNode, declaratorName? d.rule p = some nameNode ∧
      s = f.declaratorSite d false p nameNode := by
  induction ps generalizing isFirst with
  | nil => exact absurd h List.not_mem_nil
  | cons p rest ih =>
    have hrest : ∃ q ∈ rest, ∃ nameNode, declaratorName? d.rule q = some nameNode ∧
        s = f.declaratorSite d false q nameNode := by
      rw [declaratorSites] at h
      split at h
      · exact ih h
      · rcases head?_eq_or_mem_tail h with hhead | htail
        · exact exists_declarator_of_head? hhead
        · exact ih htail
    obtain ⟨q, hq, hsite⟩ := hrest
    exact ⟨q, List.mem_cons_of_mem _ hq, hsite⟩

/-- A declarator is a site if its name is acceptable. -/
theorem exists_declarator_of_mem_declaratorSites (h : s ∈ f.declaratorSites d isFirst ps) :
    ∃ first, ∃ p ∈ ps, ∃ nameNode, declaratorName? d.rule p = some nameNode ∧
      s = f.declaratorSite d first p nameNode := by
  rcases head?_eq_or_mem_tail h with hhead | htail
  · exact ⟨isFirst, exists_declarator_of_head? hhead⟩
  · exact ⟨false, exists_declarator_of_mem_tail htail⟩

end Declarators

/-! ## The file of an entity -/

theorem filePath_of_definition? {s : Site} {p : Place} {rule : Rule} {scope : Scope}
    {wrapper : Option Wrapper} (h : f.definition? p rule scope wrapper = some s) :
    s.entity.filePath = f.path.text := by
  unfold definition? at h
  obtain ⟨rawName, _, h⟩ := Option.bind_eq_some_iff.1 h
  cases h
  rfl

theorem filePath_of_mem_declared {s : Site} {p : Place} {rule : Rule} {scope : Scope}
    {wrapper : Option Wrapper} (h : s ∈ f.declared p rule scope wrapper) :
    s.entity.filePath = f.path.text := by
  obtain ⟨_, _, _, _, _, rfl⟩ := exists_declarator_of_mem_declaratorSites h
  rfl

/-- The entities of a file, split or whole, name its path. -/
theorem filePath_of_mem_entities {root : Node} {bound : Option Int} {e : Entity Text}
    (h : e ∈ f.entities root bound) : e.filePath = f.path.text := by
  rw [entities_eq_flatMap] at h
  obtain ⟨s, hs, he⟩ := List.mem_flatMap.1 h
  rw [Entity.filePath_of_mem_split he]
  obtain ⟨q, inner, w, -, hs⟩ := exists_visited_of_mem_sites hs
  obtain ⟨_, _, _, ⟨_, hs⟩ | ⟨_, hs⟩⟩ := mem_sites_visit hs
  · exact filePath_of_definition? hs
  · exact filePath_of_mem_declared hs

end CodeCatalog.SourceFile
