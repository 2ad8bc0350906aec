import CodeCatalog.Proofs.Extraction.Nesting
import CodeCatalog.Extraction
set_option autoImplicit false

/-!
# Functions that render markup

The search for markup keeps a work list of nodes.  A step that goes on takes the first node off the
list and puts its children there, the last one in front.  What the trees on the list hold stays the
same but for that node, so the search ends after at most as many steps as the tree has nodes, and it
ends at a node of markup exactly if there is one in the tree, at whatever depth and named or not.
-/

namespace CodeCatalog

namespace Node

/-! ## The number of nodes -/

theorem size_eq_succ (n : Node) : n.size = sizes n.children + 1 := by
  cases n
  rfl

mutual

/-- As many nodes are counted as a tree has. -/
theorem size_eq_length_nodes : ∀ n : Node, n.size = n.nodes.length
  | ⟨_, _, _, _, _, children⟩ => by
    rw [size_eq_succ, nodes_eq_cons, List.length_cons, sizes_eq_length_nodesOf children]

theorem sizes_eq_length_nodesOf : ∀ ns : List Node, sizes ns = (nodesOf ns).length
  | [] => rfl
  | n :: rest => by
    rw [sizes, nodesOf, List.length_append, size_eq_length_nodes n, sizes_eq_length_nodesOf rest]

end

theorem mem_nodesOf {ns : List Node} {m : Node} : m ∈ nodesOf ns ↔ ∃ n ∈ ns, m ∈ n.nodes := by
  rw [nodesOf_eq_flatMap, List.mem_flatMap]

end Node

/-! ## Steps of the search -/

variable {types : List String} {work next last : List Node} {k : Nat} {answer : Bool}

/-- A step of the search that goes on: the first node has none of the types, and its children take
its place, the last one in front. -/
inductive SearchStep (types : List String) : List Node → List Node → Prop
  | pass {n : Node} {rest : List Node} (h : n.type ∉ types) :
      SearchStep types (n :: rest) (n.children.reverse ++ rest)

/-- The search ends at a work list with an answer: nothing is left, or the first node has one of the
types. -/
inductive SearchEnd (types : List String) : List Node → Bool → Prop
  | exhausted : SearchEnd types [] false
  | found {n : Node} {rest : List Node} (h : n.type ∈ types) : SearchEnd types (n :: rest) true

/-- The search goes from one work list to another in so many steps. -/
inductive SearchRun (types : List String) : Nat → List Node → List Node → Prop
  | stay {work : List Node} : SearchRun types 0 work work
  | step {k : Nat} {work next last : List Node} (h : SearchStep types work next)
      (rest : SearchRun types k next last) : SearchRun types (k + 1) work last

/-- A node of one of the types is in the trees on a work list. -/
def HoldsType (types : List String) (work : List Node) : Prop :=
  ∃ m ∈ Node.nodesOf work, m.type ∈ types

namespace SearchStep

/-- A step takes one node off the trees. -/
theorem sizes_succ (h : SearchStep types work next) : Node.sizes next + 1 = Node.sizes work := by
  cases h with
  | @pass n rest _ =>
    rw [Node.sizes_append, Node.sizes_reverse, Node.sizes, n.size_eq_succ]
    omega

/-- What a step takes off has none of the types. -/
theorem holdsType_iff (h : SearchStep types work next) :
    HoldsType types next ↔ HoldsType types work := by
  cases h with
  | @pass n rest hn =>
    simp only [HoldsType, Node.nodesOf, Node.nodesOf_eq_flatMap, n.nodes_eq_cons,
      List.flatMap_append, List.mem_append, List.mem_flatMap, List.mem_reverse, List.mem_cons]
    constructor
    · rintro ⟨m, hm, hmarkup⟩
      exact ⟨m, hm.imp_left .inr, hmarkup⟩
    · rintro ⟨m, (rfl | hm) | hm, hmarkup⟩
      · exact absurd hmarkup hn
      · exact ⟨m, .inl hm, hmarkup⟩
      · exact ⟨m, .inr hm, hmarkup⟩

theorem searchTypes_eq (h : SearchStep types work next) :
    searchTypes types work = searchTypes types next := by
  cases h with
  | pass hn => rw [searchTypes, if_neg (by simpa using hn)]

end SearchStep

namespace SearchEnd

theorem searchTypes_eq (h : SearchEnd types last answer) : searchTypes types last = answer := by
  cases h with
  | exhausted => rw [searchTypes]
  | found hn => rw [searchTypes, if_pos (by simpa using hn)]

/-- Where the search ends, the answer is right. -/
theorem answer_iff (h : SearchEnd types last answer) : answer = true ↔ HoldsType types last := by
  cases h with
  | exhausted => simp [HoldsType, Node.nodesOf]
  | @found n rest hn =>
    have hmem : n ∈ Node.nodesOf (n :: rest) :=
      Node.mem_nodesOf.2 ⟨n, List.mem_cons_self, n.mem_nodes_self⟩
    exact ⟨fun _ => ⟨n, hmem, hn⟩, fun _ => rfl⟩

end SearchEnd

/-! ## Runs of the search -/

namespace SearchRun

/-- A run takes one node off the trees in each step. -/
theorem sizes_add (h : SearchRun types k work last) : Node.sizes last + k = Node.sizes work := by
  induction h with
  | stay => rfl
  | step h _ ih =>
    rw [← h.sizes_succ]
    omega

theorem holdsType_iff (h : SearchRun types k work last) :
    HoldsType types last ↔ HoldsType types work := by
  induction h with
  | stay => rfl
  | step h _ ih => exact ih.trans h.holdsType_iff

theorem searchTypes_eq (h : SearchRun types k work last) :
    searchTypes types work = searchTypes types last := by
  induction h with
  | stay => rfl
  | step h _ ih => exact h.searchTypes_eq.trans ih

/-- Every work list is searched to an end: each step leaves one node less. -/
theorem exists_end (types : List String) (work : List Node) :
    ∃ k last answer, SearchRun types k work last ∧ SearchEnd types last answer := by
  induction hsize : Node.sizes work using Nat.strongRecOn generalizing work with
  | ind size ih =>
    cases work with
    | nil => exact ⟨0, [], false, .stay, .exhausted⟩
    | cons n rest =>
      by_cases hn : n.type ∈ types
      · exact ⟨0, n :: rest, true, .stay, .found hn⟩
      · have hstep : SearchStep types (n :: rest) (n.children.reverse ++ rest) := .pass hn
        have hless : Node.sizes (n.children.reverse ++ rest) < size := by
          rw [← hsize, ← hstep.sizes_succ]
          exact Nat.lt_succ_self _
        obtain ⟨k, last, answer, hrun, hend⟩ := ih _ hless _ rfl
        exact ⟨k + 1, last, answer, .step hstep hrun, hend⟩

end SearchRun

/-- The search finds a node exactly if the trees on the work list hold one. -/
theorem searchTypes_iff_holdsType (types : List String) (work : List Node) :
    searchTypes types work = true ↔ HoldsType types work := by
  obtain ⟨k, last, answer, hrun, hend⟩ := SearchRun.exists_end types work
  rw [hrun.searchTypes_eq, hend.searchTypes_eq, hend.answer_iff, hrun.holdsType_iff]

/-! ## Components -/

namespace SourceFile

variable (f : SourceFile) (n : Node)

/-- A grammar without markup needs no search, which would find nothing. -/
theorem containsMarkup_some :
    f.containsMarkup (some n) = searchTypes f.grammar.markupTypes [n] := by
  rw [containsMarkup]
  cases htypes : f.grammar.markupTypes with
  | nil =>
    have hnone : ¬HoldsType [] [n] := by simp [HoldsType]
    rw [← searchTypes_iff_holdsType, Bool.not_eq_true] at hnone
    rw [hnone, Bool.and_false]
  | cons type rest => rfl

theorem containsMarkup_iff_mem_nodes :
    f.containsMarkup (some n) = true ↔ ∃ m ∈ n.nodes, m.type ∈ f.grammar.markupTypes := by
  rw [containsMarkup_some, searchTypes_iff_holdsType, HoldsType, Node.nodesOf_eq_flatMap,
    List.flatMap_singleton]

/-- The search for markup in a tree ends, after no more steps than the tree has nodes, and finds
markup exactly if some node of the tree, the root or any below it, is of a type of markup.  Outside
types that makes a function a component. -/
theorem containsMarkup_searchesTree :
    (∃ k last, SearchRun f.grammar.markupTypes k [n] last ∧ k ≤ n.nodes.length ∧
      SearchEnd f.grammar.markupTypes last (f.containsMarkup (some n))) ∧
    (f.containsMarkup (some n) = true ↔ ∃ m ∈ n.nodes, m.type ∈ f.grammar.markupTypes) ∧
    ∀ scope : Scope, f.callableKind scope (some n) = Kind.component ↔
      scope.inType = false ∧ ∃ m ∈ n.nodes, m.type ∈ f.grammar.markupTypes := by
  refine ⟨?_, f.containsMarkup_iff_mem_nodes n, fun scope => ?_⟩
  · obtain ⟨k, last, answer, hrun, hend⟩ := SearchRun.exists_end f.grammar.markupTypes [n]
    have hanswer : f.containsMarkup (some n) = answer := by
      rw [containsMarkup_some, hrun.searchTypes_eq, hend.searchTypes_eq]
    have hsteps : k ≤ n.nodes.length := by
      have hsizes := hrun.sizes_add
      rw [Node.sizes, Node.sizes, n.size_eq_length_nodes] at hsizes
      omega
    exact ⟨k, last, hrun, hsteps, hanswer ▸ hend⟩
  · have hmethod : Kind.method ≠ Kind.component := by decide
    have hfunction : Kind.function ≠ Kind.component := by decide
    rw [← containsMarkup_iff_mem_nodes, callableKind]
    cases scope.inType <;> cases f.containsMarkup (some n) <;> simp [hmethod, hfunction]

end SourceFile

end CodeCatalog
