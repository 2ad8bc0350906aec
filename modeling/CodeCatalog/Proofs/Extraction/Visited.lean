import CodeCatalog.Proofs.Extraction.Preorder
set_option autoImplicit false

/-!
# Where a walk visits

A walk goes on from a visited node to nodes of its tree, so what lies in the tree of a node holds
of all visits: they stay in the tree of the root, and where ranges are nested a visited node lies
inside the wrapper that it is visited in.
-/

namespace CodeCatalog.SourceFile

variable {f : SourceFile} {root : Node} {p : Place} {scope : Scope} {wrapper : Option Wrapper}

/-- What a wrapper wraps is visited in the outermost wrapper. -/
theorem wrapper_of_visit_unwrap {inner : Place} {w : Wrapper}
    (h : f.visit p scope wrapper = .unwrap (some inner) w) :
    ∃ keepText, w = wrapper.getD ⟨p, keepText⟩ := by
  generalize hinner : some inner = target at h
  cases Decides.of_visit h with
  | unwrap => exact ⟨_, rfl⟩

/-- Visits stay in the tree. -/
theorem Visited.node_mem_nodes (h : f.Visited root p scope wrapper) : p.node ∈ root.nodes :=
  Place.node_mem_nodes_of_mem_preorder h.place_mem_preorder

/-- A visited node lies inside the wrapper that it is visited in. -/
theorem Visited.inside_wrapper (hroot : root.IsNested) (h : f.Visited root p scope wrapper) :
    ∀ w ∈ wrapper, p.node.Inside w.place.node := by
  induction h with
  | start | body | pass => simp
  | @unwrap p inner scope wrapper w h hv ih =>
    intro w' hw'
    obtain rfl : w = w' := Option.some.inj hw'
    have hmem := Place.node_mem_children (f.mem_children_of_visit_unwrap hv)
    have hinner : inner.node.Inside p.node := hroot p.node h.node_mem_nodes inner.node hmem
    obtain ⟨keepText, rfl⟩ := wrapper_of_visit_unwrap hv
    cases wrapper with
    | none => exact hinner
    | some outer => exact hinner.trans (ih outer rfl)

end CodeCatalog.SourceFile
