import Mathlib.Data.List.Perm.Subperm
import Mathlib.Data.List.Sort
import CodeCatalog.Embedding.Embedder
import CodeCatalog.Proofs.Lists
set_option autoImplicit false

/-!
# The vectors of a reply

A reply numbers its vectors by the texts of the request and may send them in any order.  An embedder
puts them into the order of the texts.  A reply with another number of vectors is a fault, so a
reply that numbers no text twice gives every text its own vector or gives none at all.
-/

namespace CodeCatalog

/-! ## Numbered vectors -/

/-- The items that number vectors in their order. -/
def numbered (vs : List (List Double)) : List ReplyItem := vs.zipIdx.map fun v => ⟨v.2, v.1⟩

/-- The items of a reply by their numbers. -/
def byIndex (items : List ReplyItem) : List ReplyItem :=
  items.mergeSort fun a b => a.index ≤ b.index

theorem length_numbered (vs : List (List Double)) : (numbered vs).length = vs.length := by
  rw [numbered, List.length_map, List.length_zipIdx]

theorem map_index_numbered (vs : List (List Double)) :
    (numbered vs).map ReplyItem.index = List.range vs.length := by
  rw [numbered, List.map_map]
  change vs.zipIdx.map Prod.snd = _
  rw [List.zipIdx_map_snd, List.range_eq_range']

theorem map_vector_numbered (vs : List (List Double)) :
    (numbered vs).map ReplyItem.vector = vs := by
  rw [numbered, List.map_map]
  change vs.zipIdx.map Prod.fst = _
  rw [List.zipIdx_map_fst]

/-- Items that are numbered from zero on number their vectors. -/
theorem eq_numbered_of_map_index {items : List ReplyItem}
    (h : items.map ReplyItem.index = List.range items.length) :
    items = numbered (items.map ReplyItem.vector) := by
  apply List.ext_getElem
  · rw [length_numbered, List.length_map]
  · intro i hi hi'
    have hindex : items[i].index = i := by
      have hget := List.getElem_of_eq h (i := i) (by rwa [List.length_map])
      rwa [List.getElem_map, List.getElem_range] at hget
    have hnumbered : (numbered (items.map ReplyItem.vector))[i] = ⟨i, items[i].vector⟩ := by
      simp [numbered]
    rw [hnumbered]
    exact congrArg (ReplyItem.mk · items[i].vector) hindex

/-! ## The order of a reply -/

theorem byIndex_perm (items : List ReplyItem) : (byIndex items).Perm items :=
  List.mergeSort_perm items _

theorem pairwise_byIndex (items : List ReplyItem) :
    (byIndex items).Pairwise fun a b => a.index ≤ b.index := by
  have hsorted : (byIndex items).Pairwise fun a b => decide (a.index ≤ b.index) = true := by
    apply List.pairwise_mergeSort
    · intro a b c hab hbc
      exact decide_eq_true (Nat.le_trans (of_decide_eq_true hab) (of_decide_eq_true hbc))
    · intro a b
      simpa using Nat.le_total a.index b.index
  exact hsorted.imp of_decide_eq_true

/-- Where every number from zero on occurs once, sorted items are numbered from zero on. -/
theorem map_index_byIndex {items : List ReplyItem} {n : Nat}
    (h : (items.map ReplyItem.index).Perm (List.range n)) :
    (byIndex items).map ReplyItem.index = List.range n := by
  have hperm : ((byIndex items).map ReplyItem.index).Perm (List.range n) :=
    ((byIndex_perm items).map _).trans h
  apply hperm.eq_of_pairwise' (r := (· ≤ ·))
  · exact List.pairwise_map.2 (pairwise_byIndex items)
  · exact List.pairwise_le_range

/-- Sorted items number their vectors, where every number from zero on occurs once. -/
theorem byIndex_eq_numbered {items : List ReplyItem}
    (h : (items.map ReplyItem.index).Perm (List.range items.length)) :
    byIndex items = numbered ((byIndex items).map ReplyItem.vector) := by
  apply eq_numbered_of_map_index
  rw [map_index_byIndex h, (byIndex_perm items).length_eq]

/-- The items of a reply that numbers vectors, in whatever order, are sorted as the vectors are. -/
theorem byIndex_of_perm {items : List ReplyItem} {vs : List (List Double)}
    (h : items.Perm (numbered vs)) : byIndex items = numbered vs := by
  have hnodup : ((numbered vs).map ReplyItem.index).Nodup := by
    rw [map_index_numbered]
    exact List.nodup_range
  have hsorted : (numbered vs).Pairwise fun a b => a.index ≤ b.index := by
    rw [← List.pairwise_map (f := ReplyItem.index), map_index_numbered]
    exact List.pairwise_le_range
  have hperm := (byIndex_perm items).trans h
  apply hperm.eq_of_pairwise _ (pairwise_byIndex items) hsorted
  intro a b ha hb hab hba
  exact List.inj_on_of_nodup_map hnodup (hperm.subset ha) hb (Nat.le_antisymm hab hba)

namespace Embedder

/-! ## The vectors of a reply -/

theorem vectors_of_length_ne {count : Nat} {items : List ReplyItem} (h : items.length ≠ count) :
    vectors count items = .error (.wrongCount count items.length) := if_neg h

theorem vectors_eq_ok {count : Nat} {items : List ReplyItem} {vs : List (List Double)} :
    vectors count items = .ok vs ↔
      items.length = count ∧ vs = (byIndex items).map ReplyItem.vector := by
  unfold vectors byIndex
  split
  · rename_i hcount
    rw [Except.ok.injEq, eq_comm, and_iff_right hcount]
  · rename_i hcount
    simp [hcount]

theorem vectors_of_perm {items : List ReplyItem} {vs : List (List Double)}
    (h : items.Perm (numbered vs)) : vectors vs.length items = .ok vs := by
  apply vectors_eq_ok.2
  constructor
  · rw [h.length_eq, length_numbered]
  · rw [byIndex_of_perm h, map_vector_numbered]

/-- Where a reply numbers different texts, each text gets the vector with its own number. -/
theorem perm_numbered_of_vectors {count : Nat} {items : List ReplyItem} {vs : List (List Double)}
    (hdistinct : (items.map ReplyItem.index).Nodup) (hindex : ∀ item ∈ items, item.index < count)
    (h : vectors count items = .ok vs) : vs.length = count ∧ items.Perm (numbered vs) := by
  obtain ⟨rfl, rfl⟩ := vectors_eq_ok.1 h
  have hsubset : items.map ReplyItem.index ⊆ List.range items.length := by
    intro i hi
    obtain ⟨item, hitem, rfl⟩ := List.mem_map.1 hi
    exact List.mem_range.2 (hindex item hitem)
  have hperm : (items.map ReplyItem.index).Perm (List.range items.length) := by
    apply (hdistinct.subperm hsubset).perm_of_length_le
    rw [List.length_range, List.length_map]
  constructor
  · rw [List.length_map, (byIndex_perm items).length_eq]
  · rw [← byIndex_eq_numbered hperm]
    exact (byIndex_perm items).symm

/-! ## Embedding texts -/

/-- A text for each text is sent. -/
theorem length_of_prepare {e : Embedder} {texts prepared : List Text}
    (h : e.prepare texts = .ok prepared) : prepared.length = texts.length := by
  unfold prepare at h
  induction texts generalizing prepared with
  | nil =>
    obtain rfl := Except.ok.inj h
    rfl
  | cons t rest ih =>
    rw [List.mapM_cons] at h
    obtain ⟨sent, -, hrest⟩ := bind_eq_ok.1 h
    obtain ⟨more, hmore, hprepared⟩ := bind_eq_ok.1 hrest
    obtain rfl := Except.ok.inj hprepared
    rw [List.length_cons, List.length_cons, ih hmore]

variable {σ κ : Type} [Span κ]

/-- The elements of a list of texts are embedded as the texts are. -/
theorem embedValue_texts (e : Embedder) (service : Endpoint σ κ) (texts : List Text) (now : κ)
    (state : σ) :
    e.embedValue service (.list (texts.map .text)) now state =
      e.embed service texts now state := by
  have hprepare : (Value.list (texts.map .text)).elements >>= e.prepareValues =
      e.prepare texts := by
    change (texts.map Value.text).mapM _ = _
    rw [List.mapM_map]
    rfl
  have hempty : (!(Value.list (texts.map .text)).isPresent) = texts.isEmpty := by
    simp [Value.isPresent]
  unfold embedValue embed
  rw [hprepare, hempty]

/-- What an embedder makes of the reply to a request for a number of texts. -/
structure AnswersInOrder (count : Nat) (items : List ReplyItem)
    (outcome : Outcome (List (List Double))) : Prop where
  /-- Vectors that are numbered as the texts are come in the order of the texts, in whatever order
  the reply has them. -/
  inOrder : ∀ vs, vs.length = count → items.Perm (numbered vs) → outcome = .ok vs
  /-- Vectors of another number are a fault. -/
  wrongCount : items.length ≠ count → outcome = .error (.wrongCount count items.length)
  /-- Where the reply numbers different texts, every text gets its own vector, if any text gets
  one. -/
  own : (items.map ReplyItem.index).Nodup → (∀ item ∈ items, item.index < count) →
    ∀ vs, outcome = .ok vs → vs.length = count ∧ items.Perm (numbered vs)

theorem answersInOrder_vectors (count : Nat) (items : List ReplyItem) :
    AnswersInOrder count items (vectors count items) where
  inOrder := by
    rintro vs rfl hperm
    exact vectors_of_perm hperm
  wrongCount := vectors_of_length_ne
  own := by
    intro hdistinct hindex vs hvectors
    exact perm_numbered_of_vectors hdistinct hindex hvectors

/-- Texts are embedded by one request for as many texts, and the reply is put into their order.  A
text that cannot be cut to what the model takes is the only reason to make no request. -/
theorem embed_answersInOrder (e : Embedder) (service : Endpoint σ κ) {texts : List Text}
    (hne : texts ≠ []) (now : κ) (state : σ) :
    e.embedValue service (.list (texts.map .text)) now state =
      e.embed service texts now state ∧
    ((∃ fault, e.prepare texts = .error fault ∧
        e.embed service texts now state = ⟨state, Span.zero, .error (.data fault)⟩) ∨
      ∃ prepared, e.prepare texts = .ok prepared ∧ prepared.length = texts.length ∧
        (e.embed service texts now state).state =
          (service.send state now e.model prepared).state ∧
        ∀ items, (service.send state now e.model prepared).reply = .ok items →
          AnswersInOrder texts.length items (e.embed service texts now state).outcome) := by
  refine ⟨embedValue_texts e service texts now state, ?_⟩
  have hembed : e.embed service texts now state =
      e.request service (e.prepare texts) now state := by
    rw [embed, if_neg]
    simpa using hne
  rw [hembed]
  cases hprepare : e.prepare texts with
  | error fault => exact .inl ⟨fault, rfl, rfl⟩
  | ok prepared =>
    have hlength := length_of_prepare hprepare
    refine .inr ⟨prepared, rfl, hlength, rfl, ?_⟩
    intro items hreply
    have houtcome : (e.request service (.ok prepared) now state).outcome =
        vectors texts.length items := by
      simp only [request, hreply, hlength]
    rw [houtcome]
    exact answersInOrder_vectors texts.length items

/-! Two texts and a service that sends its replies in reverse. -/

/-- An embedder of a model without an encoding of its own. -/
def plainEmbedder : Embedder := ⟨.text "plain", 1, 100, .text "key", .null, Double.one⟩

/-- A service that sends its replies in reverse. -/
def reversing : ScriptedService := { dimension := 2, reversed := true }

theorem embed_answersInOrder_reversing :
    let texts : List Text := ["a", "bc"]
    let vs := texts.map (ScriptedService.vector 2)
    let reply := (reversing.send plainEmbedder.model texts).reply
    texts ≠ [] ∧ plainEmbedder.prepare texts = .ok texts ∧
      reply = .ok (numbered vs).reverse ∧
      (plainEmbedder.embed ScriptedService.endpoint texts Double.zero reversing).outcome =
        .ok vs := by
  intro texts vs reply
  have hne : texts ≠ [] := by decide
  have hprepare : plainEmbedder.prepare texts = .ok texts := by decide +kernel
  have hreply : reply = .ok (numbered vs).reverse := by decide +kernel
  refine ⟨hne, hprepare, hreply, ?_⟩
  obtain ⟨-, ⟨fault, hfault, -⟩ | ⟨prepared, hprepared, -, -, hanswers⟩⟩ :=
    embed_answersInOrder plainEmbedder ScriptedService.endpoint hne Double.zero reversing
  · rw [hprepare] at hfault
    cases hfault
  · obtain rfl := Except.ok.inj (hprepare.symm.trans hprepared)
    exact (hanswers _ hreply).inOrder vs rfl (List.reverse_perm _)

end Embedder

end CodeCatalog
