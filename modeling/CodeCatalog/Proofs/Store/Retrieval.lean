import CodeCatalog.Proofs.Store.Ranking
import CodeCatalog.Proofs.Store.Upsert
set_option autoImplicit false

/-!
# Finding what was stored

On a server on which no call fails, a search of a new collection finds the entities that were
stored in it: those with a vector of the store's size and no line number of too many digits, the
best first, each as it was but for its embedding.  How the entities were divided between upserts,
and those between batches, makes no difference.
-/

namespace CodeCatalog.VectorStore

open VectorServer

variable {st : VectorStore} {s : VectorServer} {name : Value} {points : List Point}

/-! ## Points of entities -/

/-- Whether an entity has a vector of the store's size. -/
def fits (st : VectorStore) (e : Entity Text) : Bool :=
  e.embedding.any fun v => (v.length : Int) == st.vectorSize

/-- Whether an entity is stored: it has a vector of the store's size and a payload with a JSON
form. -/
def isStorable (st : VectorStore) (e : Entity Text) : Bool := st.fits e && e.hasShortLines

/-- The point of an entity. -/
def pointOf (e : Entity Text) : Point := ⟨[], e.embedding.getD [], e.toRecord.payload⟩

theorem isUsable_toRecord (st : VectorStore) (e : Entity Text) :
    e.toRecord.isUsable st.vectorSize = st.isStorable e := by
  rw [Record.isUsable, e.isSerializable_payload]
  rfl

theorem filterMap_point?_toRecord (st : VectorStore) (es : List (Entity Text)) :
    (es.map Entity.toRecord).filterMap st.point? = (es.filter st.isStorable).map pointOf := by
  have husable : Record.isUsable st.vectorSize ∘ Entity.toRecord = st.isStorable := by
    funext e
    exact st.isUsable_toRecord e
  rw [filterMap_point?, List.filter_map, husable, List.map_map]
  rfl

/-- What a search reads from the point of an entity is that entity without its embedding. -/
theorem recordOf_pointOf (name : Value) (e : Entity Text) :
    recordOf name (pointOf e) = .ok (Entity.toRecord { e with embedding := none }) := by
  rw [recordOf_of_payload (p := pointOf e) rfl, e.readBack_toRecord]

/-! ## Calls on a server that does not fail -/

/-- No call fails, and the collection that a value names holds some points. -/
structure IsReady (name : Value) (points : List Point) (s : VectorServer) : Prop where
  reliable : s.failing = []
  holds : Holds name points s

theorem create_of_fresh {key : Key} (hreliable : s.failing = []) (hname : name.names key = true)
    (hfresh : s.collection? key = none) :
    (st.create name s).1 = .ok true ∧ IsReady name [] (st.create name s).2 := by
  have halike := hasCollection_alike name s
  have hnone : (hasCollection name s).1 = .ok false := by
    rw [hasCollection_of_reliable hreliable hname, hfresh]
    rfl
  have hmakes := create_of_reliable st.vectorSize (halike.failing.trans hreliable) hname
  have hmade : (st.create name s).1 = .ok true := by
    rw [create, Action.bind_of_ok (call_of_ok (Prod.ext hnone rfl)), if_neg Bool.false_ne_true,
      Action.bind_of_ok (call_of_ok (Prod.ext hmakes rfl))]
    rfl
  obtain ⟨hnot, -⟩ | ⟨-, h⟩ := st.create_cases name s
  · exact absurd hmade hnot
  · exact ⟨hmade, h.failing.trans hreliable, h.holds⟩

/-- The server refuses no batch for the collection. -/
theorem IsReady.refusal? (h : IsReady name points s) (n : Nat) : s.refusal? name n = none := by
  obtain ⟨c, hfound, -⟩ := h.holds
  have htoFail : ¬ s.isToFail "upsert" (s.made "upsert" + n + 1) = true := by
    simp [isToFail, h.reliable]
  rw [VectorServer.refusal?, if_neg htoFail, hfound]

/-- An upsert puts the points of its records behind those that are there. -/
theorem upsert_of_ready (rs : List Record) (h : IsReady name points s) :
    (st.upsert name rs s).1 = .ok (rs.filterMap st.point?).length ∧
      IsReady name (points ++ rs.filterMap st.point?) (st.upsert name rs s).2 := by
  obtain ⟨s', hsent, htook⟩ := sendBatches_of_accepted name (st.batchesOf rs).length
    (st.batchesOf rs) 0 0 (fun n _ => h.refusal? n)
  have hupsert : st.upsert name rs s = (.ok (rs.filterMap st.point?).length, s') :=
    Action.bind_of_ok hsent
  have hholds := htook.put.holds h.holds
  rw [batchesOf, flatten_batches] at hholds
  rw [hupsert]
  exact ⟨rfl, htook.put.failing.trans h.reliable, hholds⟩

/-- A search gives the first entities in the order in which their points are ranked. -/
theorem searchRanked_of_ready {S : Type} {ranked : List Point → List (S × Point)}
    {score : Entity Text → S} {found : List (Entity Text)} (h : IsReady name points s)
    (hranked : ranked points = found.map fun e => (score e, pointOf e)) (k : Nat) :
    (searchRanked ranked name (.int k) s).1 =
      .ok ((found.take k).map fun e =>
        (score e, Entity.toRecord { e with embedding := none })) := by
  have hfirst : firstOf (.int k) (ranked points) =
      .ok ((found.take k).map fun e => (score e, pointOf e)) := by
    have hk : (0 : Int) ≤ k := Int.natCast_nonneg k
    rw [hranked, firstOf, upTo, if_pos hk, Int.toNat_natCast, List.map_take]
  have hquery := query_of_reliable ranked (.int k) h.reliable h.holds
  rw [hfirst] at hquery
  rw [searchRanked, Action.bind_of_ok (call_of_ok (Prod.ext hquery rfl))]
  change ((found.take k).map fun e => (score e, pointOf e)).mapM _ = _
  rw [List.mapM_map]
  refine mapM_eq_ok_map fun e _ => ?_
  rw [Function.comp_apply, recordOf_pointOf]
  rfl

/-! ## Storing and searching -/

/-- Stores the entities of each part by an upsert of its own. -/
def upsertAll (st : VectorStore) (name : Value) :
    List (List (Entity Text)) → Action VectorServer Unit
  | [] => pure ()
  | part :: rest => do
    let _ ← st.upsert name (part.map Entity.toRecord)
    st.upsertAll name rest

/-- Makes a collection, stores the parts in it and searches it. -/
def storeAndSearch {S : Type} (st : VectorStore) (score : List Double → S) (worse : S → S → Bool)
    (name : Value) (parts : List (List (Entity Text))) (k : Int) :
    Action VectorServer (List (S × Record)) := do
  let _ ← st.create name
  st.upsertAll name parts
  searchBy score worse name k

theorem upsertAll_of_ready (parts : List (List (Entity Text))) :
    ∀ {points : List Point} {s : VectorServer}, IsReady name points s →
      (st.upsertAll name parts s).1 = .ok () ∧
        IsReady name (points ++ (parts.flatten.filter st.isStorable).map pointOf)
          (st.upsertAll name parts s).2 := by
  induction parts with
  | nil =>
    intro points s h
    refine ⟨rfl, ?_⟩
    change IsReady name (points ++ []) s
    rwa [List.append_nil]
  | cons part rest ih =>
    intro points s h
    obtain ⟨hupsert, hready⟩ := upsert_of_ready (part.map Entity.toRecord) h
    rw [upsertAll, Action.bind_of_ok (Prod.ext hupsert rfl)]
    have hrest := ih hready
    rw [filterMap_point?_toRecord, List.append_assoc, ← List.map_append, ← List.filter_append,
      ← List.flatten_cons] at hrest
    exact hrest

section

variable {S : Type} [LinearOrder S]

/-- The entities that are stored, sorted by their scores. -/
def sortedStored (st : VectorStore) (score : List Double → S) (parts : List (List (Entity Text))) :
    List (Entity Text) :=
  (parts.flatten.filter st.isStorable).mergeSort fun a b =>
    decide (score (b.embedding.getD []) ≤ score (a.embedding.getD []))

/-- A search of a new collection gives the first of the entities that are stored. -/
theorem storeAndSearch_of_fresh (st : VectorStore) (score : List Double → S)
    (hreliable : s.failing = []) {collection : Text}
    (hfresh : s.collection? (.text collection) = none) (parts : List (List (Entity Text)))
    (k : Nat) :
    (st.storeAndSearch score (fun a b => decide (a ≤ b)) (.text collection) parts k s).1 =
      .ok (((st.sortedStored score parts).take k).map fun e =>
        (score (e.embedding.getD []), Entity.toRecord { e with embedding := none })) := by
  have hname : Value.names (.text collection) (.text collection) = true := Value.names_iff.2 rfl
  obtain ⟨hcreate, hnew⟩ := create_of_fresh hreliable hname hfresh
  obtain ⟨hstored, hready⟩ := upsertAll_of_ready parts hnew
  rw [storeAndSearch, Action.bind_of_ok (Prod.ext hcreate rfl),
    Action.bind_of_ok (Prod.ext hstored rfl)]
  exact searchRanked_of_ready hready (rank_map score pointOf _) k

/-- A search of a new collection gives the entities that were stored, which are those with a vector
of the store's size and no line number of too many digits, the best first and those of one score in
the order in which they were stored, each as it was but for its embedding: whatever the batches are
and however the entities are divided between upserts. -/
theorem storeAndSearch_eq_ranking (st : VectorStore) (score : List Double → List Double → S)
    (vector : List Double) {s : VectorServer} (hreliable : s.failing = []) {collection : Text}
    (hfresh : s.collection? (.text collection) = none) (parts : List (List (Entity Text)))
    (k : Nat) :
    ∃ ranking,
      IsRanking (fun e => score vector (e.embedding.getD [])) (parts.flatten.filter st.isStorable)
        ranking ∧
      (st.storeAndSearch (score vector) (fun a b => decide (a ≤ b)) (.text collection) parts k
          s).1 =
        .ok ((ranking.take k).map fun e =>
          (score vector (e.embedding.getD []), Entity.toRecord { e with embedding := none })) :=
  ⟨_, isRanking_mergeSort _ _, storeAndSearch_of_fresh st (score vector) hreliable hfresh parts k⟩

end

/-! Four entities in two upserts, of which the last two have one score. -/

/-- An entity of some name with a vector. -/
def vectorOfName (name : Text) (vector : List Double) : Entity Text :=
  ⟨name, name, Kind.function, none, 1, 1, 1, ⟨"a.py", "a.py", name, none, none⟩, some vector⟩

/-- The sum of the products of whole components. -/
def wholeProduct (q v : List Double) : Int :=
  (List.zipWith (fun x y => x.truncate * y.truncate) q v).foldl Int.add 0

/-- The entities of two upserts; the second one has a vector of another size. -/
def twoParts : List (List (Entity Text)) :=
  [[vectorOfName "zero" [Double.zero], vectorOfName "long" [Double.one, Double.one]],
    [vectorOfName "one" [Double.one], vectorOfName "again" [Double.one]]]

theorem storeAndSearch_eq_ranking_twoParts :
    let st := make .null none 1 1
    let s : VectorServer := {}
    s.failing = [] ∧ s.collection? (.text "code") = none ∧ ∃ ranking,
      IsRanking (fun e => wholeProduct [Double.one] (e.embedding.getD []))
        (twoParts.flatten.filter st.isStorable) ranking ∧
      (st.storeAndSearch (wholeProduct [Double.one]) (fun a b => decide (a ≤ b)) (.text "code")
          twoParts 2 s).1 =
        .ok ((ranking.take 2).map fun e =>
          (wholeProduct [Double.one] (e.embedding.getD []),
            Entity.toRecord { e with embedding := none })) := by
  intro st s
  refine ⟨rfl, rfl, ?_⟩
  exact storeAndSearch_eq_ranking st wholeProduct [Double.one] rfl rfl twoParts 2

/-! An entity on a line whose number has too many digits. -/

/-- An entity with a vector of one component, on the first line whose number is too long. -/
def farEntity : Entity Text :=
  { vectorOfName "far" [Double.one] with line := .ofNat (tenTo Text.maxIntegerDigits) }

theorem hasShortLines_farEntity : farEntity.hasShortLines = false := by
  refine Bool.eq_false_iff.2 fun h => ?_
  have hline : farEntity.line = .ofNat (tenTo Text.maxIntegerDigits) := rfl
  obtain ⟨hshort, -, -⟩ := farEntity.hasShortLines_iff.1 h
  rw [Value.isShort_iff, hline, Int.ofNat_eq_natCast, Int.natAbs_natCast] at hshort
  exact Nat.lt_irrefl _ hshort

/-- That entity has a vector of the store's size, and is not found where it was stored. -/
theorem not_found_farEntity :
    let st := make .null none 1 1
    let s : VectorServer := {}
    s.failing = [] ∧ s.collection? (.text "code") = none ∧ st.fits farEntity = true ∧
      ¬∃ ranking,
        IsRanking (fun e => wholeProduct [Double.one] (e.embedding.getD []))
          ([[farEntity]].flatten.filter st.fits) ranking ∧
        (st.storeAndSearch (wholeProduct [Double.one]) (fun a b => decide (a ≤ b)) (.text "code")
            [[farEntity]] 1 s).1 =
          .ok ((ranking.take 1).map fun e =>
            (wholeProduct [Double.one] (e.embedding.getD []),
              Entity.toRecord { e with embedding := none })) := by
  intro st s
  have hfits : st.fits farEntity = true := rfl
  refine ⟨rfl, rfl, hfits, ?_⟩
  rintro ⟨ranking, hranking, hfound⟩
  have hstored : st.sortedStored (wholeProduct [Double.one]) [[farEntity]] = [] := by
    simp [sortedStored, isStorable, hasShortLines_farEntity]
  have hlength : ranking.length = 1 := by
    simpa [hfits] using hranking.perm.length_eq
  have hnone := (storeAndSearch_of_fresh (s := s) st (wholeProduct [Double.one]) rfl rfl
    [[farEntity]] 1).symm.trans hfound
  rw [hstored] at hnone
  have hcounts := congrArg List.length (Except.ok.inj hnone)
  simp [hlength] at hcounts

end CodeCatalog.VectorStore
