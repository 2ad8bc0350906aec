import CodeCatalog.Store.Server
set_option autoImplicit false

/-!
# What a call of the vector server does

Every call is counted first and may be made to fail; then it reads the collections or changes
them.  A call that fails leaves the collections as they were.  Of those that succeed, one makes a
collection without points, one puts points behind those of the collection with a name, one deletes
a collection, and the others change nothing.
-/

namespace CodeCatalog

/-! ## Names of collections -/

/-- Whether a value is a name of the collection with a key. -/
def Value.names (name : Value) (key : Key) : Bool := name.key.toOption == some key

theorem Value.names_iff {name : Value} {key : Key} :
    name.names key = true ↔ name.key = .ok key := by
  unfold names
  cases name.key <;> simp [Except.toOption]

/-- A value names one collection at most. -/
theorem Value.names_unique {name : Value} {key key' : Key} (h : name.names key = true)
    (h' : name.names key' = true) : key = key' :=
  Except.ok.inj ((Value.names_iff.1 h).symm.trans (Value.names_iff.1 h'))

/-- A collection after points were put into the one that a value names. -/
def Collection.putting (name : Value) (points : List Point) (c : Collection) : Collection :=
  if name.names c.key then { c with points := c.points ++ points } else c

namespace Collection

variable {name : Value} {points more : List Point} {c : Collection}

@[simp] theorem key_putting : (c.putting name points).key = c.key := by
  unfold putting
  split <;> rfl

theorem points_putting :
    (c.putting name points).points = c.points ++ if name.names c.key then points else [] := by
  unfold putting
  split <;> simp

theorem putting_nil : c.putting name [] = c := by
  unfold putting
  split <;> simp

theorem putting_putting :
    (c.putting name points).putting name more = c.putting name (points ++ more) := by
  unfold putting
  by_cases h : name.names c.key <;> simp [h]

end Collection

namespace VectorServer

variable {α : Type} {s s' s'' : VectorServer} {name : Value} {key : Key}

/-! ## Servers that differ in what they counted -/

/-- A server holds what another one held, and fails when that one did. -/
structure Alike (s s' : VectorServer) : Prop where
  collections : s'.collections = s.collections
  failing : s'.failing = s.failing
  batches : s'.batches = s.batches

theorem Alike.refl (s : VectorServer) : Alike s s := ⟨rfl, rfl, rfl⟩

theorem Alike.trans (h : Alike s s') (h' : Alike s' s'') : Alike s s'' :=
  ⟨h'.collections.trans h.collections, h'.failing.trans h.failing, h'.batches.trans h.batches⟩

/-- A call is counted, and fails if it is to. -/
theorem enter_cases (s : VectorServer) (method : String) :
    ∃ s', Alike s s' ∧
      (s.enter method = (.error (.injected method), s') ∨ s.enter method = (.ok (), s')) := by
  unfold enter
  dsimp only
  split
  · refine ⟨_, ?_, .inl rfl⟩
    exact ⟨rfl, rfl, rfl⟩
  · refine ⟨_, ?_, .inr rfl⟩
    exact ⟨rfl, rfl, rfl⟩

/-- No call fails on a server on which none is to fail. -/
theorem enter_of_reliable (method : String) (h : s.failing = []) :
    ∃ s', Alike s s' ∧ s.enter method = (.ok (), s') := by
  obtain ⟨s', halike, hfails | hok⟩ := s.enter_cases method
  · simp [enter, h] at hfails
  · exact ⟨s', halike, hok⟩

/-! ## Every call is counted first -/

/-- Counts a call and goes on with it unless it is to fail. -/
def counting (method : String) (act : VectorServer → Except ServerFault α × VectorServer)
    (s : VectorServer) : Except ServerFault α × VectorServer :=
  match s.enter method with
  | (.error f, s) => (.error f, s)
  | (.ok (), s) => act s

theorem counting_cases (method : String) (act : VectorServer → Except ServerFault α × VectorServer)
    (s : VectorServer) :
    ∃ s', Alike s s' ∧ (counting method act s = (.error (.injected method), s') ∨
      counting method act s = act s') := by
  obtain ⟨s', halike, henter⟩ := s.enter_cases method
  refine ⟨s', halike, henter.imp ?_ ?_⟩
  · intro hfails
    rw [counting, hfails]
  · intro hok
    rw [counting, hok]

theorem counting_of_reliable (method : String)
    (act : VectorServer → Except ServerFault α × VectorServer) (h : s.failing = []) :
    ∃ s', Alike s s' ∧ counting method act s = act s' := by
  obtain ⟨s', halike, hok⟩ := enter_of_reliable method h
  refine ⟨s', halike, ?_⟩
  rw [counting, hok]

/-! ## Calls that read -/

/-- A call that reads leaves the collections alone, and what it gives is read off them. -/
theorem counting_read (method : String) (read : VectorServer → Except ServerFault α)
    (s : VectorServer) :
    Alike s (counting method (fun s => (read s, s)) s).2 ∧
      ∀ a, (counting method (fun s => (read s, s)) s).1 = .ok a →
        ∃ s', Alike s s' ∧ read s' = .ok a := by
  obtain ⟨s', halike, hfails | hread⟩ := counting_cases method (fun s => (read s, s)) s
  · rw [hfails]
    exact ⟨halike, fun _ hok => nomatch hok⟩
  · rw [hread]
    exact ⟨halike, fun a hok => ⟨s', halike, hok⟩⟩

theorem keyOf_eq_ok : keyOf name = .ok key ↔ name.names key = true := by
  rw [Value.names_iff, keyOf]
  cases name.key <;> simp

/-- The collection that a value names, if there is one, is one of the server's. -/
theorem existing_eq_ok {c : Collection} :
    s.existing name = .ok c ↔ ∃ key, name.names key = true ∧ s.collection? key = some c := by
  simp only [← keyOf_eq_ok, existing, lookup]
  cases keyOf name with
  | error f => simp [Except.map, bind, Except.bind]
  | ok key =>
    cases hfound : s.collection? key <;>
      simp [Except.map, bind, Except.bind, hfound, pure, Except.pure, throw, throwThe,
        MonadExceptOf.throw]

theorem mem_of_existing {c : Collection} (h : s.existing name = .ok c) :
    c ∈ s.collections ∧ name.names c.key = true := by
  obtain ⟨key, hname, hfound⟩ := existing_eq_ok.1 h
  have hkey := List.find?_some hfound
  rw [beq_iff_eq] at hkey
  exact ⟨List.mem_of_find?_eq_some hfound, hkey ▸ hname⟩

theorem hasCollection_alike (name : Value) (s : VectorServer) :
    Alike s (hasCollection name s).2 :=
  (counting_read "exists" (fun s => (s.lookup name).map Option.isSome) s).1

theorem list_alike (s : VectorServer) : Alike s (list s).2 :=
  (counting_read "list" (fun s => .ok (s.collections.map Collection.name)) s).1

theorem query_alike {S : Type} (ranked : List Point → List (S × Point)) (name limit : Value)
    (s : VectorServer) : Alike s (query ranked name limit s).2 :=
  (counting_read "query" (fun s => s.existing name >>= fun c => firstOf limit (ranked c.points))
    s).1

theorem count_alike (name : Value) (s : VectorServer) : Alike s (count name s).2 :=
  (counting_read "count" (fun s => (s.existing name).map fun c : Collection => c.points.length) s).1

/-- What a call gives that reads one collection is read off the collection that the value
names. -/
theorem exists_mem_of_counting (method : String) (read : Collection → Except ServerFault α) {a : α}
    (h : (counting method (fun s => (s.existing name >>= read, s)) s).1 = .ok a) :
    ∃ c ∈ s.collections, name.names c.key = true ∧ read c = .ok a := by
  obtain ⟨s', halike, hread⟩ := (counting_read method (fun s => s.existing name >>= read) s).2 a h
  cases hfound : s'.existing name with
  | error f =>
    rw [hfound] at hread
    cases hread
  | ok c =>
    rw [hfound] at hread
    obtain ⟨hmem, hname⟩ := mem_of_existing hfound
    exact ⟨c, halike.collections ▸ hmem, hname, hread⟩

theorem exists_mem_of_count {n : Nat} (h : (count name s).1 = .ok n) :
    ∃ c ∈ s.collections, name.names c.key = true ∧ c.points.length = n := by
  obtain ⟨c, hmem, hname, hn⟩ :=
    exists_mem_of_counting "count" (fun c : Collection => .ok c.points.length) h
  exact ⟨c, hmem, hname, Except.ok.inj hn⟩

theorem exists_mem_of_query {S : Type} {ranked : List Point → List (S × Point)} {limit : Value}
    {hits : List (S × Point)} (h : (query ranked name limit s).1 = .ok hits) :
    ∃ c ∈ s.collections, name.names c.key = true ∧
      firstOf limit (ranked c.points) = .ok hits :=
  exists_mem_of_counting "query" (fun c : Collection => firstOf limit (ranked c.points)) h

theorem subset_of_firstOf {limit : Value} {xs ys : List α} (h : firstOf limit xs = .ok ys) :
    ys ⊆ xs := by
  have hupTo : ∀ n, upTo n xs ⊆ xs := by
    intro n
    unfold upTo
    split <;> exact List.take_subset _ _
  unfold firstOf at h
  split at h <;> cases h
  · exact List.Subset.refl _
  · exact hupTo _
  · exact hupTo _

/-! ## Calls that change the collections -/

/-- A call makes a collection of a key without points, instead of what was there before. -/
structure Made (name : Value) (size : Int) (s s' : VectorServer) : Prop where
  collections : ∃ key, name.names key = true ∧ s'.collections =
    (s.collections.filter fun c => c.key != key) ++ [⟨key, name, size, []⟩]
  failing : s'.failing = s.failing
  batches : s'.batches = s.batches

theorem Alike.made {size : Int} (h : Alike s s') (h' : Made name size s' s'') :
    Made name size s s'' where
  collections := h.collections ▸ h'.collections
  failing := h'.failing.trans h.failing
  batches := h'.batches.trans h.batches

/-- Makes a collection, once the call is counted. -/
def making (name : Value) (size : Int) (s : VectorServer) :
    Except ServerFault Unit × VectorServer :=
  match keyOf name with
  | .error f => (.error f, s)
  | .ok key =>
    (.ok (), { s with
      collections := (s.collections.filter fun c => c.key != key) ++ [⟨key, name, size, []⟩] })

theorem create_eq_counting (name : Value) (size : Int) :
    create name size = counting "create" (making name size) := rfl

theorem create_cases (name : Value) (size : Int) (s : VectorServer) :
    (∃ f s', create name size s = (.error f, s') ∧ Alike s s') ∨
      ∃ s', create name size s = (.ok (), s') ∧ Made name size s s' := by
  rw [create_eq_counting]
  obtain ⟨s', halike, hfails | hmakes⟩ := counting_cases "create" (making name size) s
  · exact .inl ⟨_, s', hfails, halike⟩
  · rw [hmakes]
    unfold making
    cases hkey : keyOf name with
    | error f => exact .inl ⟨f, s', rfl, halike⟩
    | ok key =>
      refine .inr ⟨_, rfl, ⟨key, keyOf_eq_ok.1 hkey, ?_⟩, halike.failing, halike.batches⟩
      rw [halike.collections]

/-- Batches of points are put into the collection that a value names. -/
structure Put (name : Value) (bs : List (List Point)) (s s' : VectorServer) : Prop where
  collections : s'.collections = s.collections.map (Collection.putting name bs.flatten)
  failing : s'.failing = s.failing
  batches : s'.batches = s.batches ++ bs.map List.length

theorem Alike.put (h : Alike s s') (name : Value) : Put name [] s s' where
  collections := by
    have hputting : Collection.putting name ([] : List (List Point)).flatten = id := by
      funext c
      exact Collection.putting_nil
    rw [h.collections, hputting, List.map_id]
  failing := h.failing
  batches := by simp [h.batches]

theorem Put.trans {as bs : List (List Point)} (h : Put name as s s') (h' : Put name bs s' s'') :
    Put name (as ++ bs) s s'' where
  collections := by
    rw [h'.collections, h.collections, List.map_map, List.flatten_append]
    exact List.map_congr_left fun c _ => Collection.putting_putting
  failing := h'.failing.trans h.failing
  batches := by
    rw [h'.batches, h.batches, List.map_append, List.append_assoc]

/-- Puts a batch of points into a collection, once the call is counted. -/
def putting (name : Value) (points : List Point) (s : VectorServer) :
    Except ServerFault Unit × VectorServer :=
  match s.existing name with
  | .error f => (.error f, s)
  | .ok c => (.ok (), { s.addPoints c.key points with batches := s.batches ++ [points.length] })

theorem upsert_eq_counting (name : Value) (points : List Point) :
    upsert name points = counting "upsert" (putting name points) := rfl

/-- The collection that is found is the one that the value names. -/
theorem addPoints_eq_map_putting {c : Collection} (hname : name.names c.key = true)
    (points : List Point) (s : VectorServer) :
    (s.addPoints c.key points).collections =
      s.collections.map (Collection.putting name points) := by
  refine List.map_congr_left fun c' _ => ?_
  have hkey : c'.key = c.key ↔ name.names c'.key = true :=
    ⟨fun h => h ▸ hname, fun h => Value.names_unique h hname⟩
  simp [Collection.putting, hkey]

theorem upsert_cases (name : Value) (points : List Point) (s : VectorServer) :
    (∃ f s', upsert name points s = (.error f, s') ∧ Alike s s') ∨
      ∃ s', upsert name points s = (.ok (), s') ∧ Put name [points] s s' := by
  rw [upsert_eq_counting]
  obtain ⟨s', halike, hfails | hputs⟩ := counting_cases "upsert" (putting name points) s
  · exact .inl ⟨_, s', hfails, halike⟩
  · rw [hputs]
    unfold putting
    cases hfound : s'.existing name with
    | error f => exact .inl ⟨f, s', rfl, halike⟩
    | ok c =>
      have hadded := addPoints_eq_map_putting (mem_of_existing hfound).2 points s'
      refine .inr ⟨_, rfl, ?_, halike.failing, ?_⟩
      · rw [halike.collections] at hadded
        simpa using hadded
      · simp [halike.batches]

/-- Deletes a collection, once the call is counted. -/
def deleting (name : Value) (s : VectorServer) : Except ServerFault Bool × VectorServer :=
  match keyOf name with
  | .error f => (.error f, s)
  | .ok key =>
    (.ok (s.collection? key).isSome,
      { s with collections := s.collections.filter fun c => c.key != key })

theorem delete_eq_counting (name : Value) :
    delete name = counting "delete" (deleting name) := rfl

/-- A deletion takes nothing but collections from a server. -/
theorem delete_sublist (name : Value) (s : VectorServer) :
    (delete name s).2.collections.Sublist s.collections ∧
      (delete name s).2.batches = s.batches := by
  rw [delete_eq_counting]
  obtain ⟨s', halike, hfails | hdeletes⟩ := counting_cases "delete" (deleting name) s
  · rw [hfails, halike.collections]
    exact ⟨List.Sublist.refl _, halike.batches⟩
  · rw [hdeletes]
    unfold deleting
    cases keyOf name with
    | error f => exact ⟨halike.collections ▸ List.Sublist.refl _, halike.batches⟩
    | ok key => exact ⟨halike.collections ▸ List.filter_sublist, halike.batches⟩

/-! ## Calls that succeed -/

/-- The collection that a value names is there and holds some points. -/
def Holds (name : Value) (points : List Point) (s : VectorServer) : Prop :=
  ∃ c, s.existing name = .ok c ∧ c.points = points

/-- Which collection a value names depends on the collections only. -/
theorem Alike.lookup (h : Alike s s') : s'.lookup name = s.lookup name := by
  unfold VectorServer.lookup
  have hfound : s'.collection? = s.collection? := by
    funext key
    rw [collection?, h.collections]
    rfl
  rw [hfound]

theorem Alike.existing (h : Alike s s') : s'.existing name = s.existing name := by
  unfold VectorServer.existing
  rw [h.lookup]

theorem Alike.holds {points : List Point} (h : Alike s s') (h' : Holds name points s) :
    Holds name points s' := by
  obtain ⟨c, hfound, hpoints⟩ := h'
  exact ⟨c, h.existing.trans hfound, hpoints⟩

theorem Made.holds {size : Int} (h : Made name size s s') : Holds name [] s' := by
  obtain ⟨key, hname, hcollections⟩ := h.collections
  refine ⟨⟨key, name, size, []⟩, existing_eq_ok.2 ⟨key, hname, ?_⟩, rfl⟩
  have hothers : (s.collections.filter fun c => c.key != key).find? (fun c => c.key == key) =
      none := by
    refine List.find?_eq_none.2 fun c hc => ?_
    have hkey := (List.mem_filter.1 hc).2
    simpa using hkey
  rw [collection?, hcollections, List.find?_append, hothers]
  simp

/-- Points are put into the collections that are there. -/
theorem Put.collection? {bs : List (List Point)} (h : Put name bs s s') (key : Key) :
    s'.collection? key = (s.collection? key).map (Collection.putting name bs.flatten) := by
  have hkeys : ((fun c : Collection => c.key == key) ∘ Collection.putting name bs.flatten) =
      fun c => c.key == key := by
    funext c
    simp
  rw [VectorServer.collection?, h.collections, List.find?_map, hkeys]
  rfl

theorem Put.holds {bs : List (List Point)} {points : List Point} (h : Put name bs s s')
    (h' : Holds name points s) : Holds name (points ++ bs.flatten) s' := by
  obtain ⟨c, hfound, rfl⟩ := h'
  obtain ⟨key, hname, hc⟩ := existing_eq_ok.1 hfound
  refine ⟨c.putting name bs.flatten, existing_eq_ok.2 ⟨key, hname, ?_⟩, ?_⟩
  · rw [h.collection?, hc]
    rfl
  · rw [Collection.points_putting, if_pos (mem_of_existing hfound).2]

theorem hasCollection_of_reliable (hreliable : s.failing = []) (hname : name.names key = true) :
    (hasCollection name s).1 = .ok (s.collection? key).isSome := by
  obtain ⟨s', halike, hread⟩ := counting_of_reliable "exists"
    (fun s => ((s.lookup name).map Option.isSome, s)) hreliable
  have hcall : hasCollection name s = ((s'.lookup name).map Option.isSome, s') := hread
  rw [hcall, halike.lookup, lookup, keyOf_eq_ok.2 hname]
  rfl

theorem create_of_reliable (size : Int) (hreliable : s.failing = [])
    (hname : name.names key = true) : (create name size s).1 = .ok () := by
  obtain ⟨s', halike, hmakes⟩ := counting_of_reliable "create" (making name size) hreliable
  rw [create_eq_counting, hmakes, making, keyOf_eq_ok.2 hname]

theorem query_of_reliable {S : Type} (ranked : List Point → List (S × Point)) (limit : Value)
    {points : List Point} (hreliable : s.failing = []) (hholds : Holds name points s) :
    (query ranked name limit s).1 = firstOf limit (ranked points) := by
  obtain ⟨s', halike, hread⟩ := counting_of_reliable "query"
    (fun s => (s.existing name >>= fun c => firstOf limit (ranked c.points), s)) hreliable
  obtain ⟨c, hfound, rfl⟩ := halike.holds hholds
  have hcall : query ranked name limit s =
      (s'.existing name >>= fun c => firstOf limit (ranked c.points), s') := hread
  rw [hcall, hfound]
  rfl

end VectorServer

end CodeCatalog
