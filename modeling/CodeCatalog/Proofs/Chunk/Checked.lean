import CodeCatalog.Chunk.Checked
import CodeCatalog.Entity.Record
import CodeCatalog.Proofs.Chunk.Merge
import CodeCatalog.Proofs.Lists
set_option autoImplicit false

/-!
# Checked chunks of texts

Where texts stand in all places of loaded entities and the bound is a whole number or absent, no
step of checked splitting or merging is a fault, and it does what is done with extracted entities.
Checked merging keeps an open group instead of making all groups first, and does not measure the
snippet of an entity that cannot be the first of several.
-/

namespace CodeCatalog

/-- What is made of a text is that text again. -/
class LawfulFragment (τ : Type) [Fragment τ] : Prop where
  toValue_ofText : ∀ t : Text, Fragment.toValue (Fragment.ofText t : τ) = .text t

instance : LawfulFragment Text := ⟨fun _ => rfl⟩

instance : LawfulFragment Value := ⟨fun _ => rfl⟩

/-- The value of a bound. -/
def Value.ofBound : Option Int → Value
  | none => .null
  | some n => .int n

theorem Value.wholeBound?_ofBound (bound : Option Int) :
    (Value.ofBound bound).wholeBound? = some bound := by
  cases bound <;> rfl

theorem Value.half_ofBound (bound : Option Int) :
    (Value.ofBound bound).half = .ok (.ofBound (bound.map fun b => Int.fdiv b 2)) := by
  cases bound <;> rfl

/-- A size exceeds a bound exactly if it does not stay within it. -/
theorem Value.isExceeded_ofBound (g : Gathering) (size : Nat) :
    Value.isExceeded size (.ofBound g.bound) = .ok (!g.fits size) := by
  unfold Gathering.fits
  cases g.bound with
  | none => rfl
  | some bound =>
    have hflip : decide (bound < (size : Int)) = !decide ((size : Int) ≤ bound) := by
      by_cases h : (size : Int) ≤ bound
      · simp [h]
      · simp [h, Int.not_le.1 h]
    exact congrArg Except.ok hflip

theorem Value.textsFrom_map_text (position : Nat) (ts : List Text) :
    Value.textsFrom position (ts.map .text) = .ok ts := by
  induction ts generalizing position with
  | nil => rfl
  | cons t ts ih =>
    rw [List.map_cons, Value.textsFrom, ih]
    rfl

theorem Value.joinLines_map_text (ts : List Text) :
    Value.joinLines (ts.map .text) = .ok (Text.joinLines ts) := by
  rw [Value.joinLines, Value.textsFrom_map_text]
  rfl

/-! ## One entity -/

section

variable {τ : Type} [Fragment τ] [LawfulFragment τ]

open Fragment (toValue ofText)

@[simp] theorem Fragment.toValue_ofText (t : Text) : toValue (ofText t : τ) = .text t :=
  LawfulFragment.toValue_ofText t

@[simp] theorem Fragment.shown_ofText (t : Text) : Fragment.shown (ofText t : τ) = t := by
  rw [Fragment.shown, toValue_ofText, Value.shown]

@[simp] theorem Fragment.isText_ofText (t u : Text) :
    Fragment.isText t (ofText u : τ) = (u == t) := by
  rw [Fragment.isText, toValue_ofText]

namespace Entity

/-- An extracted entity with what is made of its texts in their places. -/
def embed (τ : Type) [Fragment τ] (e : Entity Text) : Entity τ := e.map ofText

theorem embed_text (e : Entity Text) : e.embed Text = e := by
  obtain ⟨name, signature, kind, docstring, line, lineFrom, lineTo, context, embedding⟩ := e
  obtain ⟨filePath, fileName, snippet, moduleName, enclosingType⟩ := context
  simp [embed, map, Context.map, ofText]

theorem snippetLength_embed (e : Entity Text) :
    (e.embed τ).snippetLength = .ok e.snippet.length := by
  change (toValue (ofText e.snippet : τ)).length = _
  rw [Fragment.toValue_ofText, Value.length]

theorem chunk_embed (e : Entity Text) (total number : Nat) (run : PlacedRun) :
    (e.embed τ).chunk total number run = (e.chunk total number run).embed τ := by
  have hname : Fragment.shown (e.embed τ).name = e.name := Fragment.shown_ofText e.name
  have hkind : Fragment.shown (e.embed τ).kind = e.kind := Fragment.shown_ofText e.kind
  unfold chunk
  rw [hname, hkind]
  rfl

theorem chunksFrom_embed (e : Entity Text) (total number : Nat) (runs : List PlacedRun) :
    (e.embed τ).chunksFrom total number runs =
      (e.chunksFrom total number runs).map (embed τ) := by
  induction runs generalizing number with
  | nil => rfl
  | cons run runs ih => rw [chunksFrom, chunksFrom, List.map_cons, chunk_embed, ih]

theorem splitWithin_embed (bound : Option Int) (e : Entity Text) :
    (e.embed τ).splitWithin (.ofBound bound) = .ok ((e.split bound).map (embed τ)) := by
  cases bound with
  | none => rfl
  | some bound =>
    have hlines : (toValue (e.embed τ).snippet).lines = .ok e.snippet.lines := by
      change (toValue (ofText e.snippet : τ)).lines = _
      rw [Fragment.toValue_ofText, Value.lines]
    have hchunks := chunksFrom_embed (τ := τ) e (packLines bound e.snippet.lines).length 0
      (placeRuns 0 (packLines bound e.snippet.lines))
    rw [split]
    by_cases hzero : bound = 0
    · subst hzero
      rfl
    · have hpresent : (Value.ofBound (some bound)).isPresent = true := by
        simpa [Value.ofBound, Value.isPresent] using hzero
      have hfits : e.fits (some bound) = Bound.fits e.snippet.length (.upTo bound) := by
        rw [fits, beq_eq_false_iff_ne.2 hzero, Bool.false_or]
        rfl
      rw [splitWithin, hpresent, hfits, Bool.not_true, if_neg Bool.false_ne_true]
      simp only [snippetLength_embed, hlines, Value.ofBound, Value.bound, bind, Except.bind, pure,
        Except.pure]
      split
      · rfl
      · exact congrArg Except.ok hchunks

theorem checkedKind_embed (first : Entity Text) (rest : List (Entity Text)) :
    (first.embed τ).checkedKind (rest.map (embed τ)) = .ok (ofText (groupKind first rest)) := by
  have hfirst : (toValue (first.embed τ).kind).key = .ok (.text first.kind) := by
    change (toValue (ofText first.kind : τ)).key = _
    rw [Fragment.toValue_ofText, Value.key]
  have hrest : ((rest.map (embed τ)).mapM fun e => (toValue e.kind).key) =
      .ok (rest.map fun e => .text e.kind) := by
    rw [List.mapM_map]
    refine mapM_eq_ok_map fun e _ => ?_
    change (toValue (ofText e.kind : τ)).key = _
    rw [Fragment.toValue_ofText, Value.key]
  have hall : ((rest.map fun e => Key.text e.kind).all (· == .text first.kind)) =
      rest.all fun e => e.kind == first.kind := by
    rw [List.all_map]
    exact congrArg rest.all (funext fun e => by simp)
  simp only [checkedKind, hfirst, hrest, bind, Except.bind, pure, Except.pure]
  rw [hall, groupKind]
  split <;> rfl

theorem find?_docstring_embed (es : List (Entity Text)) :
    (((es.map (embed τ)).filterMap docstring).find? fun d => (toValue d).isPresent) =
      ((es.filterMap docstring).find? fun d => (toValue d).isPresent).map ofText := by
  have hdocs : (es.map (embed τ)).filterMap docstring = (es.filterMap docstring).map ofText := by
    rw [List.filterMap_map, List.map_filterMap]
    rfl
  rw [hdocs, List.find?_map]
  congr 2
  funext d
  simp [toValue]

theorem folded_embed (first : Entity Text) (rest : List (Entity Text)) (last : Entity Text)
    (kind signature snippet : Text) :
    (first.embed τ).folded (rest.map (embed τ)) (last.embed τ) (ofText kind) (ofText signature)
      (ofText snippet) = (first.folded rest last kind signature snippet).embed τ := by
  have hdocs := find?_docstring_embed (τ := τ) (first :: rest)
  rw [List.map_cons] at hdocs
  unfold folded
  rw [hdocs, Fragment.shown_ofText]
  rfl

theorem joinLines_embed (field : ∀ {σ : Type}, Entity σ → σ)
    (hfield : ∀ e : Entity Text, field (e.embed τ) = ofText (field e)) (es : List (Entity Text)) :
    Value.joinLines ((es.map (embed τ)).map fun e => toValue (field e)) =
      .ok (Text.joinLines (es.map field)) := by
  have htexts : ((es.map (embed τ)).map fun e => toValue (field e)) =
      (es.map field).map .text := by
    rw [List.map_map, List.map_map]
    refine List.map_congr_left fun e _ => ?_
    exact (congrArg toValue (hfield e)).trans (Fragment.toValue_ofText (field e))
  rw [htexts, Value.joinLines_map_text]

theorem mergeGroup_embed {first e : Entity Text} {rest : List (Entity Text)}
    (h : merge? (first :: rest) = some e) :
    (first.embed τ).mergeGroup (rest.map (embed τ)) = .ok (e.embed τ) := by
  cases rest with
  | nil =>
    cases h
    rfl
  | cons d rest =>
    cases h
    have hkind := checkedKind_embed (τ := τ) first (d :: rest)
    have hsignature := joinLines_embed (τ := τ) signature (fun _ => rfl) (first :: d :: rest)
    have hsnippet := joinLines_embed (τ := τ) snippet (fun _ => rfl) (first :: d :: rest)
    rw [List.map_cons] at hkind ⊢
    simp only [mergeGroup, hkind, bind, Except.bind, pure, Except.pure]
    rw [← List.map_cons, List.getLastD_map, ← List.map_cons, hsignature, hsnippet]
    simp only [folded_embed]
    rfl

end Entity

/-! ## One file -/

namespace CheckedGathering

/-- A checked gathering does as another one on extracted entities.  An entity that opens no group
of several is joined by none. -/
structure Follows (g : CheckedGathering τ) (h : Gathering) : Prop where
  bound : g.bound = .ofBound h.bound
  joins : ∀ first e, g.joins (first.embed τ) (e.embed τ) = h.joins first e
  opens : ∀ e, ∃ several, g.opens (e.embed τ) = .ok several ∧
    (several = false → ∀ d, h.joins e d = false)

omit [LawfulFragment τ] in
theorem follows_any (bound : Option Int) :
    (any (.ofBound bound) : CheckedGathering τ).Follows (.any bound) :=
  ⟨rfl, fun _ _ => rfl, fun _ => ⟨true, rfl, fun h => absurd h (by simp)⟩⟩

theorem any_fineKinds (kind : Text) :
    (fineKinds.any fun k => kind == k) = Kind.isFine kind := by
  simp [fineKinds, Kind.isFine, Bool.or_assoc]

theorem follows_fine (bound : Option Int) :
    (fine (.ofBound bound) : CheckedGathering τ).Follows (.fine bound) := by
  refine ⟨rfl, fun first e => ?_, fun e => ⟨Kind.isFine e.kind, ?_, fun h d => ?_⟩⟩
  · have hkinds : ∀ k, (Fragment.isText k (ofText first.kind : τ) &&
        Fragment.isText k (ofText e.kind : τ)) = (first.kind == k && e.kind == first.kind) := by
      intro k
      rw [Fragment.isText_ofText, Fragment.isText_ofText]
      by_cases h : first.kind = k
      · rw [h]
      · rw [beq_eq_false_iff_ne.2 h, Bool.false_and, Bool.false_and]
    change (fineKinds.any fun k => Fragment.isText k (ofText first.kind : τ) &&
      Fragment.isText k (ofText e.kind : τ)) = (Kind.isFine first.kind && e.kind == first.kind)
    simp only [hkinds]
    rw [← any_fineKinds, List.and_any_distrib_right]
  · change (toValue (ofText e.kind : τ)).key.map
      (fun _ => fineKinds.any fun k => Fragment.isText k (ofText e.kind : τ)) = _
    simp only [Fragment.isText_ofText, any_fineKinds, Fragment.toValue_ofText]
    rfl
  · change Gathering.sameFineKind e d = false
    rw [Gathering.sameFineKind, h, Bool.false_and]

theorem exists_follows_ofLevel (level : Granularity) (bound : Option Int) :
    ∃ g : CheckedGathering τ, ofLevel level (.ofBound bound) = .ok g ∧
      g.Follows (.ofLevel level bound) := by
  cases level with
  | fine => exact ⟨_, rfl, follows_fine bound⟩
  | medium =>
    refine ⟨any (.ofBound (bound.map fun b => Int.fdiv b 2)), ?_, follows_any _⟩
    rw [ofLevel, Value.half_ofBound]
    rfl
  | coarse => exact ⟨_, rfl, follows_any bound⟩

/-- An open group stands for the group of `first` and `more` with joined snippets of length
`size`, which matters only if the group may have several members. -/
structure IsOpen (h : Gathering) (group : OpenGroup τ) (first : Entity Text)
    (more : List (Entity Text)) (size : Nat) : Prop where
  first_eq : group.first = first.embed τ
  more_eq : group.more = more.map (Entity.embed τ)
  size_eq : ∀ d, h.joins first d = true → group.size = size

variable {g : CheckedGathering τ} {h : Gathering} {group : OpenGroup τ} {first e : Entity Text}
  {more : List (Entity Text)} {size : Nat}

theorem exists_isOpen_openAt (hg : g.Follows h) (e : Entity Text) :
    ∃ group, g.openAt (e.embed τ) = .ok group ∧ IsOpen h group e [] e.snippet.length := by
  obtain ⟨several, hopens, hjoins⟩ := hg.opens e
  cases several with
  | true =>
    refine ⟨⟨e.embed τ, [], e.snippet.length⟩, ?_, rfl, rfl, fun _ _ => rfl⟩
    simp only [openAt, hopens, Entity.snippetLength_embed, bind, Except.bind, pure, Except.pure]
    rfl
  | false =>
    refine ⟨⟨e.embed τ, [], 0⟩, ?_, rfl, rfl, fun d hd => ?_⟩
    · simp only [openAt, hopens, bind, Except.bind, pure, Except.pure]
      rfl
    · exact absurd hd (by simp [hjoins rfl d])

/-- An entity is taken into an open group exactly if it joins the first one and fits. -/
theorem exists_isOpen_extend? (hg : g.Follows h) (ho : IsOpen h group first more size)
    (htaken : (h.joins first e && h.fits (size + e.snippet.length + 1)) = true) :
    ∃ wider, g.extend? group (e.embed τ) = .ok (some wider) ∧
      IsOpen h wider first (more ++ [e]) (size + e.snippet.length + 1) := by
  rw [Bool.and_eq_true] at htaken
  have hjoins : g.joins group.first (e.embed τ) = true := by
    rw [ho.first_eq, hg.joins]
    exact htaken.1
  have hsize := ho.size_eq e htaken.1
  refine ⟨⟨group.first, group.more ++ [e.embed τ], size + e.snippet.length + 1⟩, ?_, ?_⟩
  · simp only [extend?, hjoins, Entity.snippetLength_embed, hg.bound, Value.isExceeded_ofBound,
      hsize, htaken.2, bind, Except.bind, pure, Except.pure]
    rfl
  · refine ⟨ho.first_eq, ?_, fun _ _ => rfl⟩
    rw [ho.more_eq, List.map_append, List.map_singleton]

theorem extend?_eq_none (hg : g.Follows h) (ho : IsOpen h group first more size)
    (hclosed : (h.joins first e && h.fits (size + e.snippet.length + 1)) = false) :
    g.extend? group (e.embed τ) = .ok none := by
  have hjoins : g.joins group.first (e.embed τ) = h.joins first e := by
    rw [ho.first_eq, hg.joins]
  cases hfirst : h.joins first e with
  | false =>
    rw [extend?, hjoins, hfirst]
    rfl
  | true =>
    rw [hfirst, Bool.true_and] at hclosed
    simp only [extend?, hjoins, hfirst, Entity.snippetLength_embed, hg.bound,
      Value.isExceeded_ofBound, ho.size_eq e hfirst, hclosed, bind, Except.bind, pure,
      Except.pure]
    rfl

theorem mergeGroup_of_isOpen (ho : IsOpen h group first more size)
    (hmerged : Entity.merge? (first :: more) = some e) :
    group.first.mergeGroup group.more = .ok (e.embed τ) := by
  rw [ho.first_eq, ho.more_eq]
  exact Entity.mergeGroup_embed hmerged

/-- Gathering goes on behind an open group as it does behind the group that this stands for. -/
theorem mergeFrom_embed (hg : g.Follows h) (ho : IsOpen h group first more size)
    (es : List (Entity Text)) :
    g.mergeFrom group (es.map (Entity.embed τ)) =
      .ok (((h.groupsFrom first more size es).filterMap Entity.merge?).map (Entity.embed τ)) := by
  induction es generalizing group first more size with
  | nil =>
    obtain ⟨merged, hmerged⟩ := Entity.exists_merge?_eq_some (List.cons_ne_nil first more)
    have hclosed := mergeGroup_of_isOpen ho hmerged
    simp only [List.map_nil, mergeFrom, hclosed, bind, Except.bind, pure, Except.pure]
    simp [Gathering.groupsFrom, hmerged]
  | cons e es ih =>
    rw [List.map_cons, mergeFrom, Gathering.groupsFrom]
    cases htaken : h.joins first e && h.fits (size + e.snippet.length + 1) with
    | true =>
      obtain ⟨wider, hextend, hwider⟩ := exists_isOpen_extend? hg ho htaken
      simp only [hextend, bind, Except.bind, if_true]
      exact ih hwider
    | false =>
      obtain ⟨merged, hmerged⟩ := Entity.exists_merge?_eq_some (List.cons_ne_nil first more)
      obtain ⟨next, hopen, hnext⟩ := exists_isOpen_openAt hg e
      simp only [extend?_eq_none hg ho htaken, mergeGroup_of_isOpen ho hmerged, hopen, ih hnext,
        bind, Except.bind, pure, Except.pure]
      simp [hmerged]

theorem mergeFile_embed (hg : g.Follows h) (es : List (Entity Text)) :
    g.mergeFile (es.map (Entity.embed τ)) =
      .ok (((h.groups es).filterMap Entity.merge?).map (Entity.embed τ)) := by
  cases es with
  | nil => rfl
  | cons e es =>
    obtain ⟨group, hopen, ho⟩ := exists_isOpen_openAt hg e
    rw [List.map_cons, mergeFile]
    simp only [hopen, bind, Except.bind]
    exact mergeFrom_embed hg ho es

/-! ## All files -/

/-- The keys of texts are told apart as the texts are. -/
theorem eraseDups_map_text (ts : List Text) :
    (ts.map Key.text).eraseDups = (Text.distinct ts).map Key.text := by
  match ts with
  | [] => rfl
  | t :: ts =>
    have hrest : (ts.map Key.text).filter (fun k => !k == Key.text t) =
        (ts.filter fun u => !(u == t)).map Key.text := by
      rw [List.filter_map]
      congr 1
      refine List.filter_congr fun u _ => ?_
      by_cases hu : u = t
      · simp [hu]
      · simp [hu]
    rw [List.map_cons, List.eraseDups_cons, hrest, eraseDups_map_text, Text.distinct,
      Text.distinct_filter, List.map_cons]
termination_by ts.length
decreasing_by
  have hle := List.length_filter_le (fun u => !(u == t)) ts
  simp only [List.length_cons]
  omega

theorem perFile_embed (es : List (Entity Text)) :
    perFile (es.map (Entity.embed τ)) =
      .ok ((CodeCatalog.perFile es).map (List.map (Entity.embed τ))) := by
  have hkeyed : ((es.map (Entity.embed τ)).mapM fun e =>
      (toValue e.filePath).key.map fun k => (k, e)) =
        .ok (es.map fun e => (Key.text e.filePath, e.embed τ)) := by
    rw [List.mapM_map]
    refine mapM_eq_ok_map fun e _ => ?_
    change (toValue (ofText e.filePath : τ)).key.map _ = _
    rw [Fragment.toValue_ofText]
    rfl
  have hkeys : ((es.map fun e => (Key.text e.filePath, e.embed τ)).map Prod.fst).eraseDups =
      (Text.distinct (es.map Entity.filePath)).map Key.text := by
    rw [← eraseDups_map_text, List.map_map, List.map_map]
    rfl
  have hfile : ∀ path, ((((es.map fun e => (Key.text e.filePath, e.embed τ)).filter
      fun m => m.1 == Key.text path).map Prod.snd).mergeSort
        fun a b => decide (a.lineFrom ≤ b.lineFrom)) =
          (inFile es path).map (Entity.embed τ) := by
    intro path
    have hfilter : ((es.map fun e => (Key.text e.filePath, e.embed τ)).filter
        fun m => m.1 == Key.text path) =
          (es.filter fun e => e.filePath == path).map
            fun e => (Key.text e.filePath, e.embed τ) := by
      rw [List.filter_map]
      congr 1
      refine List.filter_congr fun e _ => ?_
      by_cases he : e.filePath = path
      · simp [he]
      · simp [he]
    rw [hfilter, List.map_map, inFile]
    exact (List.map_mergeSort (f := Entity.embed τ) fun _ _ _ _ => rfl).symm
  simp only [perFile, hkeyed, bind, Except.bind, pure, Except.pure]
  rw [hkeys, List.map_map, perFile_eq, List.map_map]
  exact congrArg Except.ok (List.map_congr_left fun path _ => hfile path)

theorem mergeAll_embed {g : CheckedGathering τ} {h : Gathering} (hg : g.Follows h)
    (es : List (Entity Text)) :
    g.mergeAll (es.map (Entity.embed τ)) = .ok ((h.mergeAll es).map (Entity.embed τ)) := by
  match es with
  | [] => rfl
  | [e] =>
    rw [Gathering.mergeAll_singleton]
    rfl
  | e :: d :: rest =>
    have hfiles : ((CodeCatalog.perFile (e :: d :: rest)).map (List.map (Entity.embed τ))).mapM
        g.mergeFile = .ok ((CodeCatalog.perFile (e :: d :: rest)).map fun file =>
          ((h.groups file).filterMap Entity.merge?).map (Entity.embed τ)) := by
      rw [List.mapM_map]
      exact mapM_eq_ok_map fun file _ => mergeFile_embed hg file
    have hperFile := perFile_embed (τ := τ) (e :: d :: rest)
    rw [List.map_cons, List.map_cons] at hperFile ⊢
    simp only [mergeAll, hperFile, hfiles, bind, Except.bind, pure, Except.pure]
    rw [Gathering.mergeAll, List.map_flatMap, List.flatMap_def]

end CheckedGathering

/-- Checked merging of entities with texts in all places, under a bound that is a whole number or
absent, gives what merging gives. -/
theorem mergeWithin_embed (level : Granularity) (bound : Option Int) (es : List (Entity Text)) :
    mergeWithin level (.ofBound bound) (es.map (Entity.embed τ)) =
      .ok ((mergeEntities level bound es).map (Entity.embed τ)) := by
  obtain ⟨g, hlevel, hg⟩ := CheckedGathering.exists_follows_ofLevel (τ := τ) level bound
  rw [mergeWithin, hlevel]
  exact CheckedGathering.mergeAll_embed hg es

end

theorem mergeWithin_text (level : Granularity) (bound : Option Int) (es : List (Entity Text)) :
    mergeWithin level (.ofBound bound) es = .ok (mergeEntities level bound es) := by
  have h := mergeWithin_embed (τ := Text) level bound es
  simp only [List.map_congr_left fun e _ => Entity.embed_text e, List.map_id'] at h
  exact h

end CodeCatalog
