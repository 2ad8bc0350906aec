import CodeCatalog.Proofs.Lists
import CodeCatalog.Proofs.Settings
import CodeCatalog.Proofs.Text.Case
import CodeCatalog.Proofs.Text.Distinct
import CodeCatalog.Request
import Mathlib.Algebra.Order.BigOperators.Group.List
import Mathlib.Algebra.Order.Group.Nat
import Mathlib.Algebra.Ring.Nat
set_option autoImplicit false

/-!
# Normalised extensions

Normalising trims an extension once and then drops the dots before it, so white space behind these
dots stays.  Normalising again takes it away: extensions stay as they are exactly if there is none,
and otherwise they get shorter together.  A request that is checked again is accepted unchanged
under the same condition.
-/

namespace CodeCatalog

/-! ## One extension -/

section

open Text

variable {e : Text}

/-- What is left of an extension without the white space around it and the dots before that. -/
def bareExtension (e : Text) : Text := e.trim.dropWhile (· == Path.dot)

theorem normalExtension_eq (e : Text) : normalExtension e = lower (bareExtension e) := rfl

/-- Nothing is left of an extension that is dots and white space around them. -/
theorem normalExtension_eq_nil_iff : normalExtension e = [] ↔ ∀ g ∈ e.trim, g = Path.dot := by
  rw [normalExtension_eq, lower_eq_nil_iff, bareExtension, List.dropWhile_eq_nil_iff]
  simp

/-- White space stands behind the dots before an extension. -/
def HasBlankBehindDots (e : Text) : Prop :=
  ∃ (dots : Text) (blank : Glyph) (rest : Text), e.trim = dots ++ blank :: rest ∧
    (∀ g ∈ dots, g = Path.dot) ∧ blank.isBlank = true

theorem hasBlankBehindDots_iff :
    HasBlankBehindDots e ↔ ∃ g ∈ (bareExtension e).head?, g.isBlank = true := by
  constructor
  · rintro ⟨dots, blank, rest, htrim, hdots, hblank⟩
    have hne : blank ≠ Path.dot := by
      rintro rfl
      exact absurd hblank (by decide)
    have hbare : bareExtension e = blank :: rest := by
      rw [bareExtension, htrim, List.dropWhile_append_of_pos (by simpa using hdots),
        List.dropWhile_cons_of_neg (by simpa using hne)]
    exact ⟨blank, by rw [hbare]; rfl, hblank⟩
  · rintro ⟨blank, hhead, hblank⟩
    obtain ⟨rest, hbare⟩ := List.head?_eq_some_iff.1 hhead
    refine ⟨e.trim.takeWhile (· == Path.dot), blank, rest, ?_, ?_, hblank⟩
    · rw [← hbare, bareExtension, List.takeWhile_append_dropWhile]
    · intro g hg
      simpa using List.mem_takeWhile_imp hg

theorem bareExtension_sublist (e : Text) : (bareExtension e).Sublist e :=
  (List.dropWhile_sublist _).trans
    ((List.rdropWhile_prefix _ _).sublist.trans (List.dropWhile_sublist _))

/-- No white space is left at the end. -/
theorem last_bareExtension (e : Text) : ∀ g ∈ (bareExtension e).getLast?, g.isBlank = false := by
  intro g hg
  have hlast := (isTrimmed_trimWhile Glyph.isBlank e).last
  refine hlast g ?_
  have hsuffix : bareExtension e <:+ e.trim := List.dropWhile_suffix _
  obtain ⟨front, hfront⟩ := hsuffix
  change g ∈ e.trim.getLast?
  rw [← hfront, List.getLast?_append, Option.mem_def.1 hg]
  rfl

theorem normalExtension_again (h : ¬HasBlankBehindDots e) :
    normalExtension (normalExtension e) = normalExtension e := by
  have hblank : ∀ g ∈ (bareExtension e).head?, g.isBlank = false := by
    intro g hg
    by_contra hg'
    exact h (hasBlankBehindDots_iff.2 ⟨g, hg, by simpa using hg'⟩)
  have htrimmed : (lower (bareExtension e)).IsTrimmed Glyph.isBlank :=
    (isTrimmed_lower_iff sparesPlain_isBlank).2 ⟨hblank, last_bareExtension e⟩
  have hdots : ∀ g ∈ (lower (bareExtension e)).head?, (g == Path.dot) = false :=
    (head_lower_iff sparesPlain_dot).2 fun _ hg =>
      head?_of_dropWhile (p := (· == Path.dot)) (t := e.trim) hg
  rw [normalExtension_eq e, normalExtension_eq, bareExtension, trim, htrimmed.trimWhile_eq,
    dropWhile_of_head? hdots, lower_lower]

/-- What is in small letters gets no longer. -/
theorem length_normalExtension_le (h : ∀ g ∈ e, g.IsSettled) :
    (normalExtension e).length ≤ e.length := by
  have hsub := bareExtension_sublist e
  rw [normalExtension_eq, lower_of_isSettled fun g hg => h g (hsub.subset hg)]
  exact hsub.length_le

/-- White space at the beginning is taken away. -/
theorem length_normalExtension_lt (h : HasBlankBehindDots e) :
    (normalExtension (normalExtension e)).length < (normalExtension e).length := by
  have hsettled : ∀ g ∈ normalExtension e, g.IsSettled := fun g hg => isSettled_of_mem_lower hg
  have hblank : ¬∀ g ∈ (lower (bareExtension e)).head?, g.isBlank = false := by
    rw [head_lower_iff sparesPlain_isBlank]
    obtain ⟨g, hg, hblank⟩ := hasBlankBehindDots_iff.1 h
    intro hnone
    rw [hnone g hg] at hblank
    cases hblank
  rw [← normalExtension_eq] at hblank
  cases hnormal : normalExtension e with
  | nil => exact absurd (by simp [hnormal]) hblank
  | cons g rest =>
    rw [hnormal] at hblank hsettled
    have hg : g.isBlank = true := by
      simpa using hblank
    have hshift : normalExtension (g :: rest) = lower (bareExtension rest) := by
      have hdrop : (g :: rest).dropWhile Glyph.isBlank = rest.dropWhile Glyph.isBlank :=
        List.dropWhile_cons_of_pos hg
      rw [normalExtension_eq, bareExtension, bareExtension, trim, trim, trimWhile, trimWhile,
        hdrop]
    rw [hshift, ← normalExtension_eq]
    have hle := length_normalExtension_le fun g' hg' => hsettled g' (List.mem_cons_of_mem g hg')
    exact Nat.lt_succ_of_le hle

end

/-! ## Lists of extensions -/

section

variable {es : List Text} {t : Text}

theorem mem_normalExtensions :
    t ∈ normalExtensions es ↔ t ≠ [] ∧ ∃ e ∈ es, normalExtension e = t := by
  rw [normalExtensions, Text.mem_distinct, List.mem_filter, List.mem_map, and_comm]
  simp

theorem nodup_normalExtensions (es : List Text) : (normalExtensions es).Nodup :=
  Text.nodup_distinct _

/-- Different extensions that are normalised already stay as they are. -/
theorem normalExtensions_of_forall_eq (hnodup : es.Nodup)
    (h : ∀ e ∈ es, e ≠ [] ∧ normalExtension e = e) : normalExtensions es = es := by
  have hmap : es.map normalExtension = es := by
    conv_rhs => rw [← List.map_id es]
    exact List.map_congr_left fun e he => (h e he).2
  have hfilter : es.filter (fun e => !e.isEmpty) = es := by
    refine List.filter_eq_self.2 fun e he => ?_
    simpa using (h e he).1
  rw [normalExtensions, hmap, hfilter, Text.distinct_of_nodup hnodup]

/-- The number of code points in all texts of a list together. -/
def totalLength (ts : List Text) : Nat := (ts.map List.length).sum

theorem totalLength_normalExtensions_le (es : List Text) :
    totalLength (normalExtensions es) ≤ totalLength (es.map normalExtension) := by
  have hsub : (normalExtensions es).Sublist (es.map normalExtension) :=
    (Text.distinct_sublist _).trans List.filter_sublist
  exact (hsub.map List.length).sum_le_sum fun _ _ => Nat.zero_le _

/-- If white space is taken away, less is left. -/
theorem totalLength_again_lt {e : Text} (he : e ∈ es) (h : HasBlankBehindDots e) :
    totalLength (normalExtensions (normalExtensions es)) < totalLength (normalExtensions es) := by
  refine (totalLength_normalExtensions_le _).trans_lt ?_
  rw [totalLength, totalLength, List.map_map]
  have hlt := length_normalExtension_lt h
  refine List.sum_lt_sum _ _ (fun t ht => ?_) ⟨normalExtension e, ?_, hlt⟩
  · obtain ⟨-, e', -, rfl⟩ := mem_normalExtensions.1 ht
    exact length_normalExtension_le fun g hg => Text.isSettled_of_mem_lower hg
  · refine mem_normalExtensions.2 ⟨?_, e, he, rfl⟩
    rintro hnil
    rw [hnil] at hlt
    cases hlt

theorem normalExtensions_normalExtensions_iff (es : List Text) :
    normalExtensions (normalExtensions es) = normalExtensions es ↔
      ∀ e ∈ es, ¬HasBlankBehindDots e := by
  constructor
  · intro hsame e he h
    have hlt := totalLength_again_lt he h
    rw [hsame] at hlt
    exact Nat.lt_irrefl _ hlt
  · intro h
    refine normalExtensions_of_forall_eq (nodup_normalExtensions es) fun t ht => ?_
    obtain ⟨hne, e, he, rfl⟩ := mem_normalExtensions.1 ht
    exact ⟨hne, normalExtension_again (h e he)⟩

end

theorem Settings.texts_injective {ts us : List Text} (h : texts ts = texts us) : ts = us :=
  List.map_injective_iff.2 (fun _ _ => Value.text.inj) (Value.list.inj h)

/-! ## Fields that are checked again -/

namespace Request

variable {place again : List Step} {v : Value} {t : Text} {ts es : List Text}

theorem textItems_map_text (place : List Step) (index : Nat) (ts : List Text) :
    textItems place index (ts.map .text) = .ok ts := by
  induction ts generalizing index with
  | nil => rfl
  | cons t ts ih =>
    rw [List.map_cons, textItems, ih]
    rfl

/-- Items that are accepted are the texts that they are read as. -/
theorem eq_map_text_of_textItems {index : Nat} {items : List Value}
    (h : textItems place index items = .ok ts) : items = ts.map .text := by
  induction items generalizing index ts with
  | nil =>
    cases h
    rfl
  | cons v rest ih =>
    rw [textItems] at h
    cases hv : text (place ++ [.item index]) v with
    | error vs =>
      rw [hv] at h
      cases h
    | ok t =>
      cases hrest : textItems place (index + 1) rest with
      | error vs =>
        rw [hv, hrest] at h
        cases h
      | ok us =>
        rw [hv, hrest] at h
        cases h
        cases v with
        | text t' =>
          cases hv
          rw [List.map_cons, ← ih hrest]
        | _ => cases hv

theorem textList_eq_ok_iff : textList place v = .ok ts ↔ v = Settings.texts ts := by
  constructor
  · intro h
    cases v with
    | list items => exact congrArg Value.list (eq_map_text_of_textItems h)
    | _ => cases h
  · rintro rfl
    exact textItems_map_text place 0 ts

/-- The field of the extensions is accepted if it lists texts of which one at least is not empty
when normalised. -/
theorem extensions_eq_ok_iff :
    extensions place v = .ok es ↔
      ∃ ts, v = Settings.texts ts ∧ normalExtensions ts = es ∧ es ≠ [] := by
  unfold extensions
  rw [bind_eq_ok]
  simp only [textList_eq_ok_iff]
  refine exists_congr fun ts => and_congr_right fun _ => ?_
  cases ts with
  | nil =>
    constructor
    · intro h
      cases h
    · rintro ⟨rfl, hne⟩
      exact absurd rfl hne
  | cons t ts =>
    rw [List.isEmpty_cons, if_neg Bool.false_ne_true]
    cases hnormal : normalExtensions (t :: ts) with
    | nil =>
      constructor
      · intro h
        cases h
      · rintro ⟨rfl, hne⟩
        exact absurd rfl hne
    | cons e es' =>
      constructor
      · intro h
        cases h
        exact ⟨rfl, List.cons_ne_nil _ _⟩
      · rintro ⟨rfl, -⟩
        rfl

theorem someText_again (h : someText place v = .ok t) : someText again (.text t) = .ok t := by
  obtain ⟨t', ht', h⟩ := bind_eq_ok.1 h
  split at h
  · cases h
  · split at h
    · cases h
    · rename_i hscalar hempty
      cases h
      change (if _ then _ else _) = _
      rw [if_neg hscalar, if_neg hempty]
      rfl

theorem integerFrom_again {least i : Int} {rule : Rule}
    (h : integerFrom least rule place v = .ok i) :
    integerFrom least rule again (.int i) = .ok i := by
  obtain ⟨i', hi', h⟩ := bind_eq_ok.1 h
  split at h
  · cases h
  · rename_i hleast
    cases h
    change (if _ then _ else _) = _
    rw [if_neg hleast]
    rfl

theorem optional_integerFrom_again {least : Int} {rule : Rule} {limit : Option Int}
    (h : optional (integerFrom least rule place) v = .ok limit) :
    optional (integerFrom least rule again) (.ofInt? limit) = .ok limit := by
  cases limit with
  | none => rfl
  | some i =>
    have hint : integerFrom least rule place v = .ok i := by
      unfold optional at h
      split at h
      · cases h
      · cases hi : integerFrom least rule place v with
        | error vs =>
          rw [hi] at h
          cases h
        | ok i' =>
          rw [hi] at h
          cases h
          rfl
    exact congrArg (some <$> ·) (integerFrom_again hint)

theorem granularity_label (place : List Step) (level : Granularity) :
    granularity place (.text level.label) = .ok level := by
  have hparse : Granularity.parse (.text level.label) = .ok level := by
    cases level <;> rfl
  rw [granularity, hparse]

end Request

/-! ## Requests that are checked again -/

namespace SurveyRequest

open Request

variable {data : List (Text × Value)} {r : SurveyRequest}

/-- The data of a request. -/
def members (r : SurveyRequest) : List (Text × Value) :=
  [("root_dir", .text r.root), ("extensions", Settings.texts r.extensions),
    ("exclude_dirs", Settings.texts r.excluded), ("max_snippet_size", .ofInt? r.maxSnippet),
    ("granularity", .text r.granularity.label)]

/-- A request is accepted if each of its fields is. -/
structure Accepts (data : List (Text × Value)) (r : SurveyRequest) : Prop where
  root : required data "root_dir" someText = .ok r.root
  extensions : required data "extensions" Request.extensions = .ok r.extensions
  excluded : withDefault data "exclude_dirs" usualExcluded textList = .ok r.excluded
  maxSnippet : withDefault data "max_snippet_size" none
    (fun place => optional (integerFrom 1 .positive place)) = .ok r.maxSnippet
  granularity : withDefault data "granularity" .fine Request.granularity = .ok r.granularity

theorem check_eq_ok_iff : check data = .ok r ↔ Accepts data r := by
  simp only [check]
  constructor
  · intro h
    split at h
    · rename_i hroot hextensions hexcluded hmax hgranularity
      cases h
      exact ⟨hroot, hextensions, hexcluded, hmax, hgranularity⟩
    · cases h
  · rintro ⟨hroot, hextensions, hexcluded, hmax, hgranularity⟩
    rw [hroot, hextensions, hexcluded, hmax, hgranularity]

/-- A field with its value is checked by itself. -/
theorem required_of_find? {α : Type} {name : String} {check : List Step → Value → Checked α}
    {v : Value} (h : Value.find? (Text.ofString name) data = some v) :
    required data name check = check [.field name] v := by
  rw [required, h]

theorem exists_of_required {α : Type} {name : String} {check : List Step → Value → Checked α}
    {a : α} (h : required data name check = .ok a) :
    ∃ v, Value.find? (Text.ofString name) data = some v ∧ check [.field name] v = .ok a := by
  unfold required at h
  split at h
  · rename_i v hv
    exact ⟨v, hv, h⟩
  · cases h

theorem withDefault_of_find? {α : Type} {name : String} {standard : α}
    {check : List Step → Value → Checked α} {v : Value}
    (h : Value.find? (Text.ofString name) data = some v) :
    withDefault data name standard check = check [.field name] v := by
  rw [withDefault, h]

theorem find?_members (r : SurveyRequest) :
    Value.find? "root_dir" r.members = some (.text r.root) ∧
      Value.find? "extensions" r.members = some (Settings.texts r.extensions) ∧
      Value.find? "exclude_dirs" r.members = some (Settings.texts r.excluded) ∧
      Value.find? "max_snippet_size" r.members = some (.ofInt? r.maxSnippet) ∧
      Value.find? "granularity" r.members = some (.text r.granularity.label) :=
  ⟨rfl, rfl, rfl, rfl, rfl⟩

/-- What was accepted is accepted again, except that the extensions are normalised again. -/
theorem accepts_members_iff {again : SurveyRequest} (h : Accepts data r) :
    Accepts r.members again ↔
      normalExtensions r.extensions ≠ [] ∧
        again = { r with extensions := normalExtensions r.extensions } := by
  obtain ⟨hroot, hextensions, hexcluded, hmax, hgranularity⟩ := find?_members r
  have hroot' : required r.members "root_dir" someText = .ok r.root := by
    obtain ⟨v, -, hv⟩ := exists_of_required h.root
    rw [required_of_find? hroot]
    exact someText_again hv
  have hexcluded' : withDefault r.members "exclude_dirs" usualExcluded textList =
      .ok r.excluded := by
    rw [withDefault_of_find? hexcluded]
    exact textList_eq_ok_iff.2 rfl
  have hmax' : withDefault r.members "max_snippet_size" none
      (fun place => optional (integerFrom 1 .positive place)) = .ok r.maxSnippet := by
    rw [withDefault_of_find? hmax]
    have haccepted := h.maxSnippet
    unfold withDefault at haccepted
    split at haccepted
    · exact optional_integerFrom_again haccepted
    · rw [← Except.ok.inj haccepted]
      rfl
  have hgranularity' : withDefault r.members "granularity" .fine Request.granularity =
      .ok r.granularity := by
    rw [withDefault_of_find? hgranularity]
    exact granularity_label _ _
  constructor
  · rintro ⟨hr, he, hx, hm, hg⟩
    rw [required_of_find? hextensions] at he
    obtain ⟨ts, hts, hnormal, hne⟩ := extensions_eq_ok_iff.1 he
    rw [← Settings.texts_injective hts] at hnormal
    rw [hroot'] at hr
    rw [hexcluded'] at hx
    rw [hmax'] at hm
    rw [hgranularity'] at hg
    obtain ⟨root, es, excluded, maxSnippet, level⟩ := again
    cases hr
    cases hx
    cases hm
    cases hg
    exact ⟨hnormal ▸ hne, by rw [hnormal]⟩
  · rintro ⟨hne, rfl⟩
    refine ⟨hroot', ?_, hexcluded', hmax', hgranularity'⟩
    rw [required_of_find? hextensions]
    exact extensions_eq_ok_iff.2 ⟨_, rfl, rfl, hne⟩

end SurveyRequest

/-- Normalising extensions again changes nothing exactly if no white space stands behind the dots
before one of them.  Under this condition a request with them that was accepted is accepted again
as it is; it is accepted again in some way if a normalised extension holds more than dots. -/
theorem normalExtensions_again_iff (extensions : List Text) :
    (normalExtensions (normalExtensions extensions) = normalExtensions extensions ↔
      ∀ e ∈ extensions, ¬HasBlankBehindDots e) ∧
    ∀ (data : List (Text × Value)) (r : SurveyRequest),
      Value.find? "extensions" data = some (Settings.texts extensions) →
      SurveyRequest.check data = .ok r →
        (SurveyRequest.check r.members = .ok r ↔ ∀ e ∈ extensions, ¬HasBlankBehindDots e) ∧
        ((∃ again, SurveyRequest.check r.members = .ok again) ↔
          ∃ e ∈ r.extensions, ∃ g ∈ e.trim, g ≠ Path.dot) := by
  refine ⟨normalExtensions_normalExtensions_iff extensions, fun data r hdata hr => ?_⟩
  have haccepts := SurveyRequest.check_eq_ok_iff.1 hr
  have hfield := haccepts.extensions
  rw [SurveyRequest.required_of_find? hdata] at hfield
  obtain ⟨ts, hts, hnormal, hne⟩ := Request.extensions_eq_ok_iff.1 hfield
  obtain rfl := Settings.texts_injective hts
  simp only [SurveyRequest.check_eq_ok_iff, SurveyRequest.accepts_members_iff haccepts]
  constructor
  · rw [← normalExtensions_normalExtensions_iff, hnormal]
    constructor
    · rintro ⟨-, hsame⟩
      exact (congrArg SurveyRequest.extensions hsame).symm
    · intro hsame
      rw [hsame]
      exact ⟨hne, rfl⟩
  · constructor
    · rintro ⟨-, hsome, -⟩
      obtain ⟨t, ht⟩ := List.exists_mem_of_ne_nil _ hsome
      obtain ⟨htne, e, he, rfl⟩ := mem_normalExtensions.1 ht
      rw [ne_eq, normalExtension_eq_nil_iff] at htne
      push Not at htne
      exact ⟨e, he, htne⟩
    · rintro ⟨e, he, g, hg, hdot⟩
      refine ⟨_, List.ne_nil_of_mem (mem_normalExtensions.2 ⟨?_, e, he, rfl⟩), rfl⟩
      rw [ne_eq, normalExtension_eq_nil_iff]
      exact fun h => hdot (h g hg)

/-- The data of a request for one extension, two dots with a space between them. -/
def spacedDots : List (Text × Value) :=
  [("root_dir", .text "src"), ("extensions", Settings.texts [". ."])]

/-- What the data are accepted as. -/
def spacedRequest : SurveyRequest := ⟨"src", [" ."], usualExcluded, none, .fine⟩

theorem check_spacedDots : SurveyRequest.check spacedDots = .ok spacedRequest := rfl

theorem normalExtensions_again_iff_spacedDots :
    Value.find? "extensions" spacedDots = some (Settings.texts [". ."]) ∧
      SurveyRequest.check spacedDots = .ok spacedRequest ∧
      (SurveyRequest.check spacedRequest.members = .ok spacedRequest ↔
        ∀ e ∈ ([". ."] : List Text), ¬HasBlankBehindDots e) ∧
      ((∃ again, SurveyRequest.check spacedRequest.members = .ok again) ↔
        ∃ e ∈ spacedRequest.extensions, ∃ g ∈ e.trim, g ≠ Path.dot) :=
  ⟨rfl, check_spacedDots, (normalExtensions_again_iff [". ."]).2 _ _ rfl check_spacedDots⟩

/-- Normalised again, the space and the dot behind it are gone, so a request that was accepted is
refused. -/
theorem refused_again_spacedDots :
    normalExtensions (normalExtensions [". ."]) ≠ normalExtensions [". ."] ∧
      SurveyRequest.check spacedDots = .ok spacedRequest ∧
      SurveyRequest.check spacedRequest.members =
        .error [⟨[.field "extensions"],
          .value "extensions must contain at least one non-empty extension"⟩] :=
  ⟨by decide, rfl, rfl⟩

end CodeCatalog
