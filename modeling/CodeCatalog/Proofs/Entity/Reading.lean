import CodeCatalog.Entity.Record
import CodeCatalog.Proofs.Lists
set_option autoImplicit false

/-!
# How the reading of a record breaks

Most of what can be wrong with a record is malformed data, and is told as such.  Three faults are
not: a value that is no object is asked for its members, a line is infinite, a component of an
embedding is an integer beyond the numbers.  A record is read field by field, so each of them
shows only if everything before it could be read.
-/

namespace CodeCatalog

variable {α β : Type}

/-- A reading fails, and not because of malformed data. -/
def BreaksWith (r : Except DataFault α) (fault : DataFault) : Prop :=
  r = .error fault ∧ fault.isMalformed = false

@[simp] theorem breaksWith_error {f fault : DataFault} :
    BreaksWith (.error f : Except DataFault α) fault ↔ f = fault ∧ f.isMalformed = false := by
  constructor
  · rintro ⟨h, hf⟩
    cases h
    exact ⟨rfl, hf⟩
  · rintro ⟨rfl, hf⟩
    exact ⟨rfl, hf⟩

@[simp] theorem not_breaksWith_ok {a : α} {fault : DataFault} :
    ¬ BreaksWith (.ok a : Except DataFault α) fault := by
  rintro ⟨h, _⟩
  cases h

/-- Steps break where the first of them does that cannot be done. -/
theorem breaksWith_bind {r : Except DataFault α} {next : α → Except DataFault β}
    {fault : DataFault} :
    BreaksWith (r >>= next) fault ↔
      BreaksWith r fault ∨ ∃ a, r = .ok a ∧ BreaksWith (next a) fault := by
  cases r with
  | error f => simp [BreaksWith, bind, Except.bind]
  | ok a => simp [BreaksWith, bind, Except.bind]

theorem breaksWith_mapM {read : α → Except DataFault β} {xs : List α} {fault : DataFault} :
    BreaksWith (xs.mapM read) fault ↔
      ∃ before x after, xs = before ++ x :: after ∧ (∀ y ∈ before, ∃ b, read y = .ok b) ∧
        BreaksWith (read x) fault := by
  unfold BreaksWith
  rw [mapM_eq_error]
  constructor
  · rintro ⟨⟨before, x, after, hxs, hbefore, hx⟩, hfault⟩
    exact ⟨before, x, after, hxs, hbefore, hx, hfault⟩
  · rintro ⟨before, x, after, hxs, hbefore, hx, hfault⟩
    exact ⟨⟨before, x, after, hxs, hbefore, hx⟩, hfault⟩

/-! ## Values -/

namespace Value

variable {fault : DataFault} {members : List (Text × Value)} {key : Text}

theorem member_object :
    (object members).member key = .ok (ofOption (find? key members)) := rfl

theorem eq_some_of_ofOption_eq_list {o : Option Value} {items : List Value}
    (h : ofOption o = list items) : o = some (list items) := by
  cases o with
  | none => cases h
  | some v => exact congrArg some h

/-- A key that is missing is malformed data. -/
theorem not_breaksWith_index {v : Value} : ¬ BreaksWith (v.index key) fault := by
  unfold index
  split
  · split
    · exact not_breaksWith_ok
    · simp [DataFault.isMalformed]
  all_goals simp [DataFault.isMalformed]

theorem index_object_eq_ok {v : Value} :
    (object members).index key = .ok v ↔ find? key members = some v := by
  simp only [index]
  split <;> simp_all

/-- What is read as an integer breaks only if it is infinite. -/
theorem breaksWith_toInteger {v : Value} :
    BreaksWith v.toInteger fault ↔ fault = .infiniteInteger ∧ ∃ x, v = .float x ∧ x.isInfinite := by
  cases v with
  | float x =>
    have hnan : x.isInfinite → x.isNaN = false := by
      simp only [Double.isInfinite, Double.isNaN, beq_iff_eq, decide_eq_false_iff_not]
      omega
    by_cases hinf : x.isInfinite
    · simp [toInteger, hinf, hnan hinf, DataFault.isMalformed, eq_comm (a := fault)]
    · simp only [toInteger, hinf]
      split
      · simp [DataFault.isMalformed, hinf]
      · simp [hinf]
  | text t =>
    simp only [toInteger]
    split <;> simp [DataFault.isMalformed]
  | _ => simp [toInteger, DataFault.isMalformed]

/-- What is read as a number breaks only if it is an integer beyond the numbers. -/
theorem breaksWith_toDouble {v : Value} :
    BreaksWith v.toDouble fault ↔
      fault = .hugeInteger ∧ ∃ i, v = .int i ∧ Double.ofInt? i = none := by
  cases v with
  | int i =>
    cases hi : Double.ofInt? i <;>
      simp [toDouble, hi, DataFault.isMalformed, eq_comm (a := fault)]
  | text t =>
    simp only [toDouble]
    split <;> simp [DataFault.isMalformed]
  | _ => simp [toDouble, DataFault.isMalformed]

end Value

/-! ## Records -/

/-- The members have all of some keys. -/
def Value.HasKeys (keys : List Text) (members : List (Text × Value)) : Prop :=
  ∀ key ∈ keys, ∃ v, Value.find? key members = some v

/-- What an object has to have to be read as a context. -/
def Context.keys : List Text := ["file_path", "file_name", "snippet"]

theorem Context.exists_ofValue_eq_ok {v : Value} :
    (∃ c, Context.ofValue v = .ok c) ↔
      ∃ members, v = .object members ∧ Value.HasKeys Context.keys members := by
  cases v with
  | object members =>
    simp only [Context.ofValue, bind_eq_ok, Value.index_object_eq_ok, Value.member_object,
      Value.HasKeys, Context.keys, pure, Except.pure]
    constructor
    · rintro ⟨_, path, hpath, name, hname, snippet, hsnippet, _⟩
      exact ⟨members, rfl, by simp [hpath, hname, hsnippet]⟩
    · rintro ⟨_, hmembers, hkeys⟩
      cases hmembers
      obtain ⟨path, hpath⟩ := hkeys "file_path" (by simp)
      obtain ⟨name, hname⟩ := hkeys "file_name" (by simp)
      obtain ⟨snippet, hsnippet⟩ := hkeys "snippet" (by simp)
      exact ⟨_, path, hpath, name, hname, snippet, hsnippet, _, rfl, _, rfl, rfl⟩
  | _ => simp [Context.ofValue, Value.index, bind, Except.bind]

/-- A context is malformed, or it is read: what has one member of a key is an object. -/
theorem Context.not_breaksWith_ofValue {v : Value} {fault : DataFault} :
    ¬ BreaksWith (Context.ofValue v) fault := by
  cases v with
  | object members =>
    simp [Context.ofValue, breaksWith_bind, Value.not_breaksWith_index, Value.member_object, pure,
      Except.pure]
  | _ =>
    simp [Context.ofValue, Value.index, breaksWith_bind, DataFault.isMalformed]

namespace Record

variable {fault : DataFault} {members : List (Text × Value)} {v : Value}

/-- Only the items of a list can be integers. -/
theorem breaksWith_readEmbedding :
    BreaksWith (readEmbedding v) fault ↔
      fault = .hugeInteger ∧ ∃ before i after, v = .list (before ++ .int i :: after) ∧
        (∀ y ∈ before, ∃ x, y.toDouble = .ok x) ∧ Double.ofInt? i = none := by
  have hread : ∀ items : List Value,
      BreaksWith (items.mapM Value.toDouble >>= fun xs => .ok (some xs)) fault ↔
        fault = .hugeInteger ∧ ∃ before i after, items = before ++ .int i :: after ∧
          (∀ y ∈ before, ∃ x, y.toDouble = .ok x) ∧ Double.ofInt? i = none := by
    intro items
    simp only [breaksWith_bind, breaksWith_mapM, Value.breaksWith_toDouble, not_breaksWith_ok,
      and_false, exists_false, or_false]
    constructor
    · rintro ⟨before, _, after, hitems, hbefore, hfault, i, rfl, hi⟩
      exact ⟨hfault, before, i, after, hitems, hbefore, hi⟩
    · rintro ⟨hfault, before, i, after, hitems, hbefore, hi⟩
      exact ⟨before, _, after, hitems, hbefore, hfault, i, rfl, hi⟩
  -- The elements of what is not a list are texts.
  have htexts : ∀ {items : List Value}, (∀ i, .int i ∉ items) →
      ¬ BreaksWith (items.mapM Value.toDouble >>= fun xs => .ok (some xs)) fault := by
    intro items hitems h
    obtain ⟨_, before, i, after, rfl, _⟩ := (hread items).1 h
    exact hitems i (by simp)
  cases v with
  | list items =>
    refine (hread items).trans ?_
    simp only [Value.list.injEq]
  | text t => exact iff_of_false (htexts (by simp)) (by simp)
  | object members => exact iff_of_false (htexts (by simp)) (by simp)
  | _ =>
    simp [readEmbedding, Value.elements, breaksWith_bind, DataFault.isMalformed]

/-- What an object has to have to be read up to its lines. -/
def nameKeys : List Text := ["name", "signature", "kind"]

/-- The keys of lines, in the order in which they are read. -/
def lineKeys : List Text := ["line", "line_from", "line_to"]

/-- There is a line at a key. -/
def HasLine (members : List (Text × Value)) (key : Text) : Prop :=
  ∃ v i, Value.find? key members = some v ∧ v.toInteger = .ok i

/-- There is an infinite number at a key. -/
def IsEndless (members : List (Text × Value)) (key : Text) : Prop :=
  ∃ x, Value.find? key members = some (.float x) ∧ x.isInfinite

/-- There is a context among the members. -/
def HasContext (members : List (Text × Value)) : Prop :=
  ∃ context, Value.find? "context" members = some (.object context) ∧
    Value.HasKeys Context.keys context

/-- A line breaks if it is infinite; otherwise it has to be there for the reading to go on. -/
theorem breaksWith_line {key : Text} {next : Int → Except DataFault β} {P : Prop}
    (hnext : ∀ i, BreaksWith (next i) fault ↔ P) :
    BreaksWith ((Value.object members).index key >>= fun v => v.toInteger >>= next) fault ↔
      fault = .infiniteInteger ∧ IsEndless members key ∨ HasLine members key ∧ P := by
  simp only [breaksWith_bind, Value.not_breaksWith_index, Value.index_object_eq_ok,
    Value.breaksWith_toInteger, hnext, false_or, IsEndless, HasLine]
  constructor
  · rintro ⟨v, hv, ⟨rfl, x, rfl, hx⟩ | ⟨i, hi, hp⟩⟩
    · exact .inl ⟨rfl, x, hv, hx⟩
    · exact .inr ⟨⟨v, i, hv, hi⟩, hp⟩
  · rintro (⟨rfl, x, hv, hx⟩ | ⟨⟨v, i, hv, hi⟩, hp⟩)
    · exact ⟨_, hv, .inl ⟨rfl, x, rfl, hx⟩⟩
    · exact ⟨v, hv, .inr ⟨i, hi, hp⟩⟩

/-- A key that has to be there is no more than that: what stands at it is kept as it is. -/
theorem breaksWith_key {key : Text} {next : Value → Except DataFault β} {P : Prop}
    (hnext : ∀ v, BreaksWith (next v) fault ↔ P) :
    BreaksWith ((Value.object members).index key >>= next) fault ↔
      (∃ v, Value.find? key members = some v) ∧ P := by
  simp [breaksWith_bind, Value.not_breaksWith_index, Value.index_object_eq_ok, hnext]

theorem breaksWith_context {next : Context Value → Except DataFault β} {P : Prop}
    (hnext : ∀ c, BreaksWith (next c) fault ↔ P) :
    BreaksWith ((Value.object members).index "context" >>= fun v => Context.ofValue v >>= next)
      fault ↔ HasContext members ∧ P := by
  simp only [breaksWith_bind, Value.not_breaksWith_index, Value.index_object_eq_ok,
    Context.not_breaksWith_ofValue, hnext, false_or, HasContext]
  constructor
  · rintro ⟨v, hv, c, hc, hp⟩
    obtain ⟨context, rfl, hkeys⟩ := Context.exists_ofValue_eq_ok.1 ⟨c, hc⟩
    exact ⟨⟨context, hv, hkeys⟩, hp⟩
  · rintro ⟨⟨context, hv, hkeys⟩, hp⟩
    obtain ⟨c, hc⟩ := Context.exists_ofValue_eq_ok.2 ⟨context, rfl, hkeys⟩
    exact ⟨_, hv, c, hc, hp⟩

/-- The reading breaks at the lines of some keys, or it gets past them and breaks behind. -/
def LinesBreak (members : List (Text × Value)) (fault : DataFault) (behind : Prop) :
    List Text → Prop
  | [] => behind
  | key :: rest =>
    fault = .infiniteInteger ∧ IsEndless members key ∨
      HasLine members key ∧ LinesBreak members fault behind rest

/-- The reading breaks at an infinite line if all lines before are there, and behind the lines if
all of them are. -/
theorem linesBreak_iff {keys : List Text} {behind : Prop} :
    LinesBreak members fault behind keys ↔
      (fault = .infiniteInteger ∧ ∃ before key after, keys = before ++ key :: after ∧
        (∀ k ∈ before, HasLine members k) ∧ IsEndless members key) ∨
      (∀ k ∈ keys, HasLine members k) ∧ behind := by
  induction keys with
  | nil => simp [LinesBreak]
  | cons key rest ih =>
    rw [LinesBreak, ih]
    constructor
    · rintro (⟨rfl, hkey⟩ | ⟨hkey, ⟨rfl, before, k, after, rfl, hbefore, hk⟩ | ⟨hrest, hbehind⟩⟩)
      · exact .inl ⟨rfl, [], key, rest, rfl, by simp, hkey⟩
      · exact .inl ⟨rfl, key :: before, k, after, rfl, List.forall_mem_cons.2 ⟨hkey, hbefore⟩, hk⟩
      · exact .inr ⟨List.forall_mem_cons.2 ⟨hkey, hrest⟩, hbehind⟩
    · rintro (⟨rfl, before, k, after, hkeys, hbefore, hk⟩ | ⟨hlines, hbehind⟩)
      · cases before with
        | nil =>
          cases hkeys
          exact .inl ⟨rfl, hk⟩
        | cons first before =>
          cases hkeys
          obtain ⟨hkey, hbefore⟩ := List.forall_mem_cons.1 hbefore
          exact .inr ⟨hkey, .inl ⟨rfl, before, k, after, rfl, hbefore, hk⟩⟩
      · obtain ⟨hkey, hrest⟩ := List.forall_mem_cons.1 hlines
        exact .inr ⟨hkey, .inr ⟨hrest, hbehind⟩⟩

/-- The members of an object are read in their order. -/
theorem breaksWith_ofValue_object :
    BreaksWith (ofValue (.object members)) fault ↔
      Value.HasKeys nameKeys members ∧
        LinesBreak members fault (HasContext members ∧
          BreaksWith (readEmbedding (.ofOption (Value.find? "embedding" members))) fault)
          lineKeys := by
  have hnames : Value.HasKeys nameKeys members ↔
      (∃ v, Value.find? "name" members = some v) ∧
      (∃ v, Value.find? "signature" members = some v) ∧
      ∃ v, Value.find? "kind" members = some v := by
    simp [Value.HasKeys, nameKeys]
  rw [hnames, and_assoc, and_assoc]
  refine breaksWith_key fun name => breaksWith_key fun signature => breaksWith_key fun kind => ?_
  refine breaksWith_line fun line => breaksWith_line fun lineFrom => ?_
  refine breaksWith_line fun lineTo => ?_
  refine breaksWith_context fun context => ?_
  rw [breaksWith_bind]
  simp [pure, Except.pure]

/-- The values at which the reading of a record breaks, and how. -/
inductive Breaks : Value → DataFault → Prop
  | notObject {v : Value} (h : ∀ members, v ≠ .object members) :
    Breaks v (.lacks v.typeName "get")
  | line {members : List (Text × Value)} {before after : List Text} {key : Text}
    (hnames : Value.HasKeys nameKeys members) (hkeys : lineKeys = before ++ key :: after)
    (hbefore : ∀ k ∈ before, HasLine members k) (hkey : IsEndless members key) :
    Breaks (.object members) .infiniteInteger
  | component {members : List (Text × Value)} {before after : List Value} {i : Int}
    (hnames : Value.HasKeys nameKeys members) (hlines : ∀ k ∈ lineKeys, HasLine members k)
    (hcontext : HasContext members)
    (hembedding : Value.find? "embedding" members = some (.list (before ++ .int i :: after)))
    (hbefore : ∀ y ∈ before, ∃ x, y.toDouble = .ok x) (hi : Double.ofInt? i = none) :
    Breaks (.object members) .hugeInteger

theorem breaks_of_breaksWith_object (h : BreaksWith (ofValue (.object members)) fault) :
    Breaks (.object members) fault := by
  obtain ⟨hnames, h⟩ := breaksWith_ofValue_object.1 h
  rcases linesBreak_iff.1 h with ⟨rfl, before, key, after, hkeys, hbefore, hkey⟩ |
    ⟨hlines, hcontext, h⟩
  · exact .line hnames hkeys hbefore hkey
  · obtain ⟨rfl, before, i, after, hlist, hbefore, hi⟩ := breaksWith_readEmbedding.1 h
    exact .component hnames hlines hcontext (Value.eq_some_of_ofOption_eq_list hlist) hbefore hi

theorem breaksWith_of_breaks (h : Breaks v fault) : BreaksWith (ofValue v) fault := by
  cases h with
  | notObject h =>
    have hmember : v.member "embedding" = .error (.lacks v.typeName "get") := by
      cases v with
      | object members => exact absurd rfl (h members)
      | _ => rfl
    simp [ofValue, hmember, breaksWith_bind, DataFault.isMalformed]
  | line hnames hkeys hbefore hkey =>
    refine breaksWith_ofValue_object.2 ⟨hnames, linesBreak_iff.2 ?_⟩
    exact .inl ⟨rfl, _, _, _, hkeys, hbefore, hkey⟩
  | component hnames hlines hcontext hembedding hbefore hi =>
    refine breaksWith_ofValue_object.2 ⟨hnames, linesBreak_iff.2 (.inr ⟨hlines, hcontext, ?_⟩)⟩
    rw [hembedding]
    exact breaksWith_readEmbedding.2 ⟨rfl, _, _, _, rfl, hbefore, hi⟩

/-- The reading of a record breaks exactly at what is no object, at a line that is infinite and at
a component beyond the numbers. -/
theorem breaksWith_ofValue : BreaksWith (ofValue v) fault ↔ Breaks v fault := by
  refine ⟨fun h => ?_, breaksWith_of_breaks⟩
  cases v with
  | object members => exact breaks_of_breaksWith_object h
  | _ =>
    obtain ⟨h, _⟩ := h
    cases h
    exact .notObject (by simp)

end Record

end CodeCatalog
