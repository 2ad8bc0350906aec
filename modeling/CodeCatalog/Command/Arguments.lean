import CodeCatalog.Text.Digit
set_option autoImplicit false

/-!
# Arguments

Deals the arguments of a command out to its options and operands.  An option is named in
full, by the start of a long name that no other long name shares, or by a dash and a letter;
its value follows as an argument of its own, after an equals sign, or right after the letter.
The letters of options without values can be written together behind one dash.  Options and
operands come in any order, and after a divider every argument is an operand.  The text of the
divider is no value: an option or an operand that is given it has no value at all.
-/

namespace CodeCatalog

/-- How many values an option takes. -/
inductive Arity where
  | none
  | one
  | some
  | any
  deriving DecidableEq, Repr

/-- An option: its names with their dashes, its arity, and the key under which its values are
kept. -/
structure OptionRule (κ : Type) where
  names : List Text
  arity : Arity
  key : κ

/-- A text that is attached to an option in one argument: to a name behind two dashes, or to
the letter behind one. -/
inductive Attached where
  | nothing
  | toName (value : Text)
  | toLetter (value : Text)

/-- What an argument is before values are dealt out. -/
inductive Role (κ : Type) where
  | plain
  | divider
  | option (rule : OptionRule κ) (attached : Attached)
  | unknown

/-- An argument in its role. -/
structure Argument (κ : Type) where
  text : Text
  role : Role κ

/-- What dealing comes to, one piece after the other: values for a key, an argument that is
left over, or a fault after which nothing is dealt. -/
inductive Dealt (κ : Type) where
  | values (key : κ) (values : List Text)
  | leftOver
  | fault

namespace Argument

variable {κ : Type}

/-- The dash that options start with. -/
def dash : Glyph := .scalar '-'

/-- The argument after which no options come. -/
def dividerText : Text := "--"

/-- The equals sign between an option and its value. -/
def equals : Glyph := .scalar '='

/-! ## Roles -/

/-- The option of a full name. -/
def named? (rules : List (OptionRule κ)) (name : Text) : Option (OptionRule κ) :=
  rules.find? fun r => r.names.contains name

/-- The options for which a text is the start of a name, once for each such name. -/
def starting (rules : List (OptionRule κ)) (start : Text) : List (OptionRule κ) :=
  rules.flatMap fun r => (r.names.filter fun n => start.isPrefixOf n).map fun _ => r

/-- The text starts with two dashes. -/
def isLong (t : Text) : Bool := t.startsWith "--"

/-- A text before and after its first equals sign, if it has one. -/
def cutAtEquals (t : Text) : Text × Attached :=
  if t.contains equals then
    let value := (t.dropWhile (· != equals)).drop 1
    (t.takeWhile (· != equals), if isLong t then .toName value else .toLetter value)
  else (t, .nothing)

/-- A text without one line feed at its end. -/
def dropFinalNewline (t : Text) : Text :=
  if t.getLast? = some Glyph.newline then t.dropLast else t

/-- The text of a negative number, which is no option. -/
def isNegativeNumber (t : Text) : Bool :=
  match dropFinalNewline t with
  | [] => false
  | d :: rest =>
    let fraction := (rest.dropWhile Glyph.isDigit)
    d == dash &&
      match fraction with
      | [] => !rest.isEmpty
      | point :: digits => point == .scalar '.' && !digits.isEmpty && digits.all Glyph.isDigit

/-- A space makes an argument an operand. -/
def hasSpace (t : Text) : Bool := t.contains (.scalar ' ')

/-- The role of an argument that starts with a dash and is no option in full, given the
options that it may stand for; none if these are several. -/
def roleAmong (t : Text) : List (OptionRule κ × Attached) → Option (Role κ)
  | [] => some (if isNegativeNumber t || hasSpace t then .plain else .unknown)
  | [(rule, attached)] => some (.option rule attached)
  | _ => none

/-- The options that an argument may stand for by a start or a letter, with what is attached:
after two dashes the start of a name, after one dash a letter. -/
def candidates (rules : List (OptionRule κ)) (t : Text) : List (OptionRule κ × Attached) :=
  match t with
  | _ :: second :: rest =>
    if second = dash then
      let cut := cutAtEquals t
      (starting rules cut.1).map fun r => (r, cut.2)
    else
      match named? rules [dash, second] with
      | some r => [(r, .toLetter rest)]
      | none => []
  | _ => []

/-- The role of an argument before the divider; none if it stands for several options. -/
def role? (rules : List (OptionRule κ)) (t : Text) : Option (Role κ) :=
  if t.head? ≠ some dash then some .plain
  else
    match named? rules t with
    | some rule => some (.option rule .nothing)
    | none =>
      if t.length = 1 then some .plain
      else
        let cut := cutAtEquals t
        match cut.2, named? rules cut.1 with
        | .nothing, _ => roleAmong t (candidates rules t)
        | attached, some rule => some (.option rule attached)
        | _, none => roleAmong t (candidates rules t)

/-- The roles of arguments; none if one of them stands for several options. -/
def classify (rules : List (OptionRule κ)) : List Text → Option (List (Argument κ))
  | [] => some []
  | t :: rest =>
    if t = dividerText then some (⟨t, .divider⟩ :: rest.map fun u => ⟨u, .plain⟩)
    else do
      let role ← role? rules t
      return ⟨t, role⟩ :: (← classify rules rest)

/-! ## Values -/

/-- The argument is an operand or the divider. -/
def isOperand (a : Argument κ) : Bool :=
  match a.role with
  | .plain => true
  | .divider => true
  | _ => false

/-- The argument is an operand. -/
def isPlain (a : Argument κ) : Bool :=
  match a.role with
  | .plain => true
  | _ => false

/-- What one argument with options says: the pieces that it settles, and an option that takes
its values from the arguments that follow. -/
structure Named (κ : Type) where
  settled : List (Dealt κ)
  open? : Option (OptionRule κ)

/-- The values among texts: the divider, where it comes first, is none of them. -/
def valuesAmong (texts : List Text) : List Text := texts.erase dividerText

/-- What an option says to whose letter a text is attached: its value or, if it takes none, the
letter of the next option and what is attached to that.  None if there is no such option. -/
def lettered (rules : List (OptionRule κ)) (rule : OptionRule κ) : Text → Option (Named κ)
  | [] => none
  | letter :: rest =>
    if rule.arity ≠ .none then some ⟨[.values rule.key (valuesAmong [letter :: rest])], none⟩
    else
      match named? rules [dash, letter] with
      | none => none
      | some next =>
        let more : Option (Named κ) :=
          if rest.isEmpty then some ⟨[], some next⟩ else lettered rules next rest
        more.map fun n => { n with settled := .values rule.key [] :: n.settled }

/-- What an option with an attached text says; none if the text does not belong there. -/
def expand (rules : List (OptionRule κ)) (rule : OptionRule κ) : Attached → Option (Named κ)
  | .nothing => some ⟨[], some rule⟩
  | .toName value =>
    if rule.arity = .none then none else some ⟨[.values rule.key (valuesAmong [value])], none⟩
  | .toLetter [] =>
    if rule.arity = .none then none else some ⟨[.values rule.key [[]]], none⟩
  | .toLetter value => lettered rules rule value

/-- The number of arguments that an option takes of those that follow; none if they are too
few. -/
def taken (rule : OptionRule κ) (follow : List (Argument κ)) : Option Nat :=
  let n := (follow.takeWhile isPlain).length
  match rule.arity with
  | .none => some 0
  | .any => some n
  | .one => if 0 < n then some 1 else none
  | .some => if 0 < n then some n else none

/-- The arguments of one operand at the front: its own, with a divider on either side. -/
def operand? : List (Argument κ) → Option (List (Argument κ))
  | [] => none
  | a :: rest =>
    let dividers (rest : List (Argument κ)) : List (Argument κ) :=
      rest.takeWhile fun b => b.isOperand && !b.isPlain
    if a.isPlain then some (a :: dividers rest)
    else if a.isOperand then
      match rest with
      | b :: more => if b.isPlain then some (a :: b :: dividers more) else none
      | [] => none
    else none

/-- The operands that lead a list of arguments, with the number of arguments they take up. -/
def leading (operands : List κ) (args : List (Argument κ)) : List (Dealt κ) × Nat :=
  match operands with
  | [] => ([], 0)
  | key :: more =>
    match operand? args with
    | none => ([], 0)
    | some own =>
      let r := leading more (args.drop own.length)
      (.values key (valuesAmong (own.map Argument.text)) :: r.1, own.length + r.2)

/-- Deals arguments out.  Operands that nobody asks for are left over. -/
def deal (rules : List (OptionRule κ)) (operands : List κ) (args : List (Argument κ)) :
    List (Dealt κ) :=
  match args with
  | [] => []
  | a :: rest =>
    match a.role with
    | .unknown => .leftOver :: deal rules operands rest
    | .option rule attached =>
      match expand rules rule attached with
      | none => [.fault]
      | some ⟨settled, none⟩ => settled ++ deal rules operands rest
      | some ⟨settled, some last⟩ =>
        match taken last rest with
        | none => [.fault]
        | some n =>
          settled ++ .values last.key ((rest.take n).map Argument.text)
            :: deal rules operands (rest.drop n)
    | _ =>
      let r := leading operands (a :: rest)
      if r.2 = 0 then .leftOver :: deal rules operands rest
      else r.1 ++ deal rules (operands.drop r.1.length) (rest.drop (r.2 - 1))
termination_by args.length
decreasing_by all_goals simp only [List.length_cons, List.length_drop]; omega

end Argument

end CodeCatalog
