import CodeCatalog.Text.Quoted
import CodeCatalog.Text.Numeral
import CodeCatalog.Text.Utf8
import CodeCatalog.Double.Shortest
set_option autoImplicit false

/-!
# Values

What documents, settings and loosely checked records hold: the values of a JSON
document, with integers of any size apart from floating-point numbers, and one more
kind, `foreign`, for a value that no document can express.  An object keeps its
members in the order in which their keys first came in.

Reading a value as something else can fail in ways that the reports tell apart;
`DataFault` lists them.
-/

namespace CodeCatalog

/-- A dynamically typed value. -/
inductive Value where
  | null
  | bool (b : Bool)
  | int (i : Int)
  | float (x : Double)
  | text (t : Text)
  | list (items : List Value)
  | object (members : List (Text × Value))
  | foreign
  deriving Inhabited

/-- Why a value could not be read as what was asked for. -/
inductive DataFault where
  /-- An object lacks a key. -/
  | missingKey (key : Text)
  /-- A value of this type lacks an operation that was asked of it. -/
  | lacks (type operation : String)
  /-- A value of this type cannot be indexed by a key. -/
  | notIndexable (type : String)
  /-- A value of this type stands where a path belongs. -/
  | notPath (type : String)
  /-- A value of this type has no length. -/
  | noLength (type : String)
  /-- A value of this type stands at a position among texts that are put together. -/
  | notJoinable (position : Nat) (type : String)
  /-- A value of one type was held against one of another type. -/
  | notComparable (relation left right : String)
  /-- A value of this type cannot be halved. -/
  | notDivisible (type : String)
  /-- A value of this type is no key. -/
  | noKey (type : String)
  /-- A text was indexed by a key. -/
  | textIndexed
  /-- A list was indexed by a key. -/
  | listIndexed
  /-- A value of this type has no elements. -/
  | notIterable (type : String)
  /-- A text that is no integer, as much of it as is shown. -/
  | badInteger (shown : Text)
  /-- A text with more digits than an integer may have, or an integer with more digits than a
  text may have; then they are not counted. -/
  | longInteger (digits : Option Nat)
  /-- A value of this type is no integer. -/
  | notInteger (type : String)
  /-- An infinite number was read as an integer. -/
  | infiniteInteger
  /-- What is not a number was read as an integer. -/
  | nanInteger
  /-- A text, shown quoted, that is no number. -/
  | badNumber (shown : Text)
  /-- A value of this type is no number. -/
  | notNumber (type : String)
  /-- An integer beyond the floating-point numbers. -/
  | hugeInteger
  /-- A value of this type has no JSON form. -/
  | unserializable (type : String)
  /-- A text of a document that no file can hold. -/
  | unencodable (u : Utf8.Unencodable)
  deriving DecidableEq, Repr

/-- The report on a fault. -/
def DataFault.message : DataFault → Text
  | .missingKey key => key.quoted
  | .lacks type operation =>
    Text.ofString ("'" ++ type ++ "' object has no attribute '" ++ operation ++ "'")
  | .notIndexable type => Text.ofString ("'" ++ type ++ "' object is not subscriptable")
  | .notPath type =>
    Text.ofString ("expected str, bytes or os.PathLike object, not " ++ type)
  | .noLength type => Text.ofString ("object of type '" ++ type ++ "' has no len()")
  | .notJoinable position type =>
    Text.ofString ("sequence item " ++ toString position ++ ": expected str instance, " ++ type
      ++ " found")
  | .notComparable relation left right =>
    Text.ofString ("'" ++ relation ++ "' not supported between instances of '" ++ left ++ "' and '"
      ++ right ++ "'")
  | .notDivisible type =>
    Text.ofString ("unsupported operand type(s) for //: '" ++ type ++ "' and 'int'")
  | .noKey type => Text.ofString ("unhashable type: '" ++ type ++ "'")
  | .textIndexed => "string indices must be integers, not 'str'"
  | .listIndexed => "list indices must be integers or slices, not str"
  | .notIterable type => Text.ofString ("'" ++ type ++ "' object is not iterable")
  | .badInteger shown => "invalid literal for int() with base 10: " ++ shown
  | .longInteger digits =>
    let size := digits.elim "" fun n => ": value has " ++ toString n ++ " digits"
    Text.ofString ("Exceeds the limit (4300 digits) for integer string conversion" ++ size
      ++ "; use sys.set_int_max_str_digits() to increase the limit")
  | .notInteger type =>
    Text.ofString ("int() argument must be a string, a bytes-like object or a real number, not '"
      ++ type ++ "'")
  | .infiniteInteger => "cannot convert float infinity to integer"
  | .nanInteger => "cannot convert float NaN to integer"
  | .badNumber shown => "could not convert string to float: " ++ shown
  | .notNumber type =>
    Text.ofString ("float() argument must be a string or a real number, not '" ++ type ++ "'")
  | .hugeInteger => "int too large to convert to float"
  | .unserializable type =>
    Text.ofString ("Object of type " ++ type ++ " is not JSON serializable")
  | .unencodable u => u.message

/-- The faults that tell of a missing key or of a value of the wrong type or form.  A value that
lacks an operation and a number out of range are not among them. -/
def DataFault.isMalformed : DataFault → Bool
  | .lacks _ _ => false
  | .infiniteInteger => false
  | .hugeInteger => false
  | _ => true

namespace Value

/-- The name of a value's type in reports. -/
def typeName : Value → String
  | .null => "NoneType"
  | .bool _ => "bool"
  | .int _ => "int"
  | .float _ => "float"
  | .text _ => "str"
  | .list _ => "list"
  | .object _ => "dict"
  | .foreign => "object"

/-- The empty values, zeros and `null` count as absent where a setting is optional. -/
def isPresent : Value → Bool
  | .null => false
  | .bool b => b
  | .int i => i != 0
  | .float x => !x.isZero
  | .text t => !t.isEmpty
  | .list items => !items.isEmpty
  | .object members => !members.isEmpty
  | .foreign => true

/-- The first of two values if it is present, and otherwise the second. -/
def orElse (v w : Value) : Value := if v.isPresent then v else w

/-- `null` is no value where one is optional. -/
def toOption : Value → Option Value
  | .null => none
  | v => some v

/-- The value of an optional one. -/
def ofOption : Option Value → Value
  | none => .null
  | some v => v

/-- A text, or `null` for none. -/
def ofText? : Option Text → Value
  | none => .null
  | some t => .text t

/-- An integer, or `null` for none. -/
def ofInt? : Option Int → Value
  | none => .null
  | some i => .int i

/-! ## Members -/

/-- The member of a list of members with a given key. -/
def find? (key : Text) (members : List (Text × Value)) : Option Value :=
  (members.find? fun m => m.1 == key).map Prod.snd

/-- Puts a member into a list of members: a known key keeps its place. -/
def put (key : Text) (v : Value) : List (Text × Value) → List (Text × Value)
  | [] => [(key, v)]
  | m :: rest => if m.1 = key then (key, v) :: rest else m :: put key v rest

/-- An object of members given in order; of two with one key the later value counts. -/
def ofMembers (members : List (Text × Value)) : Value :=
  .object (members.foldl (fun known m => put m.1 m.2 known) [])

/-- The member of an object, or nothing if there is none; other values have no members. -/
def member? (v : Value) (key : Text) : Except DataFault (Option Value) :=
  match v with
  | .object members => .ok (find? key members)
  | v => .error (.lacks v.typeName "get")

/-- The member of an object, or `null` if there is none. -/
def member (v : Value) (key : Text) : Except DataFault Value := do
  return ofOption (← v.member? key)

/-- The member of an object that has to be there. -/
def index (v : Value) (key : Text) : Except DataFault Value :=
  match v with
  | .object members =>
    match find? key members with
    | some w => .ok w
    | none => .error (.missingKey key)
  | .text _ => .error .textIndexed
  | .list _ => .error .listIndexed
  | v => .error (.notIndexable v.typeName)

/-- The elements of a value: the items of a list, the code points of a text, the keys of
an object. -/
def elements (v : Value) : Except DataFault (List Value) :=
  match v with
  | .list items => .ok items
  | .text t => .ok (t.map fun g => .text [g])
  | .object members => .ok (members.map fun m => .text m.1)
  | v => .error (.notIterable v.typeName)

/-! ## Numbers -/

/-- The number of code points of a text that are shown when it is no integer, its quotes
included. -/
def shownLength : Nat := 200

/-- The value as an integer: a number loses its fractional part, a text is read. -/
def toInteger (v : Value) : Except DataFault Int :=
  match v with
  | .int i => .ok i
  | .bool b => .ok (if b then 1 else 0)
  | .float x =>
    if x.isNaN then .error .nanInteger
    else if x.isInfinite then .error .infiniteInteger
    else .ok x.truncate
  | .text t =>
    match t.readInteger with
    | .value i => .ok i
    | .malformed => .error (.badInteger (t.quoted.take shownLength))
    | .tooLong digits => .error (.longInteger (some digits))
  | v => .error (.notInteger v.typeName)

/-- The value as a floating-point number. -/
def toDouble (v : Value) : Except DataFault Double :=
  match v with
  | .float x => .ok x
  | .int i =>
    match Double.ofInt? i with
    | some x => .ok x
    | none => .error .hugeInteger
  | .bool b => .ok (if b then Double.one else Double.zero)
  | .text t =>
    match t.readDouble? with
    | some x => .ok x
    | none => .error (.badNumber t.quoted)
  | v => .error (.notNumber v.typeName)

/-! ## Messages -/

mutual

/-- A value as it is shown inside a message. -/
def quoted : Value → Text
  | .null => "None"
  | .bool b => if b then "True" else "False"
  | .int i => Text.ofInt i
  | .float x => Double.messageLayout.text x
  | .text t => t.quoted
  | .list items => "[" ++ Text.joinWith ", " (quotedItems items) ++ "]"
  | .object members => "\x7b" ++ Text.joinWith ", " (quotedMembers members) ++ "\x7d"
  | .foreign => "<object object>"

/-- The items of a list, each as it is shown inside a message. -/
def quotedItems : List Value → List Text
  | [] => []
  | v :: rest => quoted v :: quotedItems rest

/-- The members of an object, each as it is shown inside a message. -/
def quotedMembers : List (Text × Value) → List Text
  | [] => []
  | (k, v) :: rest => (k.quoted ++ ": " ++ quoted v) :: quotedMembers rest

end

/-- A value as it stands in running text: a text without its quotes. -/
def shown : Value → Text
  | .text t => t
  | v => v.quoted

end Value

end CodeCatalog
