import CodeCatalog.Value
set_option autoImplicit false

/-!
# Values as keys

What makes two values the same key: texts by their code points, numbers of any type by the
number they are.  Lists and objects are no keys.
-/

namespace CodeCatalog

/-- What a value is as a key. -/
inductive Key where
  | null
  | text (t : Text)
  | integer (i : Int)
  /-- A number that is no integer. -/
  | number (x : Double)
  | foreign
  deriving DecidableEq, Repr

namespace Value

/-- The key that a value is. -/
def key (v : Value) : Except DataFault Key :=
  match v with
  | .null => .ok .null
  | .bool b => .ok (.integer (if b then 1 else 0))
  | .int i => .ok (.integer i)
  | .float x => .ok (if x.isFinite && x.isIntegral then .integer x.truncate else .number x)
  | .text t => .ok (.text t)
  | .foreign => .ok .foreign
  | v => .error (.noKey v.typeName)

/-- The values that are texts. -/
def textsAmong (vs : List Value) : List Text :=
  vs.filterMap fun
    | .text t => some t
    | _ => none

end Value

end CodeCatalog
