import CodeCatalog.Entity
import CodeCatalog.Value
set_option autoImplicit false

/-!
# What stands for text

The places of an entity that hold text hold texts where it was extracted, and any values
where it was loaded.  Both can be looked at as values, and both can be made of a text.
-/

namespace CodeCatalog

/-- What may stand in the places of an entity that hold text. -/
class Fragment (τ : Type) where
  ofText : Text → τ
  toValue : τ → Value

instance : Fragment Text := ⟨id, .text⟩

instance : Fragment Value := ⟨.text, id⟩

namespace Fragment

variable {τ : Type} [Fragment τ]

/-- The text of a fragment as it stands in running text. -/
def shown (x : τ) : Text := (toValue x).shown

/-- The fragment is a given text. -/
def isText (t : Text) (x : τ) : Bool :=
  match toValue x with
  | .text u => u == t
  | _ => false

end Fragment

end CodeCatalog
