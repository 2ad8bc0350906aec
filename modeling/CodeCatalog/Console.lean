import CodeCatalog.Fault
import CodeCatalog.Value.Printer
set_option autoImplicit false

/-!
# Consoles

The stream that commands print to.  It takes texts piece by piece and may refuse one: a stream of
UTF-8 has no bytes for a lone surrogate.  What it fails with is not the catalog's own fault.
-/

namespace CodeCatalog

/-- A stream that takes texts. -/
structure Console where
  /-- What the stream fails with where a piece is written to it, if it does. -/
  refusal? : Text → Option Fault
  passed : ∀ t f, refusal? t = some f → f.isReported = false

namespace Console

/-- A stream in memory, which takes every text. -/
def memory : Console := ⟨fun _ => none, by simp⟩

/-- A text is not encoded if it holds a lone surrogate. -/
def utf8Refusal? (t : Text) : Option Fault :=
  match Utf8.encode? t with
  | .ok _ => none
  | .error u => some (.data (.unencodable u))

theorem isReported_of_utf8Refusal? {t : Text} {f : Fault} (h : utf8Refusal? t = some f) :
    f.isReported = false := by
  unfold utf8Refusal? at h
  split at h
  · cases h
  · cases h
    rfl

/-- A stream of UTF-8. -/
def utf8 : Console := ⟨utf8Refusal?, fun _ _ => isReported_of_utf8Refusal?⟩

/-- Why a document is not printed to its end, if it is not: the stream refuses one of its pieces,
or there is a value that has no JSON form. -/
def fault? (c : Console) (p : Value.Printed) : Option Fault :=
  (p.pieces.findSome? c.refusal?).or (p.fault.map .data)

end Console

end CodeCatalog
