import Lockstep.Binary64

/-!
# Structured values

The values that annotations hold and that reports are written from. An object is its list of members
in the order in which they are written; whoever builds one decides that order.
-/

namespace Lockstep

/-- A structured value. -/
inductive Json where
  | null
  | bool (b : Bool)
  | int (i : Int)
  | float (x : Binary64)
  | str (s : String)
  | arr (items : List Json)
  | obj (members : List (String × Json))

namespace Json

instance : Inhabited Json := ⟨null⟩

/-- A natural as a value. -/
def nat (n : Nat) : Json := int n

/-- A list of texts as a value. -/
def texts (names : List String) : Json := arr (names.map str)

/-- A value that may be missing, written as null when it is. -/
def opt {α : Type} (f : α → Json) : Option α → Json
  | none => null
  | some a => f a

/-- A text that may be missing. -/
def optText (s : Option String) : Json := opt str s

end Json

end Lockstep
