import Lockstep.Json.Basic

/-!
# Documents before they are given a type

What a text says once its syntax is known and before anyone asks what it should mean. Both text
formats read into this tree. It differs from `Json` in three ways: members keep their order and may
repeat, because whether a repeated member is a fault depends on who reads it; a member's name may have
no text; and `unreadable` stands for a token that is well formed but has no value, such as a number
beyond the range of doubles or a text with half a surrogate pair. Such a token is a fault only if
somebody looks at it.
-/

namespace Lockstep

/-- The tree of a document. -/
inductive Doc where
  | null
  | bool (b : Bool)
  | int (i : Int)
  | float (x : Binary64)
  | str (s : String)
  /-- A token without a value. -/
  | unreadable
  | arr (items : List Doc)
  /-- Members by name; a name without text is `none`. -/
  | obj (members : List (Option String × Doc))

namespace Doc

instance : Inhabited Doc := ⟨null⟩

end Doc

end Lockstep
