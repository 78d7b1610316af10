import Lockstep.Verifier

/-!
# Composition files

What a composition is described by on disk: the protocols, and optionally a priority list and
settings for the verifier.
-/

namespace Lockstep

/-- Build several protocols in order, up to the first that is not well formed. -/
def buildAll : List Definition → Traced Error (List Protocol)
  | [] => pure []
  | d :: rest => do
    let p ← d.build
    let ps ← buildAll rest
    pure (p :: ps)

/-- The contents of a composition file. -/
structure CompositionFile where
  /-- Settings for the verifier. -/
  verifier : Config := {}
  /-- From highest to lowest priority. -/
  priority : Option (List String) := none
  /-- The protocols, in order of composition. -/
  protocols : List Definition

namespace CompositionFile

/-- Build every protocol. -/
def build (f : CompositionFile) : Traced Error (List Protocol) := buildAll f.protocols

/-- The priority list, and without one the protocols in order. -/
def effectivePriority (f : CompositionFile) : List String :=
  match f.priority with
  | some list => list
  | none => f.protocols.map Definition.name

end CompositionFile

end Lockstep
