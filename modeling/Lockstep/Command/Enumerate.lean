import Lockstep.Command.Session

/-!
# Listing what is reachable

The joint states that a composition file can reach, in order of discovery.
-/

namespace Lockstep.Command

/-- The arguments of the command. -/
structure Enumerate where
  file : String
  /-- Stop after this many joint states. -/
  maxStates : Nat := Config.defaultMaxStates

namespace Enumerate

/-- The lines printed for an exploration. -/
def lines (e : Exploration) : List String :=
  let count := e.states.length
  (e.states.zipIdx.map fun (state, i) => padLeft 4 (toString (i + 1)) ++ ". " ++ state.render) ++
  [if e.truncated then s!"Stopped at {count} states; more joint states are reachable."
   else s!"{count} reachable joint states."]

/-- Run the command on the contents of its file. -/
def run (args : Enumerate) (contents : Except FileFault String) :
    Session (Finished Exploration) := do
  let file ← Session.load args.file contents
  let protocols ← Session.run file.build [s!"loading composition {args.file}"]
  let composition ← Session.run (.lift (compose protocols))
  let e := composition.explore args.maxStates
  Session.run ⟨composition.exploreEvents args.maxStates e, .ok ()⟩
  pure { lines := lines e, result := e }

end Enumerate

end Lockstep.Command
