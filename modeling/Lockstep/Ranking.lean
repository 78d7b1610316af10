import Lockstep.Composition.Basic

/-!
# Priority

A priority list names protocols from the most to the least authoritative. A protocol's rank is its
place in the list, the last one if it is listed more than once; a protocol that is not listed ranks
below all that are. Where ranks are equal, the decision that comes first counts.
-/

namespace Lockstep

/-- A ranking of protocols. -/
structure Ranking where
  /-- The priority list, highest first. -/
  order : List String
  /-- The rank of every listed name. -/
  ranks : OrderedMap String Nat
  /-- Ranks are entered from the front of the list, so a name that is listed again is ranked again. -/
  ranks_eq : ranks = .ofList order.zipIdx

namespace Ranking

/-- The ranking by a list. -/
def ofOrder (order : List String) : Ranking := ⟨order, .ofList order.zipIdx, rfl⟩

/-- Rank the protocols of a composition by a priority list, which may name no others. -/
def ofPriority (c : Composition) (priority : List String) : Except Error Ranking :=
  let unknown := priority.filter (· ∉ c.names)
  if unknown.isEmpty then .ok (ofOrder priority)
  else .error (.unknownPriorityProtocol unknown c.names)

/-- Rank the protocols of a composition in the order in which they are composed. -/
def byDeclaration (c : Composition) : Ranking := ofOrder c.names

/-- Rank by a priority list if there is one, and by declaration otherwise. -/
def resolve (c : Composition) : Option (List String) → Except Error Ranking
  | some priority => ofPriority c priority
  | none => .ok (byDeclaration c)

/-- The rank of a protocol; lower is more authoritative. Who is not listed ranks below all who are. -/
def rank (r : Ranking) (protocol : String) : Nat :=
  (r.ranks.get? protocol).getD r.order.length

/-- The first of the decisions whose protocol has the lowest rank number. -/
def highest (r : Ranking) (decisions : List Decision) : Option Decision :=
  decisions.foldl (fun best d =>
    match best with
    | none => some d
    | some b => if r.rank d.protocol < r.rank b.protocol then some d else some b) none

/-- The first of the decisions whose protocol has the highest rank number. -/
def lowest (r : Ranking) (decisions : List Decision) : Option Decision :=
  decisions.foldl (fun worst d =>
    match worst with
    | none => some d
    | some w => if r.rank w.protocol < r.rank d.protocol then some d else some w) none

end Ranking

end Lockstep
