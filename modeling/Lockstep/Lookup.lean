/-!
# Look-ups

Positions are numbers, and what is said about a position is looked up: the name of its state, its slot in the
table, the transition that the slot points to, the place of that transition's target. A look-up can come back
empty. What happens then is no matter of the definition that looks up but of how it is evaluated, so each such
definition is written once, for every monad that says what to do (`Lookup.found`), and there are two readings
of it: in `Id` an evaluation goes on with a stand-in, which is how the library runs, and in `Option` it comes to
nothing.

Any two readings agree wherever all look-ups succeed, since nothing else is asked of a monad than that it takes
a result for what it is (`LawfulLookup`). That carries over from the steps of a traversal to the traversal.
-/

namespace Lockstep

/-- A monad that knows what to do about a look-up that comes back empty. -/
class Lookup (m : Type → Type) where
  /-- The result of a look-up. If there is none, the evaluation may go on with the stand-in. -/
  found {α : Type} (result : Option α) (standIn : α) : m α

export Lookup (found)

/-- A look-up that succeeds gives its result, and nothing happens. -/
class LawfulLookup (m : Type → Type) [Monad m] [Lookup m] : Prop extends LawfulMonad m where
  found_some {α : Type} (a standIn : α) : (found (some a) standIn : m α) = pure a

export LawfulLookup (found_some)

/-- Go on with the stand-in. -/
instance : Lookup Id where
  found result standIn := result.getD standIn

/-- Come to nothing. -/
instance : Lookup Option where
  found result _ := result

instance : LawfulLookup Id where
  found_some _ _ := rfl

instance : LawfulLookup Option where
  found_some _ _ := rfl

namespace Lookup

variable {m : Type → Type} [Lookup m]

/-- A condition to rely on. Where it does not hold, that is a look-up that comes back empty. -/
def require (condition : Prop) [Decidable condition] : m Unit :=
  found (if condition then some () else none) ()

theorem require_of [Monad m] [LawfulLookup m] {condition : Prop} [Decidable condition]
    (h : condition) : (require condition : m Unit) = pure () := by
  rw [require, if_pos h, found_some]

end Lookup

/-! ## Traversals -/

section Traversal

variable {m : Type → Type} [Monad m] [LawfulMonad m] {α β σ : Type} {l : List α}

theorem mapM_eq_pure {f : α → m β} {g : α → β} (h : ∀ x ∈ l, f x = pure (g x)) :
    l.mapM f = pure (l.map g) := by
  induction l with
  | nil => rfl
  | cons x l ih =>
    rw [List.mapM_cons, h x (by simp), ih fun y hy => h y (List.mem_cons_of_mem _ hy), pure_bind,
      pure_bind]
    rfl

theorem mapM_zip_eq_pure {γ : Type} {k : List β} {f : α → β → m γ} {g : α → β → γ}
    (h : ∀ x y, (x, y) ∈ l.zip k → f x y = pure (g x y)) :
    ((l.zip k).mapM fun (x, y) => f x y) = pure (l.zipWith g k) := by
  have hmap : ((l.zip k).map fun (x, y) => g x y) = l.zipWith g k := by
    rw [List.zip, List.map_zipWith]
  rw [← hmap]
  exact mapM_eq_pure fun (x, y) hxy => h x y hxy

theorem foldlM_eq_pure {f : σ → α → m σ} {g : σ → α → σ}
    (h : ∀ s, ∀ x ∈ l, f s x = pure (g s x)) : ∀ s, l.foldlM f s = pure (l.foldl g s) := by
  induction l with
  | nil => intro s; rfl
  | cons x l ih =>
    intro s
    rw [List.foldlM_cons, h s x (by simp), pure_bind]
    exact ih (fun s y hy => h s y (List.mem_cons_of_mem _ hy)) (g s x)

theorem anyM_eq_pure {f : α → m Bool} {g : α → Bool} (h : ∀ x ∈ l, f x = pure (g x)) :
    l.anyM f = pure (l.any g) := by
  induction l with
  | nil => rfl
  | cons x l ih =>
    rw [List.anyM, h x (by simp), pure_bind, List.any_cons]
    cases g x with
    | true => rfl
    | false => exact ih fun y hy => h y (List.mem_cons_of_mem _ hy)

theorem findSomeM?_eq_pure {f : α → m (Option β)} {g : α → Option β}
    (h : ∀ x ∈ l, f x = pure (g x)) : l.findSomeM? f = pure (l.findSome? g) := by
  induction l with
  | nil => rfl
  | cons x l ih =>
    rw [List.findSomeM?, h x (by simp), pure_bind, List.findSome?_cons]
    cases g x with
    | some b => rfl
    | none => exact ih fun y hy => h y (List.mem_cons_of_mem _ hy)

end Traversal

end Lockstep
