import WorldLocks.World.Basic

/-!
# Inheritance

Objects inherit attributes from their parents.  The parent graph of a loaded world may have cycles
and repeated edges, so every walk remembers where it has been.  Walks go depth-first and take the
parents of an object in their order.

There are two kinds of walk: one that lists what it reaches, with a stack of what is still to visit,
and a search that stops at the first answer.
-/

set_option autoImplicit false

namespace WorldLocks

/-! ## Walks -/

/-- Visits what is on the stack, top first, and what the links of the visited lead to.  Lists every
object not in `seen` once, in the order of the visits.  The first argument bounds the number of
times that something is taken from the stack. -/
def walk (links : Dbref → List Dbref) : Nat → (stack seen : List Dbref) → List Dbref
  | _, [], _ => []
  | 0, _ :: _, _ => []
  | bound + 1, object :: stack, seen =>
    if seen.contains object then walk links bound stack seen
    else object :: walk links bound (links object ++ stack) (object :: seen)

/-- Searches an object, then what its links lead to in their order, each before the next, and stops
at the first answer.  Also tells which objects have been seen.  The first argument bounds the depth
of the search. -/
def search {α : Type} (links : Dbref → List Dbref) (answer : Dbref → Option α) :
    Nat → Dbref → (seen : List Dbref) → Option α × List Dbref
  | 0, _, seen => (none, seen)
  | depth + 1, object, seen =>
    if seen.contains object then (none, seen)
    else match answer object with
      | some found => (some found, object :: seen)
      | none =>
        (links object).foldl
          (fun (found, seen) next =>
            if found.isSome then (found, seen) else search links answer depth next seen)
          (none, object :: seen)

namespace World

def parentsOf (world : World) (object : Dbref) : List Dbref :=
  (world.slot? object).elim [] (·.parents)

def childrenOf (world : World) (object : Dbref) : List Dbref :=
  (world.slot? object).elim [] (·.children)

/-- A bound on the steps of a walk along some links from some start: every slot is left at most
once. -/
def walkBound (world : World) (links : ObjectRecord → List Dbref) (start : List Dbref) : Nat :=
  start.length + (world.objects.flatMap links).length

/-- A bound on the depth of a search: a path that sees nothing twice leaves each slot at most once,
and its last step may lead out of the table. -/
def searchDepth (world : World) : Nat := world.objects.length + 1

/-- Everything an object inherits from, nearest first and each object once. -/
def ancestors (world : World) (object : Dbref) : List Dbref :=
  let start := world.parentsOf object
  walk world.parentsOf (world.walkBound (·.parents) start) start [object]

/-- An object and everything that inherits from it, each object once. -/
def familyOf (world : World) (object : Dbref) : List Dbref :=
  walk world.childrenOf (world.walkBound (·.children) [object]) [object] []

/-- Whether an object is another one or inherits from it.  No object inherits from everything. -/
def isA (world : World) (object ancestor : Dbref) : Bool :=
  object = .nothing ||
    (walk world.parentsOf (world.walkBound (·.parents) [object]) [object] []).contains ancestor

end World
end WorldLocks
