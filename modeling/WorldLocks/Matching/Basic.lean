import WorldLocks.Text.Lowercase
import WorldLocks.World.Error

/-!
# Name matching

A player names an object by its literal, by `me` or `here`, by `*` and the name of a player, or by
the start of a name of something nearby.  Among the objects nearby, those with exactly the name come
before those whose name only starts with it; two objects of the better sort make the name
ambiguous.  A name that nothing nearby bears may still be a player's.

What the matcher needs to know of the world is gathered in an environment, so that it can also run
in a world of a few fixed objects.
-/

set_option autoImplicit false

namespace WorldLocks

inductive MatchResult where
  | found (object : Dbref)
  | notFound
  | ambiguous (candidates : List Dbref)
  deriving DecidableEq, Repr

/-- The object that a name means, if it means exactly one. -/
def MatchResult.object? : MatchResult → Option Dbref
  | found object => some object
  | notFound | ambiguous _ => none

/-- What name matching needs to know of the world. -/
structure MatchEnvironment where
  isValid : Dbref → Bool
  names : Dbref → Except WorldError (List Text)
  /-- What is around an actor: the exits and contents of its location, then its own contents. -/
  surroundings : Dbref → Except WorldError (List Dbref)
  locationOf : Dbref → Except WorldError Dbref
  findPlayer : Text → Option Dbref

abbrev Matcher := Dbref → Text → Except WorldError MatchResult

/-- The objects found to match so far, each once. -/
structure Candidates where
  exact : List Dbref
  partly : List Dbref

namespace Candidates

/-- A list with an object at the end unless it holds the object already. -/
def enlist (objects : List Dbref) (object : Dbref) : List Dbref :=
  if objects.contains object then objects else objects ++ [object]

/-- Weighs one of an object's names against the wanted one, which is in lowercase. -/
def weigh (wanted : Text) (object : Dbref) (candidates : Candidates) (name : Text) : Candidates :=
  let name := Text.lowercase (Text.trim name)
  if !wanted.isPrefixOf name then candidates
  else if name = wanted then { candidates with exact := enlist candidates.exact object }
  else { candidates with partly := enlist candidates.partly object }

def result (candidates : Candidates) : MatchResult :=
  let best := if candidates.exact.isEmpty then candidates.partly else candidates.exact
  match best with
  | [] => .notFound
  | [object] => .found object
  | objects => .ambiguous objects

end Candidates

namespace MatchEnvironment

def matchNearby (env : MatchEnvironment) (actor : Dbref) (name : Text) :
    Except WorldError MatchResult := do
  let wanted := Text.lowercase name
  let nearby ← env.surroundings actor
  let candidates ← (nearby.filter env.isValid).foldlM
    (fun candidates object => do
      let names ← env.names object
      pure (names.foldl (Candidates.weigh wanted object) candidates))
    (⟨[], []⟩ : Candidates)
  pure candidates.result

def matchPlayer (env : MatchEnvironment) (name : Text) : MatchResult :=
  match env.findPlayer name with
  | some player => .found player
  | none => .notFound

def matchExisting (env : MatchEnvironment) (object : Dbref) : MatchResult :=
  if env.isValid object then .found object else .notFound

def matchWord (env : MatchEnvironment) (actor : Dbref) (name : Text) :
    Except WorldError MatchResult :=
  match name with
  | '*' :: player => .ok (env.matchPlayer (Text.trim player))
  | _ =>
    if !env.isValid actor then .ok .notFound
    else if Text.sameIgnoringCase name "me".toList then .ok (.found actor)
    else if Text.sameIgnoringCase name "here".toList then
      (env.locationOf actor).map env.matchExisting
    else do
      match ← env.matchNearby actor name with
      | .notFound => pure (env.matchPlayer name)
      | result => pure result

/-- Finds what a name means when an actor says it.  A literal means its object if that exists. -/
def matchObject (env : MatchEnvironment) : Matcher := fun actor name =>
  let name := Text.trim name
  if name.isEmpty then .ok .notFound
  else match Dbref.read? name with
    | some object => .ok (env.matchExisting object)
    | none => env.matchWord actor name

end MatchEnvironment
end WorldLocks
