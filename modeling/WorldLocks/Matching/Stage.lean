import WorldLocks.Matching.Basic

/-!
# Stages

A stage is a matching environment of a few objects that are simply listed.  The small stage has two
rooms, a player and three things.
-/

set_option autoImplicit false

namespace WorldLocks

structure StageObject where
  ref : Dbref
  location : Dbref
  contents : List Dbref
  names : List Text
  isPlayer : Bool

abbrev Stage := List StageObject

namespace Stage

def object? (stage : Stage) (ref : Dbref) : Option StageObject := stage.find? (·.ref = ref)

/-- The stage with an object put in, in place of an older one with the same reference. -/
def put (stage : Stage) (object : StageObject) : Stage :=
  stage.filter (·.ref ≠ object.ref) ++ [object]

/-- What an actor sees: the other contents of its location, then its own contents. -/
def around (stage : Stage) (actor : Dbref) : List Dbref :=
  match stage.object? actor with
  | none => []
  | some self =>
    let beside := match stage.object? self.location with
      | some place => place.contents.filter (· ≠ actor)
      | none => []
    beside ++ self.contents

/-- The player with the lowest number that bears a name, whatever the case of its letters. -/
def player? (stage : Stage) (name : Text) : Option Dbref :=
  let bearers := stage.filter fun object =>
    object.isPlayer && object.names.any (Text.sameIgnoringCase · name)
  (bearers.map (·.ref)).foldl
    (fun lowest ref => match lowest with
      | some least => if ref.number < least.number then some ref else some least
      | none => some ref)
    none

def environment (stage : Stage) : MatchEnvironment where
  isValid ref := (stage.object? ref).isSome
  names ref := .ok ((stage.object? ref).elim [] (·.names))
  surroundings actor := .ok (stage.around actor)
  locationOf ref := match stage.object? ref with
    | some object => .ok object.location
    | none => .error (.objectNotFound ref)
  findPlayer := stage.player?

/-- The small stage: a player and two things in the first room, a third thing in the second. -/
def small : Stage :=
  [⟨⟨3⟩, ⟨1⟩, [], ["porcupine".toList], true⟩,
   ⟨⟨1⟩, .nothing, [⟨3⟩, ⟨4⟩, ⟨5⟩], ["room1".toList, "r1".toList], false⟩,
   ⟨⟨2⟩, .nothing, [⟨6⟩], ["room2".toList], false⟩,
   ⟨⟨4⟩, ⟨1⟩, [], ["thing1".toList, "t1".toList], false⟩,
   ⟨⟨5⟩, ⟨1⟩, [], ["thing2".toList, "t2".toList], false⟩,
   ⟨⟨6⟩, ⟨2⟩, [], ["thing3".toList, "t3".toList], false⟩]

end Stage
end WorldLocks
