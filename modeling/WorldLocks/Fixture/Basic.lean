import WorldLocks.Attribute.Definition
import WorldLocks.Object.Flag
import WorldLocks.World.Basic

/-!
# World fixtures

A fixture describes a world: its settings and its objects, which are numbered in the order in which
they are listed.
-/

set_option autoImplicit false

namespace WorldLocks

structure ObjectFixture where
  name : Text
  kind : ObjectKind
  /-- The owner, or none for an object that owns itself. -/
  owner : Option Dbref
  location : Dbref
  zone : Dbref
  link : Dbref
  flags : List ObjectFlag
  parents : List Dbref
  /-- The declared attributes with their option words, in the order of the names. -/
  defs : List (Text × Text)
  /-- The stored values, in the order of the attribute names. -/
  attrs : List (Text × Text)
  deriving DecidableEq

structure WorldFixture where
  config : WorldConfig
  objects : List ObjectFixture
  deriving DecidableEq

inductive FixtureError where
  | badReference (object reference : Dbref)
  /-- The name of a value means no attribute of its object. -/
  | unknownAttribute (object : Dbref) (name : Text)
  | unknownOptions (object : Dbref) (words : List Text)
  | world (error : WorldError)
  deriving DecidableEq

def FixtureError.message : FixtureError → Text
  | badReference object reference =>
    "object ".toList ++ object.literal ++ " refers to ".toList ++ reference.literal ++
      ", which is not in the world".toList
  | unknownAttribute object name =>
    "object ".toList ++ object.literal ++ ": no attribute named ".toList ++ Text.quoted name
  | unknownOptions object words =>
    "object ".toList ++ object.literal ++ ": unknown attribute options ".toList ++
      Text.quotedList words
  | world error => error.message

end WorldLocks
