import WorldLocks.Dbref
import WorldLocks.Text.Quoted

/-!
# Refused operations

The reasons for which the world refuses an operation or a lookup, and what is said about each.
-/

set_option autoImplicit false

namespace WorldLocks

/-- Why an operation on the world was refused. -/
inductive WorldError where
  /-- No such object, or a destroyed one where a living one is needed. -/
  | objectNotFound (object : Dbref)
  | recursiveMove (object destination : Dbref)
  | recursiveParent (child parent : Dbref)
  | objectPermissionDenied
  /-- The name is empty or holds a reserved character. -/
  | illegalAttributeName (name : Text)
  | definitionNotFound (object : Dbref) (name : Text)
  /-- The definition with the serial number is no longer registered. -/
  | definitionFreed (serial : Nat)
  /-- The name is taken by a built-in attribute or by one that the object can already read. -/
  | attributeShadows (object : Dbref) (name : Text)
  /-- The object declares as many attributes as one object may. -/
  | tooManyDefinitions (object : Dbref)
  /-- The attribute is computed and cannot be stored. -/
  | builtinAttribute (name : Text)
  | failedMatch (name : Text)
  deriving DecidableEq, Repr

def WorldError.message : WorldError → Text
  | objectNotFound object => "Object not found: ".toList ++ object.literal
  | recursiveMove object destination =>
    "Recursive move detected: ".toList ++ object.literal ++ " -> ".toList ++ destination.literal
  | recursiveParent child parent =>
    "Recursive parent detected: ".toList ++ child.literal ++ " -> ".toList ++ parent.literal
  | objectPermissionDenied => "Object permission denied".toList
  | illegalAttributeName name => "Illegal attribute name: ".toList ++ Text.quoted name
  | definitionNotFound object name =>
    "Attribute definition not found: ".toList ++ object.literal ++ '.' :: name
  | definitionFreed serial =>
    "Attribute definition not found: ".toList ++ Dbref.nothing.literal ++ '.' :: Text.ofNat serial
  | attributeShadows object name =>
    "Attribute ".toList ++ name ++ " would shadow an existing definition on ".toList ++
      object.literal
  | tooManyDefinitions object => "Too many attribute definitions on ".toList ++ object.literal
  | builtinAttribute name => "Built in attribute ".toList ++ name ++ " cannot be changed".toList
  | failedMatch name => "Failed object match: ".toList ++ name

end WorldLocks
