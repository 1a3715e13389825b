import WorldLocks.Attribute.Builtin
import WorldLocks.Dbref

/-!
# Attribute definitions

A definition gives an attribute a name and flags.  It is either built in or declared on an object,
and its key tells which attribute it defines: two definitions with one key are versions of the same
attribute, whose flags may have been changed in between.
-/

set_option autoImplicit false

namespace WorldLocks

inductive AttrKey where
  | builtin (which : Builtin)
  /-- An attribute declared on an object, by the serial number of its declaration. -/
  | declared (serial : Nat)
  deriving DecidableEq, Repr

/-- An attribute definition.  Built-in ones are declared by no object. -/
structure AttrDef where
  key : AttrKey
  name : Text
  flags : FlagSet AttrFlag
  definer : Dbref
  deriving DecidableEq

namespace AttrDef

def ofBuiltin (which : Builtin) : AttrDef where
  key := .builtin which
  name := which.title
  flags := .ofList which.flagList
  definer := .nothing

/-- The built-in definition with a name, whatever the case of its letters. -/
def builtin? (name : Text) : Option AttrDef := (Builtin.ofName? name).map ofBuiltin

def isBuiltin (definition : AttrDef) : Bool :=
  match definition.key with
  | .builtin _ => true
  | .declared _ => false

def hasFlag (definition : AttrDef) (flag : AttrFlag) : Bool := definition.flags.contains flag

def isComputed (definition : AttrDef) : Bool := definition.hasFlag .builtin

/-- The name, with the declaring object before it when there is one. -/
def display (definition : AttrDef) : Text :=
  if definition.definer = .nothing then definition.name
  else definition.definer.literal ++ '.' :: definition.name

def reservedChars : List Char := ['=', ',', ';', ':', '.', '[', ']', ' ']

/-- Whether a name may be declared: it is not empty and holds no reserved character. -/
def isLegalName (name : Text) : Bool :=
  !name.isEmpty && name.all fun c => !reservedChars.contains c

end AttrDef
end WorldLocks
