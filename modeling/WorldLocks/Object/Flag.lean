import WorldLocks.FlagSet
import WorldLocks.Object.Kind

/-!
# Object flags

The flags that an object can carry, with their letters and names.  The short form of an object's
flags is its kind letter followed by one letter a flag; the long form names them.
-/

set_option autoImplicit false

namespace WorldLocks

/-- A property that an object has or has not, in the order of the bit positions. -/
inductive ObjectFlag where
  | chownOk
  | dark
  | sticky
  | haven
  | inheritPowers
  /-- The object has been destroyed; its slot in the table stays. -/
  | going
  | puppet
  | linkOk
  | enterOk
  /-- Everyone may see the object's number and its attributes. -/
  | seeOk
  | connect
  | opaqueInside
  | quiet
  | bearing
  | key
  | jumpOk
  | wizard
  deriving DecidableEq, Repr

namespace ObjectFlag

def all : List ObjectFlag :=
  [chownOk, dark, sticky, haven, inheritPowers, going, puppet, linkOk, enterOk, seeOk, connect,
   opaqueInside, quiet, bearing, key, jumpOk, wizard]

def position : ObjectFlag → Nat
  | chownOk => 0
  | dark => 1
  | sticky => 2
  | haven => 3
  | inheritPowers => 4
  | going => 5
  | puppet => 6
  | linkOk => 7
  | enterOk => 8
  | seeOk => 9
  | connect => 10
  | opaqueInside => 11
  | quiet => 12
  | bearing => 13
  | key => 14
  | jumpOk => 15
  | wizard => 16

instance : Flag ObjectFlag where
  position := position
  position_lt := by intro flag; cases flag <;> decide
  position_injective := by intro first second; cases first <;> cases second <;> decide

def letter (kind : ObjectKind) : ObjectFlag → Char
  | chownOk => 'C'
  | dark => 'D'
  | sticky => 'S'
  | haven => 'H'
  | inheritPowers => 'I'
  | going => 'G'
  | puppet => 'p'
  | linkOk => 'L'
  | enterOk => 'e'
  | seeOk => 'v'
  | connect => 'c'
  | opaqueInside => if kind = .exit then 'T' else 'o'
  | quiet => 'q'
  | bearing => 'b'
  | key => 'K'
  | jumpOk => 'J'
  | wizard => 'W'

def longName : ObjectFlag → Text
  | chownOk => "Chown_ok".toList
  | dark => "Dark".toList
  | sticky => "Sticky".toList
  | haven => "Haven".toList
  | inheritPowers => "Inherit".toList
  | going => "Going".toList
  | puppet => "Puppet".toList
  | linkOk => "Link_ok".toList
  | enterOk => "Enter_ok".toList
  | seeOk => "Visible".toList
  | connect => "Connected".toList
  | opaqueInside => "Opaque".toList
  | quiet => "Quiet".toList
  | bearing => "Bearing".toList
  | key => "Key".toList
  | jumpOk => "Jump_ok".toList
  | wizard => "Wizard".toList

def word : ObjectFlag → Text
  | chownOk => "chown_ok".toList
  | dark => "dark".toList
  | sticky => "sticky".toList
  | haven => "haven".toList
  | inheritPowers => "inherit_powers".toList
  | going => "going".toList
  | puppet => "puppet".toList
  | linkOk => "link_ok".toList
  | enterOk => "enter_ok".toList
  | seeOk => "see_ok".toList
  | connect => "connect".toList
  | opaqueInside => "opaque".toList
  | quiet => "quiet".toList
  | bearing => "bearing".toList
  | key => "key".toList
  | jumpOk => "jump_ok".toList
  | wizard => "wizard".toList

def ofWord? (word : Text) : Option ObjectFlag := all.find? (·.word = word)

def listOf (flags : FlagSet ObjectFlag) : List ObjectFlag := all.filter flags.contains

/-- The short form: the kind letter and one letter a flag, or `G` alone for what is destroyed. -/
def shortForm (kind : ObjectKind) (flags : FlagSet ObjectFlag) : Text :=
  if flags.contains going then ['G']
  else kind.letter?.toList ++ (listOf flags).map (letter kind)

/-- The long form: the kind, and the names of the flags when there are any. -/
def longForm (kind : ObjectKind) (flags : FlagSet ObjectFlag) : Text :=
  let names := (listOf flags).map longName
  let head := "Type: ".toList ++ kind.name
  if names.isEmpty then head else head ++ " Flags: ".toList ++ Text.join [' '] names

end ObjectFlag
end WorldLocks
