import WorldLocks.FlagSet
import WorldLocks.Text.Blank

/-!
# Attribute flags

The flags that an attribute definition can carry, and the option words with which players name the
ones that are theirs to choose.
-/

set_option autoImplicit false

namespace WorldLocks

/-- A property of an attribute definition, in the order of the bit positions. -/
inductive AttrFlag where
  | osee
  /-- No one may see the value, and no lock may test it. -/
  | dark
  | wizard
  | unsaved
  | noMod
  | date
  /-- Children read the value that their parents hold. -/
  | inherit
  | lock
  | function
  /-- The value is computed from the object and never stored. -/
  | builtin
  | dbref
  | noMem
  | time
  | haven
  deriving DecidableEq, Repr

namespace AttrFlag

def all : List AttrFlag :=
  [osee, dark, wizard, unsaved, noMod, date, inherit, lock, function, builtin, dbref, noMem, time,
   haven]

/-- The bit that stands for a flag; bit 9 stands for none. -/
def position : AttrFlag → Nat
  | osee => 0
  | dark => 1
  | wizard => 2
  | unsaved => 3
  | noMod => 4
  | date => 5
  | inherit => 6
  | lock => 7
  | function => 8
  | builtin => 10
  | dbref => 11
  | noMem => 12
  | time => 13
  | haven => 14

instance : Flag AttrFlag where
  position := position
  position_lt := by intro flag; cases flag <;> decide
  position_injective := by intro first second; cases first <;> cases second <;> decide

def option? : AttrFlag → Option Text
  | osee => some "osee".toList
  | dark => some "dark".toList
  | wizard => some "wizard".toList
  | unsaved => some "unsaved".toList
  | date => some "date".toList
  | inherit => some "inherit".toList
  | lock => some "lock".toList
  | function => some "function".toList
  | dbref => some "dbref".toList
  | haven => some "haven".toList
  | noMod | builtin | noMem | time => none

/-- The flag that an option word names, whatever the case of its letters. -/
def ofOption? (word : Text) : Option AttrFlag :=
  all.find? fun flag => flag.option?.any (Text.sameIgnoringCase · word)

/-- Reads an option list: the flags that its words name, and the words that name none. -/
def readOptions (options : Text) : FlagSet AttrFlag × List Text :=
  (Text.words options).foldl
    (fun (flags, unknown) word =>
      match ofOption? word with
      | some flag => (flags.insert flag, unknown)
      | none => (flags, unknown ++ [word]))
    (.empty, [])

/-- The option words of a set in the order of their positions, with blanks between them. -/
def options (flags : FlagSet AttrFlag) : Text :=
  Text.join [' '] ((all.filter flags.contains).filterMap option?)

end AttrFlag
end WorldLocks
