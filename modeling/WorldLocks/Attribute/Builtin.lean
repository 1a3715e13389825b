import WorldLocks.Attribute.Flag

/-!
# Built-in attributes

Attributes that exist on every object.  Some hold stored values under fixed names and flags; the
others are computed from the object whenever they are read, which their `builtin` flag says.
-/

set_option autoImplicit false

namespace WorldLocks

/-- The built-in attributes, those with stored values first. -/
inductive Builtin where
  | osucc
  | ofail
  | fail
  | succ
  | password
  | desc
  | sex
  | odrop
  | drop
  | lock
  | elock
  | ulock
  | slock
  | nickname
  | pennies
  | idesc
  | away
  | idle
  | enter
  | oenter
  | location
  | owner
  | link
  | parents
  | children
  | contents
  | exits
  | name
  | flags
  | longFlags
  | zone
  | next
  | modified
  | created
  deriving DecidableEq, Repr

namespace Builtin

def all : List Builtin :=
  [osucc, ofail, fail, succ, password, desc, sex, odrop, drop, lock, elock, ulock, slock, nickname,
   pennies, idesc, away, idle, enter, oenter, location, owner, link, parents, children, contents,
   exits, name, flags, longFlags, zone, next, modified, created]

/-- The number by which an attribute is known; computed attributes start at 100. -/
def number : Builtin → Nat
  | osucc => 1
  | ofail => 2
  | fail => 3
  | succ => 4
  | password => 5
  | desc => 6
  | sex => 7
  | odrop => 8
  | drop => 9
  | lock => 10
  | elock => 11
  | ulock => 12
  | slock => 13
  | nickname => 14
  | pennies => 15
  | idesc => 16
  | away => 17
  | idle => 18
  | enter => 19
  | oenter => 20
  | location => 100
  | owner => 101
  | link => 102
  | parents => 103
  | children => 104
  | contents => 105
  | exits => 106
  | name => 107
  | flags => 108
  | longFlags => 109
  | zone => 110
  | next => 111
  | modified => 112
  | created => 113

def title : Builtin → Text
  | osucc => "Osucc".toList
  | ofail => "Ofail".toList
  | fail => "Fail".toList
  | succ => "Succ".toList
  | password => "Password".toList
  | desc => "Desc".toList
  | sex => "Sex".toList
  | odrop => "Odrop".toList
  | drop => "Drop".toList
  | lock => "Lock".toList
  | elock => "Elock".toList
  | ulock => "Ulock".toList
  | slock => "Slock".toList
  | nickname => "Alias".toList
  | pennies => "Pennies".toList
  | idesc => "Idesc".toList
  | away => "Away".toList
  | idle => "Idle".toList
  | enter => "Enter".toList
  | oenter => "Oenter".toList
  | location => "Location".toList
  | owner => "Owner".toList
  | link => "Link".toList
  | parents => "Parents".toList
  | children => "Children".toList
  | contents => "Contents".toList
  | exits => "Exits".toList
  | name => "Name".toList
  | flags => "Flags".toList
  | longFlags => "LongFlags".toList
  | zone => "Zone".toList
  | next => "Next".toList
  | modified => "Modified".toList
  | created => "Created".toList

def computedFlags : List AttrFlag := [.builtin, .osee, .wizard]

def flagList : Builtin → List AttrFlag
  | osucc | ofail | fail | succ | desc | sex | odrop | drop | nickname | enter | oenter => [.osee]
  | password => [.wizard, .dark, .noMod]
  | lock | elock | ulock | slock => [.lock]
  | pennies => [.wizard]
  | idesc | away | idle => []
  | location | owner | link | zone | next => computedFlags ++ [.dbref]
  | parents | children | contents | exits | name | flags | longFlags => computedFlags
  | modified | created => computedFlags ++ [.date]

def ofNumber? (number : Nat) : Option Builtin := all.find? (·.number = number)

/-- The attribute with a name, whatever the case of its letters. -/
def ofName? (name : Text) : Option Builtin :=
  all.find? fun builtin => Text.sameIgnoringCase builtin.title name

theorem mem_all (builtin : Builtin) : builtin ∈ all := by cases builtin <;> decide

theorem ofNumber?_number (builtin : Builtin) : ofNumber? builtin.number = some builtin := by
  cases builtin <;> decide

theorem ofName?_title (builtin : Builtin) : ofName? builtin.title = some builtin := by
  cases builtin <;> decide

end Builtin
end WorldLocks
