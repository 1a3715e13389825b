/-!
# Flag sets

A set of flags is a word of 32 bits in which each flag has a position.  Bits that no flag names are
kept as they are.  Main statements: what a set contains after a flag is put in or taken out.
-/

set_option autoImplicit false

namespace WorldLocks

/-- A type of flags, each with a position of its own below 32. -/
class Flag (α : Type) where
  position : α → Nat
  position_lt : ∀ flag, position flag < 32
  position_injective : ∀ first second, position first = position second → first = second

structure FlagSet (α : Type) where
  bits : BitVec 32
  deriving DecidableEq

namespace FlagSet

variable {α : Type} [Flag α]

/-- The set whose word has the given value, taken modulo 2 to the 32. -/
def ofNat (bits : Nat) : FlagSet α := ⟨BitVec.ofNat 32 bits⟩

def toNat (flags : FlagSet α) : Nat := flags.bits.toNat

def empty : FlagSet α := ⟨0⟩

def full : FlagSet α := ⟨BitVec.allOnes 32⟩

def single (flag : α) : FlagSet α := ⟨BitVec.twoPow 32 (Flag.position flag)⟩

def union (first second : FlagSet α) : FlagSet α := ⟨first.bits ||| second.bits⟩

def insert (flags : FlagSet α) (flag : α) : FlagSet α := flags.union (single flag)

def erase (flags : FlagSet α) (flag : α) : FlagSet α :=
  ⟨flags.bits &&& ~~~BitVec.twoPow 32 (Flag.position flag)⟩

def contains (flags : FlagSet α) (flag : α) : Bool := flags.bits.getLsbD (Flag.position flag)

def containsAll (flags others : FlagSet α) : Bool := others.bits &&& flags.bits == others.bits

def isEmpty (flags : FlagSet α) : Bool := flags.bits == 0

def ofList (flags : List α) : FlagSet α := flags.foldl insert empty

@[simp] theorem contains_empty (flag : α) : (empty : FlagSet α).contains flag = false := by
  simp [contains, empty]

@[simp] theorem contains_union (first second : FlagSet α) (flag : α) :
    (first.union second).contains flag = (first.contains flag || second.contains flag) := by
  simp [contains, union]

theorem contains_single [DecidableEq α] (flag other : α) :
    (single flag).contains other = decide (flag = other) := by
  have bound := Flag.position_lt other
  by_cases same : flag = other
  · subst same
    simp [contains, single, bound]
  · have apart : Flag.position flag ≠ Flag.position other :=
      fun equal => same (Flag.position_injective _ _ equal)
    simp [contains, single, BitVec.getLsbD_twoPow, apart, same]

theorem contains_insert [DecidableEq α] (flags : FlagSet α) (flag other : α) :
    (flags.insert flag).contains other = (flags.contains other || decide (flag = other)) := by
  simp [insert, contains_single]

theorem contains_erase [DecidableEq α] (flags : FlagSet α) (flag other : α) :
    (flags.erase flag).contains other = (flags.contains other && !decide (flag = other)) := by
  have bound := Flag.position_lt other
  by_cases same : flag = other
  · subst same
    simp [contains, erase, bound]
  · have apart : Flag.position flag ≠ Flag.position other :=
      fun equal => same (Flag.position_injective _ _ equal)
    simp [contains, erase, bound, same, Ne.symm apart]

end FlagSet
end WorldLocks
