import WorldLocks.Text.Number

/-!
# JSON values

Fixtures, settings and results are exchanged as JSON.  A number that is written as an integer is an
integer; every other number is kept as it is written, since nothing here computes with it.  An
object is the list of its members; of several members with one name the last one counts.
-/

set_option autoImplicit false

namespace WorldLocks

inductive Json where
  | null
  | bool (value : Bool)
  | integer (value : Int)
  /-- A number with a fraction or an exponent, or negative zero. -/
  | decimal (written : Text)
  | text (value : Text)
  | array (items : List Json)
  | object (members : List (Text × Json))
  deriving BEq, Repr

namespace Json

/-! ## Reading values -/

def asBool? : Json → Option Bool
  | bool value => some value
  | _ => none

def asText? : Json → Option Text
  | text value => some value
  | _ => none

def asInt? (least greatest : Int) : Json → Option Int
  | integer value => if least ≤ value ∧ value ≤ greatest then some value else none
  | _ => none

def asNat? (greatest : Nat) (json : Json) : Option Nat := (json.asInt? 0 greatest).map Int.toNat

def asArray? : Json → Option (List Json)
  | array items => some items
  | _ => none

def asListOf? {α : Type} (read : Json → Option α) (json : Json) : Option (List α) :=
  json.asArray?.bind (·.mapM read)

def asObject? : Json → Option (List (Text × Json))
  | object members => some members
  | _ => none

def member? (name : Text) : Json → Option Json
  | object members => (members.reverse.find? (·.1 = name)).map (·.2)
  | _ => none

/-! ## Tables -/

/-- Puts a member into a sorted list with different names, in place of an older one. -/
def putSorted {α : Type} (name : Text) (value : α) : List (Text × α) → List (Text × α)
  | [] => [(name, value)]
  | (other, older) :: later =>
    match Text.order name other with
    | .lt => (name, value) :: (other, older) :: later
    | .eq => (name, value) :: later
    | .gt => (other, older) :: putSorted name value later

/-- The members that count, each read in one way, in the order of their names. -/
def asTableOf? {α : Type} (read : Json → Option α) (json : Json) : Option (List (Text × α)) := do
  let members ← json.asObject?
  let entries ← members.mapM fun (name, value) => (read value).map (name, ·)
  pure (entries.foldl (fun table (name, value) => putSorted name value table) [])

end Json
end WorldLocks
