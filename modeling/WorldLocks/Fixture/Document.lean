import WorldLocks.Fixture.Basic
import WorldLocks.Json.Basic

/-!
# Fixtures as documents

How a fixture is written in JSON.  A structure is an object, whose unknown members are ignored, or
an array of its members in their order; members that may be left out have a default.  An object is
referred to by its number.  A word from a fixed list may be written as an object with the word as
the name of a null.  What a request holds is read exactly, and what a file holds is read loosely:
there, what is left over behind the members of a structure or behind a word is ignored.
-/

set_option autoImplicit false

namespace WorldLocks

/-! ## Structures -/

namespace Json

/-- Whether something may be left over when a value has been read. -/
inductive Strictness where
  | exact
  | loose
  deriving DecidableEq, Repr

def Strictness.allowsLeft (strictness : Strictness) (count : Nat) : Bool :=
  strictness = .loose || count = 0

abbrev Members := Text → Option Json

/-- The members of a structure: those of an object, or the items of an array in the order of the
names. -/
def membersOf (strictness : Strictness) (names : List Text) : Json → Option Members
  | object members => some fun name => (object members).member? name
  | array items =>
    if strictness.allowsLeft (items.length - names.length) then
      some fun name => (names.zip items).lookup name
    else none
  | _ => none

def Members.required {α : Type} (members : Members) (name : Text) (read : Json → Option α) :
    Option α := (members name).bind read

def Members.optional {α : Type} (members : Members) (name : Text) (read : Json → Option α)
    (default : α) : Option α :=
  match members name with
  | some json => read json
  | none => some default

def orNull {α : Type} (read : Json → Option α) : Json → Option (Option α)
  | null => some none
  | json => (read json).map some

/-- A word from a fixed list: a text, or an object whose first member in the order of the names is
a null under the word. -/
def asWord? {α : Type} (strictness : Strictness) (ofWord : Text → Option α) (json : Json) :
    Option α :=
  match json with
  | text word => ofWord word
  | object _ =>
    match json.asTableOf? some with
    | some ((word, null) :: left) =>
      if strictness.allowsLeft left.length then ofWord word else none
    | _ => none
  | _ => none

def asDbref? (json : Json) : Option Dbref :=
  (json.asInt? (-Dbref.maxNumber - 1) Dbref.maxNumber).map Dbref.mk

def ofDbref (ref : Dbref) : Json := integer ref.number

def maxSize : Nat := 18446744073709551615

end Json

/-! ## Reading -/

namespace WorldConfig

def names : List Text := ["max_attr_defs".toList, "attr_cache".toList]

def ofJson? (strictness : Json.Strictness) (json : Json) : Option WorldConfig := do
  let members ← json.membersOf strictness names
  let maxAttrDefs ← members.optional "max_attr_defs".toList (·.asNat? Json.maxSize)
    ({} : WorldConfig).maxAttrDefs
  let attrCache ← members.optional "attr_cache".toList Json.asBool? ({} : WorldConfig).attrCache
  pure ⟨maxAttrDefs, attrCache⟩

def toJson (config : WorldConfig) : Json :=
  .object [("max_attr_defs".toList, .integer config.maxAttrDefs),
    ("attr_cache".toList, .bool config.attrCache)]

end WorldConfig

namespace ObjectFixture

def names : List Text :=
  ["name".toList, "type".toList, "owner".toList, "location".toList, "zone".toList, "link".toList,
   "flags".toList, "parents".toList, "defs".toList, "attrs".toList]

def ofJson? (strictness : Json.Strictness) (json : Json) : Option ObjectFixture := do
  let members ← json.membersOf strictness names
  let name ← members.required "name".toList Json.asText?
  let kind ← members.required "type".toList (Json.asWord? strictness ObjectKind.ofWord?)
  let owner ← members.optional "owner".toList (Json.orNull Json.asDbref?) none
  let location ← members.optional "location".toList Json.asDbref? .nothing
  let zone ← members.optional "zone".toList Json.asDbref? .nothing
  let link ← members.optional "link".toList Json.asDbref? .nothing
  let flags ← members.optional "flags".toList
    (Json.asListOf? (Json.asWord? strictness ObjectFlag.ofWord?)) []
  let parents ← members.optional "parents".toList (Json.asListOf? Json.asDbref?) []
  let defs ← members.optional "defs".toList (Json.asTableOf? Json.asText?) []
  let attrs ← members.optional "attrs".toList (Json.asTableOf? Json.asText?) []
  pure ⟨name, kind, owner, location, zone, link, flags, parents, defs, attrs⟩

def tableToJson (table : List (Text × Text)) : Json :=
  .object (table.map fun (name, value) => (name, .text value))

def toJson (fixture : ObjectFixture) : Json :=
  .object [("name".toList, .text fixture.name),
    ("type".toList, .text fixture.kind.word),
    ("owner".toList, fixture.owner.elim .null Json.ofDbref),
    ("location".toList, Json.ofDbref fixture.location),
    ("zone".toList, Json.ofDbref fixture.zone),
    ("link".toList, Json.ofDbref fixture.link),
    ("flags".toList, .array (fixture.flags.map fun flag => .text flag.word)),
    ("parents".toList, .array (fixture.parents.map Json.ofDbref)),
    ("defs".toList, tableToJson fixture.defs),
    ("attrs".toList, tableToJson fixture.attrs)]

end ObjectFixture

namespace WorldFixture

def names : List Text := ["config".toList, "objects".toList]

def ofJson? (strictness : Json.Strictness) (json : Json) : Option WorldFixture := do
  let members ← json.membersOf strictness names
  let config ← members.optional "config".toList (WorldConfig.ofJson? strictness) {}
  let objects ← members.optional "objects".toList
    (Json.asListOf? (ObjectFixture.ofJson? strictness)) []
  pure ⟨config, objects⟩

def toJson (fixture : WorldFixture) : Json :=
  .object [("config".toList, fixture.config.toJson),
    ("objects".toList, .array (fixture.objects.map ObjectFixture.toJson))]

end WorldFixture
end WorldLocks
