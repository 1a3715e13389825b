import WorldLocks.World.Values

/-!
# Declaring attributes

An object declares attributes of its own, which its descendants can read and hold values for.  The
name of an attribute is looked up on an object and then among its ancestors, so a declaration may
not hide a built-in name or one that the object can already read.  Taking a declaration back clears
the values on the object and all its descendants; values held elsewhere keep the definition alive.
-/

set_option autoImplicit false

namespace WorldLocks

/-- What declaring an attribute came to. -/
inductive DeclareResult where
  | declared (definition : AttrDef)
  /-- The object had declared the name already, and the flags were replaced. -/
  | flagsSet (definition : AttrDef)

def DeclareResult.definition : DeclareResult → AttrDef
  | declared definition | flagsSet definition => definition

namespace World

/-! ## Lookup -/

/-- The definitions that an object's slot declares, oldest first. -/
def localDefs (world : World) (object : Dbref) : List AttrDef :=
  ((world.slot? object).elim [] (·.declared)).filterMap world.registry.definition?

def definedOn? (world : World) (object : Dbref) (name : Text) : Option AttrDef :=
  (world.localDefs object).find? fun definition => Text.sameIgnoringCase definition.name name

/-- The definition of a name on an object or the nearest ancestor that declares it. -/
def findDef? (world : World) (object : Dbref) (name : Text) : Option AttrDef :=
  (search world.parentsOf (world.definedOn? · name) world.searchDepth object []).1

/-- The definition that a name means on an object: one declared on `#n` for a name `#n.NAME`, else
a built-in one, else one that the object can read. -/
def namedAttr? (world : World) (object : Dbref) (name : Text) : Option AttrDef :=
  let dotted := do
    let (target, attr) ← Text.splitOnce '.' name
    let definer ← Dbref.read? target
    pure (definer, attr)
  match dotted with
  | some (definer, attr) => world.definedOn? definer attr
  | none => (AttrDef.builtin? name).or (world.findDef? object name)

/-! ## Declaring -/

/-- Declares an attribute on an object, or replaces the flags of one that it declares already. -/
def declareAttr (world : World) (object : Dbref) (name : Text) (flags : FlagSet AttrFlag) :
    Outcome DeclareResult :=
  if !AttrDef.isLegalName name then world.refuse (.illegalAttributeName name)
  else match world.record? object with
    | none => world.refuse (.objectNotFound object)
    | some record =>
      match world.definedOn? object name with
      | some existing =>
        let updated := match existing.key with
          | .declared serial =>
            let world := world.flush
            { world with registry := world.registry.setFlags serial flags }
          | .builtin _ => world
        updated.done (.flagsSet { existing with flags := flags })
      | none =>
        if world.config.maxAttrDefs ≤ record.declared.length then
          world.refuse (.tooManyDefinitions object)
        else if (Builtin.ofName? name).isSome || (world.findDef? object name).isSome then
          world.refuse (.attributeShadows object name)
        else
          let serial := world.registry.nextSerial
          let (definition, registry) := world.registry.declare name flags object
          let registered := { world with registry := registry }
          (registered.modify object fun record =>
            { record with declared := record.declared ++ [serial] }).done (.declared definition)

/-- Takes back the declaration of a name.  The values of the object and its descendants go first,
then the reference that the declaration held. -/
def undeclareAttr (world : World) (object : Dbref) (name : Text) : Outcome AttrDef :=
  match world.definedOn? object name with
  | none => world.refuse (.definitionNotFound object name)
  | some definition =>
    match definition.key with
    | .builtin _ => world.refuse (.builtinAttribute definition.name)
    | .declared serial =>
      let family := world.familyOf object
      let undeclared := world.modify object fun record =>
        { record with declared := record.declared.filter (· ≠ serial) }
      let cleared := family.foldl
        (fun world member => (world.clearKey member definition.key).2) undeclared
      (cleared.release definition.key).done definition

end World
end WorldLocks
