import WorldLocks.Proofs.Declarations.Lessening
import WorldLocks.Proofs.Lookups

/-! Declared names.  One operation gives an object a new declaration, and only of a legal name that
is no built-in one and that the object cannot read yet.  As everything else only takes declarations
away, declared names stay legal and apart. -/

set_option autoImplicit false

namespace WorldLocks

namespace Text

variable {first second : Text}

theorem sameIgnoringCase_iff :
    sameIgnoringCase first second = true ↔ first.map Char.toLower = second.map Char.toLower := by
  rw [sameIgnoringCase, beq_iff_eq]

theorem sameIgnoringCase_comm (first second : Text) :
    sameIgnoringCase first second = sameIgnoringCase second first := by
  rw [Bool.eq_iff_iff, sameIgnoringCase_iff, sameIgnoringCase_iff, eq_comm]

end Text

theorem Builtin.ofName?_eq_none {name : Text} : Builtin.ofName? name = none ↔
    ∀ builtin : Builtin, Text.sameIgnoringCase builtin.title name = false := by
  simp only [ofName?, List.find?_eq_none, Bool.not_eq_true]
  exact ⟨fun foreign builtin => foreign builtin builtin.mem_all, fun foreign builtin _ =>
    foreign builtin⟩

theorem AttrDef.isLegalName_iff {name : Text} : AttrDef.isLegalName name = true ↔
    name ≠ [] ∧ ∀ c ∈ name, c ∉ ['=', ',', ';', ':', '.', '[', ']', ' '] := by
  simp [isLegalName, reservedChars]

theorem Registry.WellFormed.definition?_declare {registry : Registry}
    (wellFormed : registry.WellFormed) (name : Text) (flags : FlagSet AttrFlag) (definer : Dbref)
    (serial : Nat) : (registry.declare name flags definer).2.definition? serial =
      if serial = registry.nextSerial then some ⟨.declared serial, name, flags, definer⟩
      else registry.definition? serial := by
  have absent := wellFormed.registered?_nextSerial
  rw [Registry.registered?] at absent
  rw [Registry.definition?, Registry.registered?, Registry.declare, List.find?_append]
  by_cases fresh : serial = registry.nextSerial
  · subst fresh
    simp [absent]
  · simp [fresh, Ne.symm fresh, Registry.definition?, Registry.registered?]

/-- What fewer items give less is a part of what more items give. -/
theorem filterMap_sublist {α β : Type} {less more : α → Option β} {few many : List α}
    (gives : ∀ item result, less item = some result → more item = some result)
    (items : few.Sublist many) : (few.filterMap less).Sublist (many.filterMap more) := by
  refine List.Sublist.trans ?_ (items.filterMap more)
  clear items
  induction few with
  | nil => exact .refl _
  | cons item few ih =>
      rw [List.filterMap_cons, List.filterMap_cons]
      cases first : less item with
      | none =>
          cases more item with
          | none => exact ih
          | some result => exact ih.cons result
      | some result =>
          rw [gives item result first]
          exact ih.cons_cons result

namespace World

variable {world after : World} {loose : Nat → Nat} {object : Dbref} {name : Text}
  {flags : FlagSet AttrFlag}

/-! ## Labels -/

def labelOf? (world : World) (serial : Nat) : Option (Text × Dbref) :=
  (world.registry.definition? serial).map AttrDef.label

/-- The names and definers of the definitions that an object declares. -/
def labelsOf (world : World) (object : Dbref) : List (Text × Dbref) :=
  (world.declaredBy object).filterMap world.labelOf?

theorem map_localDefs_label (world : World) (object : Dbref) :
    (world.localDefs object).map AttrDef.label = world.labelsOf object := by
  rw [localDefs_eq, List.map_filterMap]
  rfl

def Declares (world : World) (object : Dbref) (name : Text) : Prop :=
  (world.definedOn? object name).isSome

instance : Decidable (world.Declares object name) := inferInstanceAs (Decidable (_ = true))

theorem not_declares_iff : ¬ world.Declares object name ↔ world.definedOn? object name = none :=
  Option.not_isSome_iff_eq_none

theorem declares_iff : world.Declares object name ↔
    ∃ label ∈ world.labelsOf object, Text.sameIgnoringCase label.1 name = true := by
  simp [Declares, definedOn?, ← map_localDefs_label, AttrDef.label]

theorem Retracts.labels_sublist (retracts : world.Retracts after) (object : Dbref) :
    (after.labelsOf object).Sublist (world.labelsOf object) := by
  refine filterMap_sublist (fun serial label found => ?_) (retracts.declared object)
  obtain ⟨definition, registered, rfl⟩ := Option.map_eq_some_iff.mp found
  obtain ⟨earlier, before, same⟩ := retracts.registry serial definition registered
  rw [labelOf?, before, Option.map_some, same]

/-! ## New declarations -/

/-- What it takes for an object to declare a name that it has not declared yet, and what comes of
it. -/
structure DeclaresAnew (object : Dbref) (name : Text) (flags : FlagSet AttrFlag)
    (world after : World) : Prop where
  legal : AttrDef.isLegalName name = true
  valid : world.isValid object = true
  foreign : Builtin.ofName? name = none
  unread : world.findDef? object name = none
  room : (world.declaredBy object).length < world.config.maxAttrDefs
  config : after.config = world.config
  declared : ∀ other, after.declaredBy other =
    world.declaredBy other ++ if other = object then [world.registry.nextSerial] else []
  definitions : ∀ serial, after.registry.definition? serial =
    if serial = world.registry.nextSerial then some ⟨.declared serial, name, flags, object⟩
    else world.registry.definition? serial
  parents : ∀ other, after.parentsOf other = world.parentsOf other

theorem declaresAnew_of_free (wellFormed : world.registry.WellFormed) {record : ObjectRecord}
    (living : world.record? object = some record) (legal : AttrDef.isLegalName name = true)
    (foreign : Builtin.ofName? name = none) (unread : world.findDef? object name = none)
    (room : record.declared.length < world.config.maxAttrDefs) :
    DeclaresAnew object name flags world
      (({ world with registry := (world.registry.declare name flags object).2 } : World).modify
        object fun record =>
          { record with declared := record.declared ++ [world.registry.nextSerial] }) := by
  have found := (record?_eq_some.mp living).1
  refine ⟨legal, by rw [isValid, living, Option.isSome_some], foreign, unread, ?room,
    config_modify .., ?declared, ?definitions, ?parents⟩
  case room => rwa [declaredBy, found, Option.elim_some]
  case declared =>
    intro other
    rw [declaredBy, declaredBy, slot?_modify]
    change ((world.slot? other).map _).elim [] ObjectRecord.declared = _
    by_cases same : other = object
    · simp [same, found]
    · cases world.slot? other <;> simp [same]
  case definitions =>
    intro serial
    rw [registry_modify]
    exact wellFormed.definition?_declare name flags object serial
  case parents =>
    intro other
    rw [parentsOf, parentsOf, slot?_modify]
    change ((world.slot? other).map _).elim [] ObjectRecord.parents = _
    cases world.slot? other with
    | none => rfl
    | some record =>
        rw [Option.map_some, Option.elim_some]
        split <;> rfl

/-- Declaring a name either is something new or takes nothing but flags to change. -/
theorem declareAttr_cases (wellFormed : world.registry.WellFormed) (object : Dbref) (name : Text)
    (flags : FlagSet AttrFlag) :
    (DeclaresAnew object name flags world (world.declareAttr object name flags).2 ∧
        (world.declareAttr object name flags).1 =
          .ok (.declared ⟨.declared world.registry.nextSerial, name, flags, object⟩)) ∨
      (world.Lessens (world.declareAttr object name flags).2 ∧
        ∀ definition, (world.declareAttr object name flags).1 ≠ .ok (.declared definition)) := by
  have before := Lessens.refl world
  unfold World.declareAttr
  split
  · exact .inr ⟨before, nofun⟩
  · next legal =>
    split
    · exact .inr ⟨before, nofun⟩
    · next record living =>
      split
      · refine .inr ⟨?_, nofun⟩
        dsimp only [done]
        split
        · next serial _ =>
          exact before.flush.of_objects_eq rfl rfl
            (Registry.trims_update serial (fun _ => by rfl) fun _ => by rfl)
        · exact before
      · split
        · exact .inr ⟨before, nofun⟩
        · next room =>
          split
          · exact .inr ⟨before, nofun⟩
          · next free =>
            simp only [Bool.or_eq_true, not_or, Option.not_isSome_iff_eq_none] at free
            obtain ⟨foreign, unread⟩ := free
            refine .inl ⟨?_, rfl⟩
            exact declaresAnew_of_free wellFormed living (by simpa using legal) foreign unread
              (Nat.not_le.mp room)

/-! ## Well-named worlds -/

/-- Whether an object may declare something under a name, and is the one that does. -/
structure MayDeclare (object : Dbref) (label : Text × Dbref) : Prop where
  own : label.2 = object
  legal : AttrDef.isLegalName label.1 = true
  foreign : Builtin.ofName? label.1 = none

/-- Whether all objects declare what they may, apart from each other, and not too much. -/
structure WellNamed (world : World) : Prop where
  sound : ∀ object, ∀ label ∈ world.labelsOf object, MayDeclare object label
  distinct : ∀ object, (world.labelsOf object).Pairwise fun first second =>
    Text.sameIgnoringCase first.1 second.1 = false
  room : ∀ object, (world.declaredBy object).length ≤ world.config.maxAttrDefs

theorem WellNamed.retracts (named : world.WellNamed) (retracts : world.Retracts after) :
    after.WellNamed where
  sound object label member :=
    named.sound object label ((retracts.labels_sublist object).subset member)
  distinct object := (named.distinct object).sublist (retracts.labels_sublist object)
  room object := retracts.config ▸ (retracts.declared object).length_le.trans (named.room object)

namespace DeclaresAnew

theorem labelsOf (anew : DeclaresAnew object name flags world after)
    (balanced : world.Balanced loose) (other : Dbref) :
    after.labelsOf other =
      world.labelsOf other ++ if other = object then [(name, object)] else [] := by
  have kept : (world.declaredBy other).filterMap after.labelOf? = world.labelsOf other := by
    refine List.filterMap_congr fun serial declared => ?_
    have old : serial ≠ world.registry.nextSerial := fun same =>
      balanced.nextSerial_not_mem other (same ▸ declared)
    rw [labelOf?, anew.definitions, if_neg old, labelOf?]
  rw [World.labelsOf, anew.declared, List.filterMap_append, kept]
  congr 1
  split
  · simp [labelOf?, anew.definitions, AttrDef.label]
  · rfl

/-- Nobody declares the name whom the object could read it from. -/
theorem not_declares (anew : DeclaresAnew object name flags world after) {upper : Dbref}
    (above : upper ∈ object :: world.ancestors object) : ¬ world.Declares upper name := by
  have unread := anew.unread
  rw [findDef?_eq_findSome?, List.findSome?_eq_none_iff] at unread
  exact not_declares_iff.mpr (unread upper above)

theorem mem_labelsOf (anew : DeclaresAnew object name flags world after)
    (balanced : world.Balanced loose) {other : Dbref} {label : Text × Dbref} :
    label ∈ after.labelsOf other ↔
      label ∈ world.labelsOf other ∨ other = object ∧ label = (name, object) := by
  rw [anew.labelsOf balanced, List.mem_append]
  by_cases same : other = object <;> simp [same]

theorem wellNamed (anew : DeclaresAnew object name flags world after)
    (balanced : world.Balanced loose) (named : world.WellNamed) : after.WellNamed := by
  constructor
  case sound =>
    intro other label member
    rcases (anew.mem_labelsOf balanced).mp member with old | ⟨rfl, rfl⟩
    · exact named.sound other label old
    · exact ⟨rfl, anew.legal, anew.foreign⟩
  case distinct =>
    intro other
    rw [anew.labelsOf balanced]
    split
    · next same =>
      refine List.pairwise_append.mpr ⟨named.distinct other, List.pairwise_singleton .., ?_⟩
      intro label member added here
      rw [List.mem_singleton.mp here]
      refine Bool.eq_false_iff.mpr fun alike => ?_
      exact anew.not_declares List.mem_cons_self (declares_iff.mpr ⟨label, same ▸ member, alike⟩)
    · rw [List.append_nil]
      exact named.distinct other
  case room =>
    intro other
    rw [anew.declared, anew.config]
    split
    · next same =>
      rw [same, List.length_append]
      exact anew.room
    · rw [List.append_nil]
      exact named.room other

end DeclaresAnew

/-! ## Runs -/

theorem WellNamed.of_objects_eq {other : World} (named : world.WellNamed)
    (objects : other.objects = world.objects) (registry : other.registry = world.registry)
    (config : other.config = world.config) : other.WellNamed :=
  named.retracts ((Retracts.refl world).of_objects_eq objects config (registry ▸ .refl _))

theorem WellNamed.declareAttr (named : world.WellNamed) (balanced : world.Balanced loose)
    (object : Dbref) (name : Text) (flags : FlagSet AttrFlag) :
    (world.declareAttr object name flags).2.WellNamed := by
  cases declareAttr_cases balanced.wellFormed object name flags with
  | inl anew => exact anew.1.wellNamed balanced named
  | inr less => exact named.retracts less.1.toRetracts

theorem WellNamed.perform (named : world.WellNamed) (balanced : world.Balanced loose)
    (operation : Operation) : (operation.perform world).world.WellNamed := by
  by_cases declares : operation.IsDeclaration
  · cases operation with
    | declareAttr object name flags => exact named.declareAttr balanced object name flags
    | _ => exact declares.elim
  · exact named.retracts (world.retracts_perform declares)

theorem WellNamed.of_blank (blank : ∀ record ∈ world.objects, record.declared = []) :
    world.WellNamed := by
  have nothing : ∀ object, world.declaredBy object = [] := elim_slot?_of_forall blank
  have unlabelled : ∀ object, world.labelsOf object = [] := fun object => by
    rw [labelsOf, nothing, List.filterMap_nil]
  constructor <;> simp [nothing, unlabelled]

theorem IsStart.wellNamed (starts : IsStart world) : world.WellNamed := by
  cases starts with
  | empty config clock => exact .of_blank (by simp [World.new])
  | loaded loads =>
      refine And.right (ofFixture_invariant (fun world => world.Accounted ∧ world.WellNamed) loads
        ?unrelated ?relations ?declarations ?values)
      case unrelated =>
        intro loose start
        obtain ⟨registry, blank⟩ := blank_of_unrelated start
        exact ⟨.of_blank registry blank, .of_blank fun record member => (blank record member).1⟩
      case relations =>
        rintro world object fixture next ⟨accounted, named⟩ loads
        exact ⟨accounted.sameLedger (.loadRelations loads),
          named.retracts (retracts_loadRelations loads)⟩
      case declarations =>
        rintro world object name flags ⟨accounted, named⟩
        obtain ⟨loose, balanced⟩ := accounted.covered
        exact ⟨accounted.perform (.declareAttr object name flags),
          named.declareAttr balanced object name flags⟩
      case values =>
        rintro world object handle value ⟨accounted, named⟩
        exact ⟨accounted.perform (.setValue object handle value),
          named.retracts ((Lessens.refl world).setValue object handle value).toRetracts⟩

theorem Reachable.wellNamed {allowed : Operation → Prop} (reachable : Reachable allowed world) :
    world.WellNamed := by
  obtain ⟨start, starts, run⟩ := reachable
  refine And.right (run.invariant (fun world => world.Accounted ∧ world.WellNamed)
    ⟨starts.accounted, starts.wellNamed⟩ ?performs ?reads ?waits)
  case performs =>
    rintro world operation - ⟨accounted, named⟩
    obtain ⟨loose, balanced⟩ := accounted.covered
    exact ⟨accounted.perform operation, named.perform balanced operation⟩
  case reads =>
    rintro world cache ⟨accounted, named⟩
    exact ⟨accounted.sameLedger ⟨rfl, rfl⟩, named.of_objects_eq rfl rfl rfl⟩
  case waits =>
    rintro world clock ⟨accounted, named⟩
    exact ⟨accounted.sameLedger ⟨rfl, rfl⟩, named.of_objects_eq rfl rfl rfl⟩

/-! ## Declarations -/

/-- What can be relied on about the declarations of an object: each is registered, of this object
and in no other object's list, no two have one name, all names are legal and none is a built-in
one, and there are no more of them than the limit. -/
structure DeclaresSoundly (world : World) (object : Dbref) : Prop where
  registered : ∀ serial ∈ world.declaredBy object, ∃ definition,
    world.registry.definition? serial = some definition ∧ definition.definer = object
  once : (world.declaredBy object).Nodup
  alone : ∀ serial ∈ world.declaredBy object, ∀ other, serial ∈ world.declaredBy other →
    other = object
  distinct : (world.localDefs object).Pairwise fun first second =>
    Text.sameIgnoringCase first.name second.name = false
  legal : ∀ definition ∈ world.localDefs object, definition.name ≠ [] ∧
    ∀ c ∈ definition.name, c ∉ ['=', ',', ';', ':', '.', '[', ']', ' ']
  foreign : ∀ definition ∈ world.localDefs object, ∀ builtin : Builtin,
    Text.sameIgnoringCase definition.name builtin.title = false
  bounded : (world.declaredBy object).length ≤ world.config.maxAttrDefs

theorem WellNamed.exists_own (named : world.WellNamed) (balanced : world.Balanced loose)
    {serial : Nat} (declared : serial ∈ world.declaredBy object) : ∃ definition,
      world.registry.definition? serial = some definition ∧ definition.definer = object := by
  obtain ⟨definition, registered⟩ := balanced.exists_definition? declared
  refine ⟨definition, registered, (named.sound object definition.label ?_).own⟩
  exact List.mem_filterMap.mpr ⟨serial, declared, by rw [labelOf?, registered, Option.map_some]⟩

/-- However objects and declarations come and go, refused operations included, what an object
declares is sound in every world that a run from an empty world or a loaded fixture comes to. -/
theorem Reachable.declaresSoundly {allowed : Operation → Prop} (reachable : Reachable allowed world)
    (object : Dbref) : world.DeclaresSoundly object := by
  have named := reachable.wellNamed
  obtain ⟨⟨loose, balanced⟩, once⟩ := reachable.accounted
  have labelled : ∀ definition ∈ world.localDefs object,
      definition.label ∈ world.labelsOf object := fun definition member =>
    world.map_localDefs_label object ▸ List.mem_map_of_mem member
  constructor
  case registered => exact fun serial declared => named.exists_own balanced declared
  case once => exact once object
  case alone =>
    intro serial declared other elsewhere
    obtain ⟨definition, registered, own⟩ := named.exists_own balanced declared
    obtain ⟨same, found, others⟩ := named.exists_own balanced elsewhere
    obtain rfl : definition = same := Option.some.inj (registered.symm.trans found)
    exact others.symm.trans own
  case distinct =>
    have distinct := named.distinct object
    rwa [← map_localDefs_label, List.pairwise_map] at distinct
  case legal =>
    intro definition member
    exact AttrDef.isLegalName_iff.mp (named.sound object _ (labelled _ member)).legal
  case foreign =>
    intro definition member builtin
    rw [Text.sameIgnoringCase_comm]
    exact Builtin.ofName?_eq_none.mp (named.sound object _ (labelled _ member)).foreign builtin
  case bounded => exact named.room object

/-- A box with room for two declarations is told to declare names that it may not and one that it
has, is destroyed and brought back, and declares the name again; its copy declares another. -/
theorem declaresSoundly_revived :
    ∃ world : World, Reachable (fun _ => True) world ∧
      [.root, ⟨2⟩].map (fun object => (world.localDefs object).map (·.display)) =
        [["#1.foo".toList], ["#2.FOO".toList, "#2.Bar".toList]] ∧
      world.DeclaresSoundly .root ∧ world.DeclaresSoundly ⟨2⟩ := by
  let history : List Operation :=
    [.create "Hall".toList .room .nothing .nothing,
      .create "Box".toList .thing .system .system,
      .declareAttr .root "Foo".toList .empty,
      .declareAttr .root "FOO".toList (.ofList [.inherit]),
      .declareAttr .root "Ulock".toList .empty,
      .declareAttr .root "#0.Foo".toList .empty,
      .undeclareAttr .root "Bar".toList,
      .clone .root .system .system,
      .destroy .root,
      .declareAttr ⟨2⟩ "FOO".toList .empty,
      .declareAttr ⟨2⟩ "Bar".toList .empty,
      .declareAttr ⟨2⟩ "Baz".toList .empty,
      .setFlag .root .going false,
      .declareAttr .root "foo".toList .empty]
  have reachable :
      Reachable (fun _ => True) (Operation.performAll (.new ⟨2, true⟩ 0) history) :=
    ⟨_, .empty ⟨2, true⟩ 0, Leads.refl.performAll fun _ _ => trivial⟩
  exact ⟨_, reachable, by decide +kernel, reachable.declaresSoundly .root,
    reachable.declaresSoundly ⟨2⟩⟩

end World
end WorldLocks
