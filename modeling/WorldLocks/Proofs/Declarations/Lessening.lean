import WorldLocks.Proofs.Destroyed.Destroy

/-! Operations that declare nothing.  All operations but one leave the names and definers of the
definitions alone and add to no object's declarations, and all but two of those give no object a new
parent either. -/

set_option autoImplicit false

namespace WorldLocks

/-! ## Definitions -/

/-- What stays the same about a definition as long as it is registered. -/
def AttrDef.label (definition : AttrDef) : Text × Dbref := (definition.name, definition.definer)

namespace Registry

variable {registry : Registry}

/-- Whether everything that a registry holds was in another one under the same label. -/
def Trims (first second : Registry) : Prop :=
  ∀ serial definition, second.definition? serial = some definition →
    ∃ earlier, first.definition? serial = some earlier ∧ earlier.label = definition.label

theorem Trims.refl (registry : Registry) : registry.Trims registry :=
  fun _ definition found => ⟨definition, found, rfl⟩

theorem Trims.trans {first second third : Registry} (one : first.Trims second)
    (two : second.Trims third) : first.Trims third := by
  intro serial definition found
  obtain ⟨middle, there, same⟩ := two serial definition found
  obtain ⟨earlier, here, equal⟩ := one serial middle there
  exact ⟨earlier, here, equal.trans same⟩

theorem trims_update (serial : Nat) {change : Registered → Registered}
    (keeps : ∀ entry, (change entry).serial = entry.serial)
    (labels : ∀ entry, (change entry).definition.label = entry.definition.label) :
    registry.Trims (registry.update serial change) := by
  intro other definition found
  rw [definition?, registered?_update registry serial other keeps, Option.map_map] at found
  obtain ⟨entry, here, rfl⟩ := Option.map_eq_some_iff.mp found
  refine ⟨entry.definition, by rw [definition?, here, Option.map_some], ?_⟩
  rw [Function.comp_apply]
  split
  · exact (labels entry).symm
  · rfl

theorem trims_release (serial : Nat) : registry.Trims (registry.release serial) := by
  intro other definition found
  by_cases same : other = serial
  · subst same
    unfold release at found
    split at found
    · exact ⟨definition, found, rfl⟩
    · split at found
      · obtain ⟨entry, here, -⟩ := Option.map_eq_some_iff.mp found
        obtain ⟨member, own⟩ := registered?_some here
        simp [own] at member
      · exact trims_update other (fun _ => by rfl) (fun _ => by rfl) other definition found
  · rw [definition?_release_of_ne same] at found
    exact ⟨definition, found, rfl⟩

end Registry

/-! ## Worlds -/

/-- What a record says about what is declared and inherited. -/
def ObjectRecord.heritage (record : ObjectRecord) : List Dbref × List Nat :=
  (record.parents, record.declared)

namespace World

/-- Whether no object comes to declare anything on the way from one world to another. -/
structure Retracts (first second : World) : Prop where
  config : second.config = first.config
  registry : first.registry.Trims second.registry
  declared : ∀ object, (second.declaredBy object).Sublist (first.declaredBy object)

/-- Whether moreover no object gets a new parent. -/
structure Lessens (first second : World) : Prop extends Retracts first second where
  parents : ∀ object, second.parentsOf object ⊆ first.parentsOf object

@[simp] theorem config_modify (world : World) (object : Dbref)
    (change : ObjectRecord → ObjectRecord) :
    (world.modify object change).config = world.config := by
  unfold modify
  split <;> rfl

variable {start world : World}

namespace Retracts

theorem refl (world : World) : world.Retracts world := ⟨rfl, .refl _, fun _ => .refl _⟩

theorem trans {middle : World} (one : start.Retracts middle) (two : middle.Retracts world) :
    start.Retracts world where
  config := two.config.trans one.config
  registry := one.registry.trans two.registry
  declared object := (two.declared object).trans (one.declared object)

theorem of_objects_eq {other : World} (retracts : start.Retracts world)
    (objects : other.objects = world.objects) (config : other.config = world.config)
    (registry : world.registry.Trims other.registry) : start.Retracts other := by
  refine retracts.trans ⟨config, registry, fun object => ?_⟩
  rw [declaredBy, declaredBy, slot?_of_objects_eq objects]

theorem modify (retracts : start.Retracts world) (object : Dbref)
    {change : ObjectRecord → ObjectRecord}
    (declared : ∀ record, (change record).declared.Sublist record.declared) :
    start.Retracts (world.modify object change) := by
  refine retracts.trans ⟨config_modify .., registry_modify world object change ▸ .refl _, ?_⟩
  intro other
  rw [declaredBy, declaredBy, slot?_modify]
  cases world.slot? other with
  | none => exact .refl _
  | some record =>
      rw [Option.map_some, Option.elim_some, Option.elim_some]
      split
      · exact declared record
      · exact .refl _

end Retracts

namespace Lessens

theorem refl (world : World) : world.Lessens world := ⟨.refl _, fun _ => .refl _⟩

theorem trans {middle : World} (one : start.Lessens middle) (two : middle.Lessens world) :
    start.Lessens world where
  toRetracts := one.toRetracts.trans two.toRetracts
  parents object := List.Subset.trans (two.parents object) (one.parents object)

theorem of_objects_eq {other : World} (less : start.Lessens world)
    (objects : other.objects = world.objects) (config : other.config = world.config)
    (registry : world.registry.Trims other.registry) : start.Lessens other := by
  refine ⟨less.toRetracts.of_objects_eq objects config registry, fun object => ?_⟩
  rw [parentsOf, slot?_of_objects_eq objects]
  exact less.parents object

theorem flush (less : start.Lessens world) : start.Lessens world.flush :=
  less.of_objects_eq rfl rfl (.refl _)

theorem modifyFewer (less : start.Lessens world) (object : Dbref)
    {change : ObjectRecord → ObjectRecord}
    (declared : ∀ record, (change record).declared.Sublist record.declared)
    (parents : ∀ record, (change record).parents ⊆ record.parents) :
    start.Lessens (world.modify object change) := by
  refine ⟨less.toRetracts.modify object declared, fun other => ?_⟩
  refine List.Subset.trans ?_ (less.parents other)
  rw [parentsOf, parentsOf, slot?_modify]
  cases world.slot? other with
  | none => exact .refl _
  | some record =>
      rw [Option.map_some, Option.elim_some, Option.elim_some]
      split
      · exact parents record
      · exact .refl _

theorem modify (less : start.Lessens world) (object : Dbref) {change : ObjectRecord → ObjectRecord}
    (keeps : ∀ record, (change record).heritage = record.heritage) :
    start.Lessens (world.modify object change) := by
  refine less.modifyFewer object (fun record => ?_) fun record => ?_
  · have same : (change record).declared = record.declared := congrArg Prod.snd (keeps record)
    exact same ▸ .refl _
  · have same : (change record).parents = record.parents := congrArg Prod.fst (keeps record)
    exact same ▸ .refl _

theorem modifySlot (less : start.Lessens world) (object : Dbref)
    {change : ObjectRecord → ObjectRecord}
    (keeps : ∀ record, (change record).heritage = record.heritage) :
    start.Lessens (world.modifySlot object change).2 :=
  modifySlot_world start.Lessens less (less.modify object keeps)

theorem foldl {α : Type} {step : World → α → World}
    (steps : ∀ world item, start.Lessens world → start.Lessens (step world item))
    (less : start.Lessens world) (items : List α) : start.Lessens (items.foldl step world) := by
  induction items generalizing world with
  | nil => exact less
  | cons item items ih => exact ih (steps world item less)

theorem push (less : start.Lessens world) (name : Text) (kind : ObjectKind) (owner : Dbref)
    (now : Int) : start.Lessens (world.push (.new name kind owner now)) := by
  refine less.trans ⟨⟨rfl, .refl _, fun object => ?_⟩, fun object => ?_⟩
  · rw [declaredBy, declaredBy, elim_push (by rfl)]
  · rw [parentsOf_push_new]
    exact .refl _

/-! ## Values and declarations -/

theorem release (less : start.Lessens world) (key : AttrKey) :
    start.Lessens (world.release key) := by
  cases key with
  | builtin which => exact less
  | declared serial => exact less.of_objects_eq rfl rfl (Registry.trims_release serial)

theorem addRef {key : AttrKey} {counted : World} (less : start.Lessens world)
    (added : world.addRef key = .ok counted) : start.Lessens counted := by
  cases key with
  | builtin which => exact Except.ok.inj added ▸ less
  | declared serial =>
      cases counting : world.registry.addRef? serial with
      | none => simp [World.addRef, counting] at added
      | some registry =>
          obtain rfl : { world with registry := registry } = counted := by
            simpa [World.addRef, counting] using added
          refine less.of_objects_eq rfl rfl ?_
          rw [Registry.addRef?_eq_some counting]
          exact Registry.trims_update serial (fun _ => rfl) fun _ => rfl

theorem addRefs (less : start.Lessens world) (values : List AttrValue) :
    start.Lessens (world.addRefs values).2 := by
  induction values generalizing world with
  | nil => exact less
  | cons entry values ih =>
      unfold World.addRefs
      split
      · exact less
      · next counted added => exact ih (less.addRef added)

theorem setValue (less : start.Lessens world) (object : Dbref) (handle : AttrDef) (value : Text) :
    start.Lessens (world.setValue object handle value).2 := by
  unfold World.setValue
  dsimp only
  split
  · exact less
  · split
    · exact less.flush
    · split
      · exact less.flush
      · exact (less.flush.modify object fun _ => by rfl).release handle.key
      · exact less.flush.modify object fun _ => by rfl
      · split
        · exact less.flush
        · next counted added => exact (less.flush.addRef added).modify object fun _ => by rfl

theorem clearKey (less : start.Lessens world) (object : Dbref) (key : AttrKey) :
    start.Lessens (world.clearKey object key).2 := by
  have cleared : start.Lessens (world.flush.modify object (World.dropValues key)) :=
    less.flush.modify object fun _ => by rfl
  unfold World.clearKey
  dsimp only
  split
  · exact less.flush
  · split
    · exact cleared.release key
    · exact cleared

theorem freeValues (less : start.Lessens world) (object : Dbref) :
    start.Lessens (world.freeValues object).2 := by
  unfold World.freeValues
  dsimp only
  split
  · exact less.flush
  · exact foldl (fun _ entry kept => kept.release entry.key)
      (less.flush.modify object fun _ => by rfl) _

theorem copyNoninherited (less : start.Lessens world) (destination source : Dbref) :
    start.Lessens (world.copyNoninherited destination source).2 := by
  unfold World.copyNoninherited
  split
  · exact less
  · refine Outcome.andThen_world start.Lessens (less.freeValues destination) fun _ _ freed => ?_
    refine Outcome.andThen_world start.Lessens (freed.addRefs _) fun _ _ counted => ?_
    exact counted.modify destination fun _ => by rfl

theorem undeclareAttr (less : start.Lessens world) (object : Dbref) (name : Text) :
    start.Lessens (world.undeclareAttr object name).2 := by
  unfold World.undeclareAttr
  split
  · exact less
  · split
    · exact less
    · refine (foldl (fun _ member kept => kept.clearKey member _) ?_ _).release _
      exact less.modifyFewer object (fun _ => List.filter_sublist) fun _ => .refl _

theorem undeclareAll (less : start.Lessens world) (object : Dbref) (names : List Text) :
    start.Lessens (world.undeclareAll object names).2 := by
  induction names generalizing world with
  | nil => exact less
  | cons name later ih =>
      exact Outcome.andThen_world start.Lessens (less.undeclareAttr object name)
        fun _ _ kept => ih kept

/-! ## Places and parents -/

theorem putInto (less : start.Lessens world) (object place : Dbref) :
    start.Lessens (world.putInto object place) := by
  unfold World.putInto
  split
  · refine (less.modify place fun record => ?_).modify object fun _ => by rfl
    unfold ObjectRecord.receive
    split <;> rfl
  · exact less

theorem takeOut (less : start.Lessens world) (object : Dbref) :
    start.Lessens (world.takeOut object) := by
  unfold World.takeOut
  split
  · exact (less.modify _ fun _ => by rfl).modify object fun _ => by rfl
  · exact less

theorem moveTo (less : start.Lessens world) (object destination : Dbref) :
    start.Lessens (world.moveTo object destination).2 := by
  refine ifExists_world start.Lessens less ?_
  split
  · exact less.flush.takeOut object
  · refine ifExists_world start.Lessens less ?_
    split
    · exact less
    · exact (less.flush.takeOut object).putInto object destination

theorem modify_dropParent (less : start.Lessens world) (object parent : Dbref) :
    start.Lessens (world.modify object (·.dropParent parent)) :=
  less.modifyFewer object (fun _ => .refl _) fun _ => List.filter_sublist.subset

theorem removeParent (less : start.Lessens world) (child parent : Dbref) :
    start.Lessens (world.removeParent child parent).2 := by
  refine Outcome.andThen_world start.Lessens ?_ fun _ _ kept =>
    kept.modifySlot parent fun _ => by rfl
  exact modifySlot_world start.Lessens less.flush (less.flush.modify_dropParent child parent)

/-! ## Objects -/

theorem create (less : start.Lessens world) (name : Text) (kind : ObjectKind)
    (owner location : Dbref) : start.Lessens (world.create name kind owner location).2 := by
  refine ifNothingOrExists_world start.Lessens less (ifNothingOrExists_world start.Lessens less ?_)
  split
  · exact less.flush
  · dsimp only [done]
    split
    · exact less.flush.push ..
    · exact (less.flush.push ..).putInto _ location

theorem letGo (less : start.Lessens world) (object : Dbref) :
    start.Lessens (world.letGo object) := by
  unfold World.letGo
  split
  · exact less
  · refine foldl (fun _ inside kept => kept.modify inside fun _ => by rfl) ?_ _
    refine foldl (fun _ child kept => kept.modify_dropParent child object) ?_ _
    refine foldl (fun _ parent kept => kept.modify parent fun _ => by rfl) ?_ _
    exact less.modifyFewer object (fun _ => .refl _) fun _ => List.nil_subset _

theorem destroy (less : start.Lessens world) (object : Dbref) :
    start.Lessens (world.destroy object).2 := by
  unfold World.destroy
  split
  · exact less
  · refine ifExists_world start.Lessens less ?_
    refine Outcome.andThen_world start.Lessens (less.undeclareAll object _)
      fun _ _ undeclared => ?_
    refine Outcome.andThen_world start.Lessens (undeclared.freeValues object) fun _ _ freed => ?_
    exact ((freed.takeOut object).letGo object).modify object fun _ => by rfl

theorem setLock (less : start.Lessens world) (limits : Limits) (player thing : Dbref)
    (lock : AttrDef) (text : Text) :
    start.Lessens (world.setLock limits player thing lock text).world := by
  unfold World.setLock
  dsimp only
  split
  · exact less
  · exact Outcome.andThen_world start.Lessens (less.setValue thing lock _)
      fun _ _ stored => stored.flush.modifySlot thing fun _ => by rfl

end Lessens

/-! ## New parents -/

theorem Retracts.addParent (retracts : start.Retracts world) (child parent : Dbref) :
    start.Retracts (world.addParent child parent).2 := by
  have flushed : start.Retracts world.flush := retracts.trans (Lessens.refl world).flush.toRetracts
  refine ifExists_world start.Retracts retracts (ifExists_world start.Retracts retracts ?_)
  split
  · exact retracts
  · dsimp only
    split
    · exact flushed
    · exact (flushed.modify child fun _ => by rfl).modify parent fun _ => by rfl

theorem Retracts.addParents (retracts : start.Retracts world) (child : Dbref)
    (parents : List Dbref) : start.Retracts (world.addParents child parents).2 := by
  induction parents generalizing world with
  | nil => exact retracts
  | cons parent later ih =>
      exact Outcome.andThen_world start.Retracts (retracts.addParent child parent)
        fun _ _ kept => ih kept

theorem retracts_clone (world : World) (source owner location : Dbref) :
    world.Retracts (world.clone source owner location).2 := by
  unfold World.clone
  split
  · exact .refl world
  · refine Outcome.andThen_world world.Retracts ((Lessens.refl world).create ..).toRetracts
      fun object _ created => ?_
    refine Outcome.andThen_world world.Retracts (Retracts.addParents ?_ object _)
      fun _ _ related => ?_
    · exact created.modify object fun _ => by rfl
    · refine Outcome.andThen_world world.Retracts ?_ fun _ _ copied => copied
      exact related.trans ((Lessens.refl _).copyNoninherited object source).toRetracts

theorem Retracts.enlistChild {listed : World} (retracts : start.Retracts world) {object : Dbref}
    {parents : List Dbref} (listing : world.enlistChild object parents = .ok listed) :
    start.Retracts listed := by
  induction parents generalizing world with
  | nil => exact Except.ok.inj listing ▸ retracts
  | cons parent later ih =>
      unfold World.enlistChild at listing
      split at listing
      · exact ih (retracts.modify parent fun _ => by rfl) listing
      · cases listing

theorem retracts_loadRelations {loaded : World} {object : Dbref} {fixture : ObjectFixture}
    (loads : loadRelations world object fixture = .ok loaded) : world.Retracts loaded := by
  obtain ⟨listed, listing, rfl⟩ := loadRelations_ok loads
  have related : world.Retracts (world.relate object fixture) :=
    (Retracts.refl world).modify object fun _ => by rfl
  have enlisted := related.enlistChild listing
  unfold World.settle
  split
  · exact enlisted
  · exact enlisted.trans ((Lessens.refl listed).putInto object fixture.location).toRetracts

end World

/-! ## Operations -/

def Operation.IsDeclaration : Operation → Prop
  | .declareAttr .. => True
  | _ => False

/-- Whether an operation can give an object a parent. -/
def Operation.Adopts : Operation → Prop
  | .addParent .. | .clone .. => True
  | _ => False

namespace World

theorem lessens_perform (world : World) {operation : Operation}
    (declares : ¬ operation.IsDeclaration) (adopts : ¬ operation.Adopts) :
    world.Lessens (operation.perform world).world := by
  have before := Lessens.refl world
  cases operation with
  | create name kind owner location => exact before.create name kind owner location
  | clone source owner location => exact absurd trivial adopts
  | destroy object => exact before.destroy object
  | moveTo object destination => exact before.moveTo object destination
  | addParent child parent => exact absurd trivial adopts
  | removeParent child parent => exact before.removeParent child parent
  | setFlag object flag on => exact before.flush.modifySlot object fun _ => by rfl
  | setZone object zone =>
      exact ifNothingOrExists_world world.Lessens before
        (before.flush.modifySlot object fun _ => by rfl)
  | setLink object link => exact before.flush.modifySlot object fun _ => by rfl
  | setOwner object owner =>
      exact ifExists_world world.Lessens before (before.flush.modifySlot object fun _ => by rfl)
  | touch object => exact before.flush.modifySlot object fun _ => by rfl
  | declareAttr object name flags => exact absurd trivial declares
  | undeclareAttr object name => exact before.undeclareAttr object name
  | setValue object handle value => exact before.setValue object handle value
  | clearValue object handle => exact before.clearKey object handle.key
  | freeValues object => exact before.freeValues object
  | copyNoninherited destination source => exact before.copyNoninherited destination source
  | setLock limits player thing lock text => exact before.setLock limits player thing lock text

theorem retracts_perform (world : World) {operation : Operation}
    (declares : ¬ operation.IsDeclaration) : world.Retracts (operation.perform world).world := by
  by_cases adopts : operation.Adopts
  · cases operation with
    | addParent child parent => exact (Retracts.refl world).addParent child parent
    | clone source owner location => exact world.retracts_clone source owner location
    | _ => exact absurd adopts id
  · exact (world.lessens_perform declares adopts).toRetracts

end World
end WorldLocks
