import WorldLocks.Proofs.Loading
import WorldLocks.Proofs.Reachable
import WorldLocks.Proofs.Table

/-! The table only grows, and no further than there are numbers.  What is in a slot keeps its name,
its kind and the time of its creation, so a number never comes to mean another object. -/

set_option autoImplicit false

namespace WorldLocks

/-- What never changes about an object. -/
def ObjectRecord.identity (record : ObjectRecord) : Text × ObjectKind × Int :=
  (record.name, record.kind, record.created)

/-- Every object of one world is in another one, and that world fits if the first one does. -/
structure World.Grows (first second : World) : Prop where
  kept : ∀ object record, first.slot? object = some record →
    ∃ later, second.slot? object = some later ∧ later.identity = record.identity
  fits : first.Fits → second.Fits

namespace World

variable {start world : World}

theorem Grows.refl (world : World) : world.Grows world :=
  ⟨fun _ record found => ⟨record, found, rfl⟩, id⟩

theorem Grows.trans {middle : World} (one : start.Grows middle) (two : middle.Grows world) :
    start.Grows world := by
  refine ⟨fun object record found => ?_, fun fits => two.fits (one.fits fits)⟩
  obtain ⟨between, there, same⟩ := one.kept object record found
  obtain ⟨later, here, kept⟩ := two.kept object between there
  exact ⟨later, here, kept.trans same⟩

theorem Grows.of_objects_eq {other : World} (grows : start.Grows world)
    (same : other.objects = world.objects) : start.Grows other := by
  refine grows.trans ⟨fun object record found => ⟨record, ?_, rfl⟩, fun fits => ?_⟩
  · rw [← found]
    simp only [slot?, same]
  · rwa [Fits, same]

theorem Grows.modify (grows : start.Grows world) (object : Dbref)
    {change : ObjectRecord → ObjectRecord}
    (keeps : ∀ record, (change record).identity = record.identity) :
    start.Grows (world.modify object change) := by
  refine grows.trans ⟨fun other record found => ?_, fun fits => ?_⟩
  · by_cases same : other = object
    · subst same
      exact ⟨change record, by rw [slot?_modify_self, found, Option.map_some], keeps record⟩
    · exact ⟨record, by rw [slot?_modify_of_ne _ same, found], rfl⟩
  · rwa [Fits, length_modify]

/-- A new slot is added only while there is a number for it. -/
theorem Grows.push (grows : start.Grows world) (room : world.isFull = false)
    (record : ObjectRecord) : start.Grows (world.push record) := by
  refine grows.trans ⟨fun object old found => ⟨old, ?_, rfl⟩, fun _ => ?_⟩
  · obtain ⟨index, rfl, present⟩ := slot?_eq_some.mp found
    rw [slot?_ofIndex, World.push]
    exact List.getElem?_append_left (List.getElem?_eq_some_iff.mp present).1 ▸ present
  · have free : ¬ Dbref.maxNumber < world.objects.length := of_decide_eq_false room
    simp only [Fits, World.push, List.length_append, List.length_singleton]
    omega

theorem Grows.foldl {α : Type} {step : World → α → World}
    (steps : ∀ world item, start.Grows world → start.Grows (step world item))
    (grows : start.Grows world) (items : List α) : start.Grows (items.foldl step world) := by
  induction items generalizing world with
  | nil => exact grows
  | cons item items ih => exact ih (steps world item grows)

/-! ## Values and declarations -/

theorem Grows.release (grows : start.Grows world) (key : AttrKey) :
    start.Grows (world.release key) := by
  cases key with
  | builtin which => exact grows
  | declared serial => exact grows.of_objects_eq rfl

theorem Grows.releaseAll (grows : start.Grows world) (values : List AttrValue) :
    start.Grows (world.releaseAll values) :=
  Grows.foldl (fun _ entry grown => grown.release entry.key) grows values

theorem Grows.addRef {key : AttrKey} {counted : World} (grows : start.Grows world)
    (added : world.addRef key = .ok counted) : start.Grows counted := by
  cases key with
  | builtin which => exact Except.ok.inj added ▸ grows
  | declared serial =>
      unfold World.addRef at added
      dsimp only at added
      split at added
      · exact Except.ok.inj added ▸ grows.of_objects_eq rfl
      · cases added

theorem Grows.flush (grows : start.Grows world) : start.Grows world.flush :=
  grows.of_objects_eq rfl

theorem Grows.setValue (grows : start.Grows world) (object : Dbref) (handle : AttrDef)
    (value : Text) : start.Grows (world.setValue object handle value).2 := by
  unfold World.setValue
  dsimp only
  split
  · exact grows
  · split
    · exact grows.flush
    · split
      · exact grows.flush
      · exact (grows.flush.modify object fun _ => by rfl).release handle.key
      · exact grows.flush.modify object fun _ => by rfl
      · split
        · exact grows.flush
        · next counted added => exact (grows.flush.addRef added).modify object fun _ => by rfl

theorem Grows.clearKey (grows : start.Grows world) (object : Dbref) (key : AttrKey) :
    start.Grows (world.clearKey object key).2 := by
  unfold World.clearKey
  dsimp only
  split
  · exact grows.flush
  · split
    · exact (grows.flush.modify object fun _ => by rfl).release key
    · exact grows.flush.modify object fun _ => by rfl

theorem Grows.freeValues (grows : start.Grows world) (object : Dbref) :
    start.Grows (world.freeValues object).2 := by
  unfold World.freeValues
  dsimp only
  split
  · exact grows.flush
  · exact (grows.flush.modify object fun _ => by rfl).releaseAll _

theorem Grows.addRefs (grows : start.Grows world) (values : List AttrValue) :
    start.Grows (world.addRefs values).2 := by
  induction values generalizing world with
  | nil => exact grows
  | cons entry values ih =>
      unfold World.addRefs
      split
      · exact grows
      · next counted added => exact ih (grows.addRef added)

theorem Grows.copyNoninherited (grows : start.Grows world) (destination source : Dbref) :
    start.Grows (world.copyNoninherited destination source).2 := by
  unfold World.copyNoninherited
  split
  · exact grows
  · refine Outcome.andThen_world start.Grows (grows.freeValues destination) fun _ _ freed => ?_
    refine Outcome.andThen_world start.Grows (freed.addRefs _) fun _ _ counted => ?_
    exact counted.modify destination fun _ => by rfl

theorem Grows.declareAttr (grows : start.Grows world) (object : Dbref) (name : Text)
    (flags : FlagSet AttrFlag) : start.Grows (world.declareAttr object name flags).2 := by
  unfold World.declareAttr
  split
  · exact grows
  · split
    · exact grows
    · split
      · dsimp only [done]
        split
        · exact grows.of_objects_eq rfl
        · exact grows
      · split
        · exact grows
        · split
          · exact grows
          · have registered : start.Grows
                { world with registry := (world.registry.declare name flags object).2 } :=
              grows.of_objects_eq rfl
            exact Grows.modify registered object fun _ => by rfl

theorem Grows.undeclareAttr (grows : start.Grows world) (object : Dbref) (name : Text) :
    start.Grows (world.undeclareAttr object name).2 := by
  unfold World.undeclareAttr
  split
  · exact grows
  · split
    · exact grows
    · refine Grows.release (Grows.foldl (fun _ member grown => grown.clearKey member _) ?_ _) _
      exact grows.modify object fun _ => by rfl

/-! ## Places, parents and settings -/

theorem Grows.modifySlot (grows : start.Grows world) (object : Dbref)
    {change : ObjectRecord → ObjectRecord}
    (keeps : ∀ record, (change record).identity = record.identity) :
    start.Grows (world.modifySlot object change).2 :=
  modifySlot_world start.Grows grows (grows.modify object keeps)

theorem Grows.putInto (grows : start.Grows world) (object place : Dbref) :
    start.Grows (world.putInto object place) := by
  unfold World.putInto
  split
  · refine (grows.modify place fun record => ?_).modify object fun _ => by rfl
    unfold ObjectRecord.receive
    split <;> rfl
  · exact grows

theorem Grows.takeOut (grows : start.Grows world) (object : Dbref) :
    start.Grows (world.takeOut object) := by
  unfold World.takeOut
  split
  · exact (grows.modify _ fun _ => by rfl).modify object fun _ => by rfl
  · exact grows

theorem Grows.moveTo (grows : start.Grows world) (object destination : Dbref) :
    start.Grows (world.moveTo object destination).2 := by
  refine ifExists_world start.Grows grows ?_
  split
  · exact grows.flush.takeOut object
  · refine ifExists_world start.Grows grows ?_
    split
    · exact grows
    · exact (grows.flush.takeOut object).putInto object destination

theorem Grows.addParent (grows : start.Grows world) (child parent : Dbref) :
    start.Grows (world.addParent child parent).2 := by
  refine ifExists_world start.Grows grows (ifExists_world start.Grows grows ?_)
  split
  · exact grows
  · dsimp only
    split
    · exact grows.flush
    · exact (grows.flush.modify child fun _ => by rfl).modify parent fun _ => by rfl

theorem Grows.addParents (grows : start.Grows world) (child : Dbref) (parents : List Dbref) :
    start.Grows (world.addParents child parents).2 := by
  induction parents generalizing world with
  | nil => exact grows
  | cons parent later ih =>
      exact Outcome.andThen_world start.Grows (grows.addParent child parent) fun _ _ grown => ih grown

theorem Grows.removeParent (grows : start.Grows world) (child parent : Dbref) :
    start.Grows (world.removeParent child parent).2 :=
  Outcome.andThen_world start.Grows (grows.flush.modifySlot child fun _ => by rfl)
    fun _ _ grown => grown.modifySlot parent fun _ => by rfl

/-! ## Objects -/

theorem Grows.create (grows : start.Grows world) (name : Text) (kind : ObjectKind)
    (owner location : Dbref) : start.Grows (world.create name kind owner location).2 := by
  refine ifNothingOrExists_world start.Grows grows (ifNothingOrExists_world start.Grows grows ?_)
  split
  · exact grows.flush
  · next free =>
    have room : world.flush.isFull = false := Bool.eq_false_iff.mpr free
    have pushed (record : ObjectRecord) : start.Grows (world.flush.push record) :=
      grows.flush.push room record
    dsimp only [done]
    split
    · exact pushed _
    · exact (pushed _).putInto _ location

theorem Grows.clone (grows : start.Grows world) (source owner location : Dbref) :
    start.Grows (world.clone source owner location).2 := by
  unfold World.clone
  split
  · exact grows
  · refine Outcome.andThen_world start.Grows (grows.create ..) fun object _ created => ?_
    refine Outcome.andThen_world start.Grows (Grows.addParents ?_ object _) fun _ _ related => ?_
    · exact created.modify object fun _ => by rfl
    exact Outcome.andThen_world start.Grows (related.copyNoninherited object source)
      fun _ _ copied => copied

theorem Grows.letGo (grows : start.Grows world) (object : Dbref) :
    start.Grows (world.letGo object) := by
  unfold World.letGo
  split
  · exact grows
  · refine Grows.foldl (fun _ inside grown => grown.modify inside fun _ => by rfl) ?_ _
    refine Grows.foldl (fun _ child grown => grown.modify child fun _ => by rfl) ?_ _
    refine Grows.foldl (fun _ parent grown => grown.modify parent fun _ => by rfl) ?_ _
    exact grows.modify object fun _ => by rfl

theorem Grows.undeclareAll (grows : start.Grows world) (object : Dbref) (names : List Text) :
    start.Grows (world.undeclareAll object names).2 := by
  induction names generalizing world with
  | nil => exact grows
  | cons name later ih =>
      exact Outcome.andThen_world start.Grows (grows.undeclareAttr object name)
        fun _ _ grown => ih grown

theorem Grows.destroy (grows : start.Grows world) (object : Dbref) :
    start.Grows (world.destroy object).2 := by
  unfold World.destroy
  split
  · exact grows
  · refine ifExists_world start.Grows grows ?_
    refine Outcome.andThen_world start.Grows (grows.undeclareAll object _) fun _ _ undeclared => ?_
    refine Outcome.andThen_world start.Grows (undeclared.freeValues object) fun _ _ freed => ?_
    exact ((freed.takeOut object).letGo object).modify object fun _ => by rfl

theorem Grows.setLock (grows : start.Grows world) (limits : Limits) (player thing : Dbref)
    (lock : AttrDef) (text : Text) :
    start.Grows (world.setLock limits player thing lock text).world := by
  unfold World.setLock
  dsimp only
  split
  · exact grows
  · exact Outcome.andThen_world start.Grows (grows.setValue thing lock _)
      fun _ _ stored => stored.flush.modifySlot thing fun _ => by rfl

/-! ## Runs -/

theorem Grows.perform (grows : start.Grows world) (operation : Operation) :
    start.Grows (operation.perform world).world := by
  cases operation with
  | create name kind owner location => exact grows.create name kind owner location
  | clone source owner location => exact grows.clone source owner location
  | destroy object => exact grows.destroy object
  | moveTo object destination => exact grows.moveTo object destination
  | addParent child parent => exact grows.addParent child parent
  | removeParent child parent => exact grows.removeParent child parent
  | setFlag object flag on => exact grows.flush.modifySlot object fun _ => by rfl
  | setZone object zone =>
      exact ifNothingOrExists_world start.Grows grows
        (grows.flush.modifySlot object fun _ => by rfl)
  | setLink object link => exact grows.flush.modifySlot object fun _ => by rfl
  | setOwner object owner =>
      exact ifExists_world start.Grows grows (grows.flush.modifySlot object fun _ => by rfl)
  | touch object => exact grows.flush.modifySlot object fun _ => by rfl
  | declareAttr object name flags => exact grows.declareAttr object name flags
  | undeclareAttr object name => exact grows.undeclareAttr object name
  | setValue object handle value => exact grows.setValue object handle value
  | clearValue object handle => exact grows.clearKey object handle.key
  | freeValues object => exact grows.freeValues object
  | copyNoninherited destination source => exact grows.copyNoninherited destination source
  | setLock limits player thing lock text => exact grows.setLock limits player thing lock text

/-- What is in a slot stays there through every run. -/
theorem Leads.grows {allowed : Operation → Prop} (run : Leads allowed start world) :
    start.Grows world :=
  run.invariant start.Grows (.refl start) (fun _ operation _ grown => grown.perform operation)
    (fun _ _ grown => grown.of_objects_eq rfl) fun _ _ grown => grown.of_objects_eq rfl

theorem Grows.enlistChild {listed : World} (grows : start.Grows world) {object : Dbref}
    {parents : List Dbref} (listing : world.enlistChild object parents = .ok listed) :
    start.Grows listed := by
  induction parents generalizing world with
  | nil => exact Except.ok.inj listing ▸ grows
  | cons parent later ih =>
      unfold World.enlistChild at listing
      split at listing
      · exact ih (grows.modify parent fun _ => by rfl) listing
      · cases listing

theorem Grows.loadRelations {loaded : World} (grows : start.Grows world) {object : Dbref}
    {fixture : ObjectFixture} (loads : loadRelations world object fixture = .ok loaded) :
    start.Grows loaded := by
  obtain ⟨listed, listing, rfl⟩ := loadRelations_ok loads
  have enlisted := (grows.modify object fun _ => by rfl).enlistChild listing
  unfold World.settle
  split
  · exact enlisted
  · exact enlisted.putInto object fixture.location

theorem IsStart.fits (starts : IsStart world) : world.Fits := by
  cases starts with
  | empty config clock => exact Nat.zero_le _
  | loaded loads =>
      refine ofFixture_invariant Fits loads ?unrelated ?relations ?declarations ?values
      case unrelated =>
        intro loose start
        obtain ⟨short, rfl⟩ := unrelated_eq_ok.mp start
        simpa [Fits] using short
      case relations =>
        exact fun world _ _ _ fits loads => ((Grows.refl world).loadRelations loads).fits fits
      case declarations =>
        exact fun world object name flags => ((Grows.refl world).declareAttr object name flags).fits
      case values =>
        exact fun world object handle value => ((Grows.refl world).setValue object handle value).fits

/-- Every slot of a reachable world has a number. -/
theorem Reachable.fits {allowed : Operation → Prop} (reachable : Reachable allowed world) :
    world.Fits := by
  obtain ⟨start, starts, run⟩ := reachable
  exact run.grows.fits starts.fits

end World
end WorldLocks
