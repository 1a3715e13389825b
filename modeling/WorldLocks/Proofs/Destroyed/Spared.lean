import WorldLocks.Operation
import WorldLocks.Proofs.References.Lifecycle
import WorldLocks.Proofs.Relations.Basic

/-! What operations make of an object that they neither destroy nor mark as destroyed.  The record
of a destroyed object only loses things, except that values can still be stored on it.  An object
that is not destroyed goes on not being destroyed, and comes to declare at most one thing more. -/

set_option autoImplicit false

namespace WorldLocks

/-- Whether a slot holds a destroyed object. -/
def World.IsGone (world : World) (object : Dbref) : Prop :=
  ∃ record, world.slot? object = some record ∧ record.hasFlag .going = true

/-- The serial numbers that an object's slot declares. -/
def World.declaredBy (world : World) (object : Dbref) : List Nat :=
  (world.slot? object).elim [] (·.declared)

/-! ## Records -/

namespace ObjectRecord

/-- Whether one record comes from another by losing things, values aside if some may be stored. -/
structure Fades (storing : Prop) (before after : ObjectRecord) : Prop where
  going : after.hasFlag .going = before.hasFlag .going
  location : after.location = before.location ∨ after.location = .nothing
  contents : after.contents.Sublist before.contents
  exits : after.exits.Sublist before.exits
  parents : after.parents.Sublist before.parents
  children : after.children.Sublist before.children
  declared : after.declared.Sublist before.declared
  values : storing ∨ after.values.Sublist before.values

variable {storing : Prop} {before middle after record : ObjectRecord}

theorem Fades.refl (record : ObjectRecord) : record.Fades storing record where
  going := rfl
  location := .inl rfl
  contents := .refl _
  exits := .refl _
  parents := .refl _
  children := .refl _
  declared := .refl _
  values := .inr (.refl _)

theorem Fades.trans (one : before.Fades storing middle) (two : middle.Fades storing after) :
    before.Fades storing after where
  going := two.going.trans one.going
  location := by
    rcases two.location with same | nowhere
    · exact same ▸ one.location
    · exact .inr nowhere
  contents := two.contents.trans one.contents
  exits := two.exits.trans one.exits
  parents := two.parents.trans one.parents
  children := two.children.trans one.children
  declared := two.declared.trans one.declared
  values := by
    rcases one.values with stores | fewer
    · exact .inl stores
    · exact two.values.imp_right fun still => still.trans fewer

def possessions (record : ObjectRecord) :=
  (record.hasFlag .going, record.location, record.contents, record.exits, record.parents,
    record.children, record.declared, record.values)

theorem Fades.of_possessions (same : after.possessions = before.possessions) :
    before.Fades storing after := by
  simp only [possessions, Prod.mk.injEq] at same
  obtain ⟨going, location, contents, exits, parents, children, declared, values⟩ := same
  exact ⟨going, .inl location, contents ▸ .refl _, exits ▸ .refl _, parents ▸ .refl _,
    children ▸ .refl _, declared ▸ .refl _, .inr (values ▸ .refl _)⟩

theorem Fades.withValues {values : List AttrValue}
    (fewer : storing ∨ values.Sublist record.values) :
    record.Fades storing { record with values := values } :=
  { @Fades.refl storing record with values := fewer }

theorem Fades.undeclare (serial : Nat) :
    record.Fades storing { record with declared := record.declared.filter (· ≠ serial) } :=
  { Fades.refl record with declared := List.filter_sublist }

theorem Fades.dismiss (object : Dbref) : record.Fades storing (record.dismiss object) :=
  { Fades.refl record with contents := List.filter_sublist, exits := List.filter_sublist }

theorem Fades.withLocation_nothing : record.Fades storing (record.withLocation .nothing) :=
  { Fades.refl record with location := .inr rfl }

theorem Fades.dropParent (parent : Dbref) : record.Fades storing (record.dropParent parent) :=
  { Fades.refl record with parents := List.filter_sublist }

theorem Fades.dropChild (child : Dbref) : record.Fades storing (record.dropChild child) :=
  { Fades.refl record with children := List.filter_sublist }

theorem Fades.emptied : record.Fades storing record.emptied :=
  { Fades.refl record with
    contents := List.nil_sublist _, exits := List.nil_sublist _
    parents := List.nil_sublist _, children := List.nil_sublist _ }

end ObjectRecord

/-! ## Worlds -/

namespace World

variable {first world : World} {object : Dbref} {storing : Prop}

theorem slot?_of_objects_eq {other : World} (same : other.objects = world.objects)
    (object : Dbref) : other.slot? object = world.slot? object := by
  rw [slot?, slot?, same]

theorem not_isGone_of_isValid (valid : world.isValid object = true) : ¬ world.IsGone object := by
  rintro ⟨record, found, gone⟩
  obtain ⟨living, alive⟩ := Option.isSome_iff_exists.mp valid
  obtain ⟨here, going⟩ := record?_eq_some.mp alive
  obtain rfl : record = living := Option.some.inj (found.symm.trans here)
  exact Bool.false_ne_true (going.symm.trans gone)

theorem isValid_iff_not_isGone :
    world.isValid object = true ↔ (world.slot? object).isSome ∧ ¬ world.IsGone object := by
  constructor
  · intro valid
    exact ⟨isSome_slot?_of_isValid valid, not_isGone_of_isValid valid⟩
  · rintro ⟨present, living⟩
    obtain ⟨record, found⟩ := Option.isSome_iff_exists.mp present
    refine Option.isSome_iff_exists.mpr ⟨record, record?_eq_some.mpr ⟨found, ?_⟩⟩
    exact Bool.eq_false_iff.mpr fun gone => living ⟨record, found, gone⟩

/-- Whether an object, destroyed or not, comes off well on the way from one world to another: if it
is destroyed it only loses things, and if it is not it is not destroyed and declares at most one
thing more. -/
structure Spares (object : Dbref) (storing : Prop) (first second : World) : Prop where
  fades : ∀ record, first.slot? object = some record → record.hasFlag .going = true →
    ∃ later, second.slot? object = some later ∧ record.Fades storing later
  lives : ¬ first.IsGone object → ∀ later, second.slot? object = some later →
    later.hasFlag .going = false ∧
      later.declared.Sublist (first.declaredBy object ++ [first.registry.nextSerial])

namespace Spares

theorem refl (object : Dbref) (storing : Prop) (world : World) :
    Spares object storing world world where
  fades record found _ := ⟨record, found, .refl record⟩
  lives living later found := by
    constructor
    · exact Bool.eq_false_iff.mpr fun gone => living ⟨later, found, gone⟩
    · rw [declaredBy, found]
      exact List.sublist_append_left ..

theorem of_objects_eq {other : World} (spares : Spares object storing first world)
    (same : other.objects = world.objects) : Spares object storing first other where
  fades record found gone := by
    rw [slot?_of_objects_eq same]
    exact spares.fades record found gone
  lives living later found := by
    rw [slot?_of_objects_eq same] at found
    exact spares.lives living later found

theorem flush (spares : Spares object storing first world) :
    Spares object storing first world.flush :=
  spares.of_objects_eq rfl

theorem isGone (spares : Spares object storing first world) (gone : first.IsGone object) :
    world.IsGone object := by
  obtain ⟨record, found, going⟩ := gone
  obtain ⟨later, there, fades⟩ := spares.fades record found going
  exact ⟨later, there, fades.going.trans going⟩

theorem isGone_iff (spares : Spares object storing first world) :
    world.IsGone object ↔ first.IsGone object := by
  constructor
  · rintro ⟨later, found, gone⟩
    by_contra living
    exact Bool.false_ne_true ((spares.lives living later found).1.symm.trans gone)
  · exact spares.isGone

theorem living (spares : Spares object storing first world) {target : Dbref}
    (valid : world.isValid target = true) : target = object → ¬ first.IsGone object := by
  rintro rfl gone
  exact not_isGone_of_isValid valid (spares.isGone gone)

/-! ## Changes of one record -/

theorem modify (spares : Spares object storing first world) (target : Dbref)
    {change : ObjectRecord → ObjectRecord}
    (gone : target = object → first.IsGone object → ∀ record : ObjectRecord,
      record.hasFlag .going = true → record.Fades storing (change record))
    (living : target = object → ¬ first.IsGone object → ∀ record : ObjectRecord,
      record.hasFlag .going = false → (change record).hasFlag .going = false ∧
        (change record).declared.Sublist record.declared) :
    Spares object storing first (world.modify target change) := by
  by_cases apart : object = target
  -- The object's own record: what is destroyed may only lose, what is not may change more.
  · subst apart
    constructor
    · intro record found going
      obtain ⟨middle, there, fades⟩ := spares.fades record found going
      have still := fades.going.trans going
      refine ⟨change middle, ?_, fades.trans (gone rfl ⟨record, found, going⟩ middle still)⟩
      rw [slot?_modify_self, there, Option.map_some]
    · intro alive later found
      rw [slot?_modify_self] at found
      obtain ⟨middle, there, rfl⟩ := Option.map_eq_some_iff.mp found
      obtain ⟨still, declared⟩ := spares.lives alive middle there
      obtain ⟨stays, fewer⟩ := living rfl alive middle still
      exact ⟨stays, fewer.trans declared⟩
  · constructor
    · intro record found going
      rw [slot?_modify_of_ne _ apart]
      exact spares.fades record found going
    · intro alive later found
      rw [slot?_modify_of_ne _ apart] at found
      exact spares.lives alive later found

theorem modifyFading (spares : Spares object storing first world) (target : Dbref)
    {change : ObjectRecord → ObjectRecord}
    (fades : ∀ record : ObjectRecord, record.Fades storing (change record)) :
    Spares object storing first (world.modify target change) := by
  apply spares.modify target
  · exact fun _ _ record _ => fades record
  · intro _ _ record still
    exact ⟨(fades record).going.trans still, (fades record).declared⟩

theorem modifyLiving (spares : Spares object storing first world) {target : Dbref}
    (alive : target = object → ¬ first.IsGone object) {change : ObjectRecord → ObjectRecord}
    (stays : ∀ record : ObjectRecord, (change record).hasFlag .going = record.hasFlag .going)
    (declared : ∀ record : ObjectRecord, (change record).declared = record.declared) :
    Spares object storing first (world.modify target change) := by
  apply spares.modify target
  · exact fun own gone => absurd gone (alive own)
  · intro _ _ record still
    exact ⟨(stays record).trans still, declared record ▸ .refl _⟩

theorem modifyValues (spares : Spares object storing first world) (target : Dbref)
    (stores : target = object → first.IsGone object → storing)
    {change : ObjectRecord → ObjectRecord}
    (only : ∀ record : ObjectRecord,
      change record = { record with values := (change record).values }) :
    Spares object storing first (world.modify target change) := by
  apply spares.modify target
  · intro own gone record _
    rw [only]
    exact .withValues (.inl (stores own gone))
  · intro _ _ record still
    rw [only]
    exact ⟨still, .refl _⟩

theorem modifySlot (spares : Spares object storing first world) (target : Dbref)
    {change : ObjectRecord → ObjectRecord}
    (fades : ∀ record : ObjectRecord, record.Fades storing (change record)) :
    Spares object storing first (world.modifySlot target change).2 :=
  modifySlot_world (Spares object storing first) spares (spares.modifyFading target fades)

theorem modifyAll (spares : Spares object storing first world) (targets : List Dbref)
    {change : ObjectRecord → ObjectRecord}
    (fades : ∀ record : ObjectRecord, record.Fades storing (change record)) :
    Spares object storing first
      (targets.foldl (fun world target => world.modify target change) world) := by
  induction targets generalizing world with
  | nil => exact spares
  | cons target targets ih => exact ih (spares.modifyFading target fades)

theorem push (spares : Spares object storing first world) (name : Text) (kind : ObjectKind)
    (owner : Dbref) (now : Int) :
    Spares object storing first (world.push (.new name kind owner now)) := by
  constructor
  · intro record found going
    obtain ⟨later, there, fades⟩ := spares.fades record found going
    refine ⟨later, ?_, fades⟩
    rw [slot?_push, if_neg (ne_nextObject there), there]
  · intro alive later found
    rw [slot?_push] at found
    split at found
    · obtain rfl := Option.some.inj found
      exact ⟨FlagSet.contains_empty _, List.nil_sublist _⟩
    · exact spares.lives alive later found

/-! ## Values and declarations -/

variable (spares : Spares object storing first world)

include spares

theorem release (key : AttrKey) : Spares object storing first (world.release key) :=
  spares.of_objects_eq (by cases key <;> rfl)

theorem releaseAll (values : List AttrValue) :
    Spares object storing first (world.releaseAll values) := by
  induction values generalizing world with
  | nil => exact spares
  | cons entry values ih => exact ih (spares.release entry.key)

theorem addRef {key : AttrKey} {counted : World} (added : world.addRef key = .ok counted) :
    Spares object storing first counted := by
  cases key with
  | builtin which => exact Except.ok.inj added ▸ spares
  | declared serial =>
      unfold World.addRef at added
      dsimp only at added
      split at added
      · exact Except.ok.inj added ▸ spares.of_objects_eq rfl
      · cases added

theorem addRefs (values : List AttrValue) :
    Spares object storing first (world.addRefs values).2 := by
  induction values generalizing world with
  | nil => exact spares
  | cons entry values ih =>
      unfold World.addRefs
      split
      · exact spares
      · next counted added => exact ih (spares.addRef added)

theorem setValue (target : Dbref) (handle : AttrDef) (value : Text)
    (stores : target = object → first.IsGone object → value ≠ [] → storing) :
    Spares object storing first (world.setValue target handle value).2 := by
  unfold World.setValue
  dsimp only
  split
  · exact spares
  · split
    · exact spares.flush
    · split
      · exact spares.flush
      · refine release (spares.flush.modifyFading target fun record => ?_) handle.key
        exact .withValues (.inr List.eraseP_sublist)
      · next old stored filled =>
        exact spares.flush.modifyValues target (fun own gone => stores own gone filled)
          fun _ => by rfl
      · next filled =>
        split
        · exact spares.flush
        · next counted added =>
          exact (spares.flush.addRef added).modifyValues target
            (fun own gone => stores own gone filled) fun _ => by rfl

theorem clearKey (target : Dbref) (key : AttrKey) :
    Spares object storing first (world.clearKey target key).2 := by
  have cleared : Spares object storing first (world.flush.modify target (dropValues key)) :=
    spares.flush.modifyFading target fun _ => .withValues (.inr List.filter_sublist)
  unfold World.clearKey
  dsimp only
  split
  · exact spares.flush
  · split
    · exact cleared.release key
    · exact cleared

theorem freeValues (target : Dbref) : Spares object storing first (world.freeValues target).2 := by
  unfold World.freeValues
  dsimp only
  split
  · exact spares.flush
  · refine releaseAll (spares.flush.modifyFading target fun _ => ?_) _
    exact .withValues (.inr (List.nil_sublist _))

theorem copyNoninherited (destination source : Dbref)
    (stores : destination = object → first.IsGone object → storing) :
    Spares object storing first (world.copyNoninherited destination source).2 := by
  unfold World.copyNoninherited
  split
  · exact spares
  · refine Outcome.andThen_world (Spares object storing first) (spares.freeValues destination)
      fun _ _ freed => ?_
    refine Outcome.andThen_world (Spares object storing first) (freed.addRefs _)
      fun _ _ counted => ?_
    exact counted.modifyValues destination stores fun _ => by rfl

theorem undeclareAttr (target : Dbref) (name : Text) :
    Spares object storing first (world.undeclareAttr target name).2 := by
  unfold World.undeclareAttr
  split
  · exact spares
  · next definition _ =>
    split
    · exact spares
    · next serial _ =>
      dsimp only [done]
      have undeclared := spares.modifyFading target fun _ => .undeclare serial
      refine release ?_ definition.key
      generalize world.familyOf target = family
      generalize world.modify target _ = world at undeclared
      induction family generalizing world with
      | nil => exact undeclared
      | cons member family ih => exact ih _ (undeclared.clearKey member definition.key)

theorem undeclareAll (target : Dbref) (names : List Text) :
    Spares object storing first (world.undeclareAll target names).2 := by
  induction names generalizing world with
  | nil => exact spares
  | cons name names ih =>
      exact Outcome.andThen_world (Spares object storing first) (spares.undeclareAttr target name)
        fun _ _ undeclared => ih undeclared

/-! ## Places and parents -/

theorem putInto (target place : Dbref) (alive : target = object → ¬ first.IsGone object)
    (placeAlive : place = object → ¬ first.IsGone object) :
    Spares object storing first (world.putInto target place) := by
  unfold World.putInto
  split
  · next record _ =>
    have received : Spares object storing first
        (world.modify place (·.receive record.kind target)) := by
      apply spares.modifyLiving placeAlive
      · intro slot
        unfold ObjectRecord.receive
        split <;> rfl
      · intro slot
        unfold ObjectRecord.receive
        split <;> rfl
    exact received.modifyLiving alive (fun _ => by rfl) fun _ => by rfl
  · exact spares

theorem takeOut (target : Dbref) : Spares object storing first (world.takeOut target) := by
  unfold World.takeOut
  split
  · exact (spares.modifyFading _ fun _ => .dismiss target).modifyFading target
      fun _ => .withLocation_nothing
  · exact spares

theorem moveTo (target destination : Dbref) :
    Spares object storing first (world.moveTo target destination).2 := by
  refine ifExists_world_of_isValid (Spares object storing first) spares fun valid => ?_
  have out := spares.flush.takeOut target
  split
  · exact out
  · refine ifExists_world_of_isValid (Spares object storing first) spares fun validPlace => ?_
    split
    · exact spares
    · exact out.putInto target destination (spares.living valid) (spares.living validPlace)

theorem addParent (child parent : Dbref) :
    Spares object storing first (world.addParent child parent).2 := by
  refine ifExists_world_of_isValid (Spares object storing first) spares fun valid => ?_
  refine ifExists_world_of_isValid (Spares object storing first) spares fun validParent => ?_
  split
  · exact spares
  · dsimp only
    split
    · exact spares.flush
    · apply modifyLiving _ (spares.living validParent) (fun _ => by rfl) fun _ => by rfl
      exact spares.flush.modifyLiving (spares.living valid) (fun _ => by rfl) fun _ => by rfl

theorem addParents (child : Dbref) (parents : List Dbref) :
    Spares object storing first (world.addParents child parents).2 := by
  induction parents generalizing world with
  | nil => exact spares
  | cons parent later ih =>
      exact Outcome.andThen_world (Spares object storing first) (spares.addParent child parent)
        fun _ _ added => ih added

theorem removeParent (child parent : Dbref) :
    Spares object storing first (world.removeParent child parent).2 :=
  Outcome.andThen_world (Spares object storing first)
    (spares.flush.modifySlot child fun _ => .dropParent parent)
    fun _ _ dropped => dropped.modifySlot parent fun _ => .dropChild child

theorem letGo (target : Dbref) : Spares object storing first (world.letGo target) := by
  unfold World.letGo
  split
  · exact spares
  · have emptied := spares.modifyFading target fun _ => .emptied
    exact ((emptied.modifyAll _ fun _ => .dropChild target).modifyAll _
      fun _ => .dropParent target).modifyAll _ fun _ => .withLocation_nothing

/-! ## Objects -/

theorem create (name : Text) (kind : ObjectKind) (owner location : Dbref) :
    Spares object storing first (world.create name kind owner location).2 := by
  refine ifNothingOrExists_world_of_isValid (Spares object storing first) spares fun place => ?_
  refine ifNothingOrExists_world (Spares object storing first) spares ?_
  split
  · exact spares.flush
  · dsimp only [done]
    have pushed := spares.flush.push name kind
      (if owner = .nothing then world.nextObject else owner) world.flush.clock
    split
    · exact pushed
    · next somewhere =>
      apply pushed.putInto
      · rintro rfl ⟨record, found, going⟩
        obtain ⟨later, there, -⟩ := spares.fades record found going
        exact ne_nextObject there rfl
      · exact spares.living (place.resolve_left somewhere)

theorem clone (source owner location : Dbref) :
    Spares object storing first (world.clone source owner location).2 := by
  unfold World.clone
  split
  · exact spares
  · next template living =>
    have created := spares.create template.name template.kind owner location
    have made := @create_eq_nextObject world template.name template.kind owner location
    generalize world.create template.name template.kind owner location = outcome at created made
    obtain ⟨_ | new, grown⟩ := outcome
    · exact created
    · have alive : new = object → ¬ first.IsGone object := by
        rintro rfl ⟨record, found, going⟩
        obtain ⟨later, there, -⟩ := spares.fades record found going
        exact ne_nextObject there (made rfl)
      have likened : Spares object storing first (grown.modify new fun record =>
          { record with
            flags := template.flags, zone := template.zone, link := template.link }) :=
        created.modify new (fun own gone => absurd gone (alive own))
          fun _ _ _ _ => ⟨(record?_eq_some.mp living).2, .refl _⟩
      change Spares object storing first (Outcome.andThen (World.addParents _ _ _) _).2
      refine Outcome.andThen_world (Spares object storing first)
        (likened.addParents new template.parents) fun _ _ related => ?_
      exact Outcome.andThen_world (Spares object storing first)
        (related.copyNoninherited new source fun own gone => absurd gone (alive own))
        fun _ _ copied => copied

theorem setLock (limits : Limits) (player thing : Dbref) (lock : AttrDef) (text : Text) :
    Spares object storing first (world.setLock limits player thing lock text).world := by
  unfold World.setLock
  dsimp only
  split
  · exact spares
  · next compiled ready =>
    have valid : world.isValid thing = true := by
      unfold lockToSet at ready
      split at ready
      · cases ready
      · next valid => simpa using valid
    refine Outcome.andThen_world (Spares object storing first) ?_ fun _ _ stored => ?_
    · exact spares.setValue thing lock _ fun own gone _ => absurd gone (spares.living valid own)
    · exact stored.flush.modifySlot thing fun _ => .of_possessions rfl

theorem destroy {target : Dbref}
    (spared : target = object → target = .system ∨ world.isValid target = false) :
    Spares object storing first (world.destroy target).2 := by
  unfold World.destroy
  split
  · exact spares
  · next inhabited =>
    refine ifExists_world_of_isValid (Spares object storing first) spares fun valid => ?_
    have apart : target ≠ object := fun own =>
      (spared own).elim inhabited fun invalid => Bool.false_ne_true (invalid.symm.trans valid)
    refine Outcome.andThen_world (Spares object storing first) (spares.undeclareAll target _)
      fun _ _ undeclared => ?_
    refine Outcome.andThen_world (Spares object storing first) (undeclared.freeValues target)
      fun _ _ freed => ?_
    exact ((freed.takeOut target).letGo target).modify target (fun own => absurd own apart)
      fun own => absurd own apart

omit spares in
theorem declareAttr (world : World) (target : Dbref) (name : Text) (flags : FlagSet AttrFlag) :
    Spares object storing world (world.declareAttr target name flags).2 := by
  have same := Spares.refl object storing world
  unfold World.declareAttr
  split
  · exact same
  · split
    · exact same
    · next record living =>
      split
      · dsimp only [done]
        split
        · exact same.of_objects_eq rfl
        · exact same
      · split
        · exact same
        · split
          · exact same
          · dsimp only [done]
            generalize change : (fun record : ObjectRecord =>
              { record with declared := record.declared ++ [world.registry.nextSerial] }) = extend
            by_cases own : target = object
            -- Only something that is not destroyed declares, so nothing destroyed gains by it.
            · subst own
              constructor
              · intro slot found going
                obtain ⟨here, alive⟩ := record?_eq_some.mp living
                obtain rfl : slot = record := Option.some.inj (found.symm.trans here)
                exact absurd (going.symm.trans alive) (by decide)
              · intro alive later found
                rw [slot?_modify_self] at found
                obtain ⟨slot, here, rfl⟩ := Option.map_eq_some_iff.mp found
                obtain ⟨there, still⟩ := record?_eq_some.mp living
                obtain rfl : slot = record := Option.some.inj (here.symm.trans there)
                subst change
                refine ⟨still, ?_⟩
                rw [declaredBy, there, Option.elim_some]
            · have registered : Spares object storing world
                  { world with registry := (world.registry.declare name flags target).2 } :=
                same.of_objects_eq rfl
              exact registered.modify target (fun here => absurd here own)
                fun here => absurd here own

theorem setFlag {target : Dbref} {flag : ObjectFlag} {on : Bool}
    (marks : target = object → flag = .going → (on = true ↔ first.IsGone object)) :
    Spares object storing first (world.setFlag target flag on).2 := by
  have kept (record : ObjectRecord) (same : flag = .going → on = record.hasFlag .going) :
      ({ record with flags := if on then record.flags.insert flag else record.flags.erase flag } :
        ObjectRecord).hasFlag .going = record.hasFlag .going := by
    unfold ObjectRecord.hasFlag at same ⊢
    by_cases mark : flag = .going
    · cases on <;> simp [FlagSet.contains_insert, FlagSet.contains_erase, ← same mark]
    · cases on <;> simp [FlagSet.contains_insert, FlagSet.contains_erase, mark]
  refine modifySlot_world (Spares object storing first) spares.flush (spares.flush.modify target
    (fun own gone record going => ?_) fun own alive record still => ?_)
  · have stays := kept record fun mark => ((marks own mark).mpr gone).trans going.symm
    exact { ObjectRecord.Fades.refl record with going := stays }
  · have off (mark : flag = .going) : on = false :=
      Bool.eq_false_iff.mpr fun set => alive ((marks own mark).mp set)
    exact ⟨(kept record fun mark => (off mark).trans still.symm).trans still, .refl _⟩

end Spares

/-! ## Operations -/

end World

namespace Operation

/-- Whether an operation marks an object as destroyed, or as not destroyed, otherwise than by
destroying it. -/
def Marks (object : Dbref) (on : Bool) : Operation → Prop
  | .setFlag target flag set => target = object ∧ flag = .going ∧ set = on
  | _ => False

theorem Marks.eq_setFlag {object : Dbref} {on : Bool} {operation : Operation}
    (marks : operation.Marks object on) : operation = .setFlag object .going on := by
  cases operation with
  | setFlag target flag set =>
      obtain ⟨rfl, rfl, rfl⟩ := marks
      rfl
  | _ => cases marks

/-- Whether an operation stores values on an object, if it is not refused. -/
def StoresOn (object : Dbref) : Operation → Prop
  | .setValue target _ value => target = object ∧ value ≠ []
  | .copyNoninherited destination _ => destination = object
  | _ => False

end Operation

namespace World

variable {world : World} {object : Dbref} {storing : Prop}

/-- Every operation, refused or not, spares an object that it does not destroy and does not mark
otherwise than the object is. -/
theorem spares_perform (operation : Operation)
    (destroys : operation = .destroy object → object = .system ∨ world.isValid object = false)
    (marks : ∀ on, operation.Marks object on → (on = true ↔ world.IsGone object))
    (stores : operation.StoresOn object → world.IsGone object → storing) :
    Spares object storing world (operation.perform world).world := by
  have same := Spares.refl object storing world
  cases operation with
  | create name kind owner location => exact same.create name kind owner location
  | clone source owner location => exact same.clone source owner location
  | destroy target =>
      refine same.destroy ?_
      rintro rfl
      exact destroys rfl
  | moveTo target destination => exact same.moveTo target destination
  | addParent child parent => exact same.addParent child parent
  | removeParent child parent => exact same.removeParent child parent
  | setFlag target flag on => exact same.setFlag fun own mark => marks on ⟨own, mark, rfl⟩
  | setZone target zone =>
      refine ifNothingOrExists_world (Spares object storing world) same ?_
      exact same.flush.modifySlot target fun _ => .of_possessions rfl
  | setLink target link => exact same.flush.modifySlot target fun _ => .of_possessions rfl
  | setOwner target owner =>
      refine ifExists_world (Spares object storing world) same ?_
      exact same.flush.modifySlot target fun _ => .of_possessions rfl
  | touch target => exact same.flush.modifySlot target fun _ => .of_possessions rfl
  | declareAttr target name flags => exact .declareAttr world target name flags
  | undeclareAttr target name => exact same.undeclareAttr target name
  | setValue target handle value =>
      exact same.setValue target handle value fun own gone filled => stores ⟨own, filled⟩ gone
  | clearValue target handle => exact same.clearKey target handle.key
  | freeValues target => exact same.freeValues target
  | copyNoninherited destination source =>
      exact same.copyNoninherited destination source fun own gone => stores own gone
  | setLock limits player thing lock text => exact same.setLock limits player thing lock text

end World
end WorldLocks
