import WorldLocks.Proofs.Copying
import WorldLocks.Proofs.Declarations.Shadows

/-! Clones.  A clone is created in its place, is given the parents of the object that it is made
from, and gets the values that it would not inherit.  So it reads as that object does, but for an
inherited value that this object holds itself, and but for worlds with cycles, where a search from
the clone may come to the object that it is made from. -/

set_option autoImplicit false

namespace WorldLocks

/-- The record of a clone.  Name, kind, flags, zone and link stay. -/
def ObjectRecord.cloned (template : ObjectRecord) (owner location : Dbref)
    (values : List AttrValue) (now : Int) : ObjectRecord :=
  { template with
    owner := owner
    location := location
    contents := []
    exits := []
    parents := template.parents.eraseDups
    children := []
    declared := []
    values := values
    modified := now
    created := now }

/-- The record of an object that gets its looks from another one. -/
def ObjectRecord.liken (record template : ObjectRecord) : ObjectRecord :=
  { record with flags := template.flags, zone := template.zone, link := template.link }

/-- The record of an object with one child more if it is one of some parents. -/
def ObjectRecord.adopt (record : ObjectRecord) (itself child : Dbref) (parents : List Dbref) :
    ObjectRecord :=
  if itself ∈ parents then { record with children := record.children ++ [child] } else record

/-- The record of another object once an object with some record has been cloned: the location lists
the clone inside, and the parents list it among their children. -/
def ObjectRecord.greet (record template : ObjectRecord) (itself location clone : Dbref) :
    ObjectRecord :=
  (if itself = location then record.receive template.kind clone else record).adopt itself clone
    template.parents

namespace ObjectRecord

variable {record template : ObjectRecord} {itself location clone : Dbref}

@[simp] theorem values_greet :
    (record.greet template itself location clone).values = record.values := by
  unfold greet adopt receive
  split_ifs <;> rfl

@[simp] theorem parents_greet :
    (record.greet template itself location clone).parents = record.parents := by
  unfold greet adopt receive
  split_ifs <;> rfl

end ObjectRecord

namespace World

variable {world before after : World} {loose : Nat → Nat}
  {object child source owner location : Dbref} {record template : ObjectRecord}

/-! ## Counting -/

/-- Whether a world has the objects, the cache and the definitions of another one, but with a
reference more for each of some values. -/
structure Counts (before after : World) (values : List AttrValue) : Prop where
  objects : after.objects = before.objects
  cache : after.cache = before.cache
  definitions : after.registry.definition? = before.registry.definition?
  counts : ∀ serial, after.registry.count? serial =
    (before.registry.count? serial).map (· + valueReferences values serial)

theorem counts_nil (world : World) : world.Counts world [] where
  objects := rfl
  cache := rfl
  definitions := rfl
  counts := by simp

theorem Counts.cons {entry : AttrValue} {values : List AttrValue}
    (added : before.addRef entry.key = .ok world) (later : world.Counts after values) :
    before.Counts after (entry :: values) := by
  cases key : entry.key with
  | builtin which =>
      rw [key] at added
      obtain rfl : before = world := Except.ok.inj added
      refine ⟨later.objects, later.cache, later.definitions, ?_⟩
      intro serial
      rw [later.counts, valueReferences_cons, key, AttrKey.weight_builtin, Nat.zero_add]
  | declared target =>
      rw [key] at added
      cases counting : before.registry.addRef? target with
      | none => simp [addRef, counting] at added
      | some registry =>
          obtain rfl : { before with registry := registry } = world := by
            simpa [addRef, counting] using added
          refine ⟨later.objects, later.cache, ?_, ?_⟩
          · exact later.definitions.trans (Registry.definition?_addRef? counting)
          · intro serial
            rw [later.counts, Registry.count?_addRef? counting, valueReferences_cons, key,
              AttrKey.weight]
            by_cases same : serial = target
            · subst same
              simp [Nat.add_assoc, Function.comp_def]
            · simp [same, Ne.symm same]

theorem counts_addRefs {values : List AttrValue} (counted : (world.addRefs values).1 = .ok ()) :
    world.Counts (world.addRefs values).2 values := by
  induction values generalizing world with
  | nil => exact world.counts_nil
  | cons entry values ih =>
      unfold World.addRefs at counted ⊢
      cases added : world.addRef entry.key with
      | error error => simp [added, refuse] at counted
      | ok next =>
          simp only [added] at counted ⊢
          exact .cons added (ih counted)

/-! ## New objects -/

theorem create_of_ok {name : Text} {kind : ObjectKind}
    (created : (world.create name kind owner location).1 = .ok object) :
    let pushed := world.flush.push
      (.new name kind (if owner = .nothing then object else owner) world.clock)
    (location = .nothing ∨ world.isValid location = true) ∧
      (world.create name kind owner location).2 =
        if location = .nothing then pushed else pushed.putInto object location := by
  obtain rfl := create_eq_nextObject created
  unfold create at created ⊢
  obtain ⟨place, same⟩ := ifNothingOrExists_of_ok created
  rw [same] at created ⊢
  obtain ⟨-, same⟩ := ifNothingOrExists_of_ok created
  rw [same] at created ⊢
  refine ⟨place, ?_⟩
  split at created
  · cases created
  · next room =>
    rw [if_neg room]
    rfl

/-- A new object is in its place, which lists it as one of its exits or as something else. -/
theorem slot?_create {name : Text} {kind : ObjectKind}
    (created : (world.create name kind owner location).1 = .ok object) (other : Dbref) :
    (world.create name kind owner location).2.slot? other =
      if other = object then
        some ((ObjectRecord.new name kind (if owner = .nothing then object else owner)
          world.clock).withLocation location)
      else (world.slot? other).map fun record =>
        if other = location then record.receive kind object else record := by
  obtain ⟨place, result⟩ := create_of_ok created
  obtain rfl := create_eq_nextObject created
  have pushed (record : ObjectRecord) (other : Dbref) : (world.flush.push record).slot? other =
      if other = world.nextObject then some record else world.slot? other :=
    slot?_push world.flush record other
  rw [result]
  split
  · next nowhere =>
    subst nowhere
    rw [pushed]
    split
    · rfl
    · cases found : world.slot? other with
      | none => rfl
      | some record =>
          have somewhere : other ≠ .nothing := by
            rintro rfl
            simp at found
          simp [somewhere]
  · next somewhere =>
    have apart : world.nextObject ≠ location := by
      rintro rfl
      obtain ⟨record, living⟩ := Option.isSome_iff_exists.mp (place.resolve_left somewhere)
      exact ne_nextObject (record?_eq_some.mp living).1 rfl
    rw [slot?_putInto ((pushed _ _).trans (if_pos rfl)), pushed]
    by_cases new : other = world.nextObject
    · simp [new, apart]
    · simp only [if_neg new]
      rfl

theorem registry_create {name : Text} {kind : ObjectKind}
    (created : (world.create name kind owner location).1 = .ok object) :
    (world.create name kind owner location).2.registry = world.registry := by
  rw [(create_of_ok created).2]
  split
  · rfl
  · exact (SameLedger.putInto ..).registry

/-! ## Parents -/

/-- The parents that a child does not have yet, in order and each once. -/
def lacking (known parents : List Dbref) : List Dbref := (parents.filter (· ∉ known)).eraseDups

theorem lacking_nil (parents : List Dbref) : lacking [] parents = parents.eraseDups := by
  simp [lacking]

theorem mem_lacking {known parents : List Dbref} {parent : Dbref} :
    parent ∈ lacking known parents ↔ parent ∈ parents ∧ parent ∉ known := by
  simp [lacking]

theorem lacking_cons_of_mem {known : List Dbref} {parent : Dbref} (listed : parent ∈ known)
    (parents : List Dbref) : lacking known (parent :: parents) = lacking known parents := by
  simp [lacking, listed]

theorem lacking_cons_of_not_mem {known : List Dbref} {parent : Dbref} (new : parent ∉ known)
    (parents : List Dbref) :
    lacking known (parent :: parents) = parent :: lacking (known ++ [parent]) parents := by
  rw [lacking, List.filter_cons_of_pos (by simpa using new), List.eraseDups_cons,
    List.filter_filter, lacking]
  congr 2
  apply List.filter_congr
  intro other _
  simp [beq_eq_decide, and_comm]

/-- Whether one world is another one in which a child has got some more parents. -/
structure Adopts (before after : World) (child : Dbref) (parents : List Dbref) : Prop where
  registry : after.registry = before.registry
  itself : after.slot? child = (before.slot? child).map fun record =>
    { record with parents := record.parents ++ parents }
  others : ∀ other, other ≠ child →
    after.slot? other = (before.slot? other).map (·.adopt other child parents)

theorem Adopts.nil (world : World) (child : Dbref) : world.Adopts world child [] where
  registry := rfl
  itself := by simp
  others := by simp [ObjectRecord.adopt]

theorem Adopts.cons {parent : Dbref} {parents : List Dbref} (apart : parent ≠ child)
    (new : parent ∉ parents)
    (later : (world.flush.linkParent child parent).Adopts after child parents) :
    world.Adopts after child (parent :: parents) where
  registry := by
    rw [later.registry, linkParent, registry_modify, registry_modify]
    rfl
  itself := by
    rw [later.itself, linkParent, slot?_modify_of_ne _ apart.symm, slot?_modify_self, slot?_flush,
      Option.map_map]
    simp [Function.comp_def]
  others := by
    intro other different
    rw [later.others other different, linkParent, slot?_modify, slot?_modify_of_ne _ different,
      slot?_flush, Option.map_map]
    congr 1
    funext record
    by_cases same : other = parent
    · subst same
      simp [ObjectRecord.adopt, new]
    · simp [ObjectRecord.adopt, same]

theorem adopts_addParents {parents : List Dbref} (found : world.slot? child = some record)
    (linked : (world.addParents child parents).1 = .ok ()) :
    world.Adopts (world.addParents child parents).2 child (lacking record.parents parents) := by
  induction parents generalizing world record with
  | nil => exact .nil world child
  | cons parent parents ih =>
      unfold World.addParents at linked ⊢
      have listed : world.IsChildOf child parent ↔ parent ∈ record.parents := by
        simp [IsChildOf, parentsOf, found]
      obtain ⟨error, refused⟩ | ⟨unrelated, ⟨known, step⟩ | ⟨new, -, step⟩⟩ :=
        world.addParent_cases child parent
      · rw [refused] at linked
        cases linked
      · rw [step] at linked ⊢
        rw [lacking_cons_of_mem (listed.mp known)]
        have later := @ih world.flush record found linked
        exact ⟨later.registry, later.itself, later.others⟩
      · rw [step] at linked ⊢
        have apart : parent ≠ child := by
          rintro rfl
          exact unrelated .refl
        have next : (world.flush.linkParent child parent).slot? child =
            some { record with parents := record.parents ++ [parent] } := by
          rw [linkParent, slot?_modify_of_ne _ apart.symm, slot?_modify_self, slot?_flush, found,
            Option.map_some]
        rw [lacking_cons_of_not_mem (mt listed.mpr new)]
        exact .cons apart (by simp [mem_lacking]) (ih next linked)

/-! ## Values -/

/-- Whether one world is another one in which an object has been given some values. -/
structure Stocks (before after : World) (object : Dbref) (values : List AttrValue) : Prop where
  itself : after.slot? object = (before.slot? object).map (·.withValues values)
  others : ∀ other, other ≠ object → after.slot? other = before.slot? other
  definitions : after.registry.definition? = before.registry.definition?
  counts : ∀ serial, after.registry.count? serial =
    (before.registry.count? serial).map (· + valueReferences values serial)
  forgets : after.cache.entries = []

/-- An object that holds nothing releases nothing when it gets its values. -/
theorem stocks_copyNoninherited (found : world.slot? object = some record)
    (blank : record.values = []) (holds : world.slot? source = some template)
    (copied : (world.copyNoninherited object source).1 = .ok ()) :
    world.Stocks (world.copyNoninherited object source).2 object (world.uninherited source) := by
  have freed : (world.freeValues object).2 = world.flush.modify object (·.withValues []) := by
    simp only [freeValues, slot?_flush, found, blank]
    rfl
  rw [copyNoninherited_eq found holds, freed] at copied ⊢
  obtain ⟨_, counted, adds, -⟩ := Outcome.andThen_ok copied
  have counts := counts_addRefs (congrArg Prod.fst adds)
  rw [adds] at counts ⊢
  change (world.flush.modify object _).Counts counted _ at counts
  change world.Stocks (counted.modify object _) object _
  have slots (other : Dbref) : counted.slot? other =
      (world.flush.modify object (·.withValues [])).slot? other := by
    rw [slot?, counts.objects]
    rfl
  constructor
  case itself =>
    rw [slot?_modify_self, slots, slot?_modify_self, slot?_flush, Option.map_map]
    rfl
  case others =>
    intro other apart
    rw [slot?_modify_of_ne _ apart, slots, slot?_modify_of_ne _ apart, slot?_flush]
  case definitions =>
    rw [registry_modify, counts.definitions, registry_modify]
    rfl
  case counts =>
    intro serial
    rw [registry_modify, counts.counts, registry_modify]
    rfl
  case forgets =>
    rw [cache_modify, counts.cache, cache_modify]
    rfl

/-! ## Clones -/

/-- Whether one world is another one with a new object that has its place, its parents and its looks
from some record, and no values yet. -/
structure Likens (before after : World) (template : ObjectRecord)
    (owner location object : Dbref) : Prop where
  number : object = before.nextObject
  itself : after.slot? object = some (template.cloned (if owner = .nothing then object else owner)
    location [] before.clock)
  others : ∀ other, other ≠ object → after.slot? other = (before.slot? other).map
    (·.greet template other location object)
  registry : after.registry = before.registry

/-- What cloning an object with some record comes to. -/
structure Clones (before after : World) (template : ObjectRecord)
    (source owner location object : Dbref) : Prop where
  number : object = before.nextObject
  itself : after.slot? object = some (template.cloned (if owner = .nothing then object else owner)
    location (before.uninherited source) before.clock)
  others : ∀ other, other ≠ object → after.slot? other = (before.slot? other).map
    (·.greet template other location object)
  definitions : after.registry.definition? = before.registry.definition?
  counts : ∀ serial, after.registry.count? serial = (before.registry.count? serial).map
    (· + valueReferences (before.uninherited source) serial)
  forgets : after.cache.entries = []

theorem likens_addParents (created : (before.create template.name template.kind owner location).1 =
    .ok object) {grown : World}
    (grows : (before.create template.name template.kind owner location).2 = grown)
    (linked : ((grown.modify object (·.liken template)).addParents object template.parents).1 =
      .ok ()) :
    before.Likens ((grown.modify object (·.liken template)).addParents object template.parents).2
      template owner location object := by
  have slots := slot?_create created
  have registry := registry_create created
  rw [grows] at slots registry
  have itself : (grown.modify object (·.liken template)).slot? object =
      some { template.cloned (if owner = .nothing then object else owner) location [] before.clock
        with parents := [] } := by
    rw [slot?_modify_self, slots, if_pos rfl]
    rfl
  have adopts := adopts_addParents itself linked
  rw [lacking_nil] at adopts
  constructor
  case number => exact create_eq_nextObject created
  case itself =>
    rw [adopts.itself, itself]
    rfl
  case others =>
    intro other apart
    rw [adopts.others other apart, slot?_modify_of_ne _ apart, slots, if_neg apart, Option.map_map]
    simp only [ObjectRecord.adopt, List.mem_eraseDups]
    rfl
  case registry => rw [adopts.registry, registry_modify, registry]

theorem keyHasFlag_congr (same : after.registry.definition? = before.registry.definition?)
    (key : AttrKey) (flag : AttrFlag) : after.keyHasFlag key flag = before.keyHasFlag key flag := by
  cases key with
  | builtin which => rfl
  | declared serial => rw [keyHasFlag, keyHasFlag, definition?, definition?, same]

/-- The source still holds what it did before it was likened to. -/
theorem Likens.uninherited_eq (likens : before.Likens after template owner location object)
    (holds : before.slot? source = some template) :
    after.uninherited source = before.uninherited source := by
  have apart : source ≠ object := likens.number ▸ ne_nextObject holds
  have there := likens.others source apart
  rw [holds, Option.map_some] at there
  rw [uninherited, uninherited, valuesOf_eq holds, valuesOf_eq there, ObjectRecord.values_greet]
  apply List.filter_congr
  intro entry _
  rw [keyHasFlag_congr (congrArg Registry.definition? likens.registry)]

theorem Likens.clones (likens : before.Likens world template owner location object)
    (stocks : world.Stocks after object (before.uninherited source)) :
    before.Clones after template source owner location object where
  number := likens.number
  itself := by
    rw [stocks.itself, likens.itself]
    rfl
  others := by
    intro other apart
    rw [stocks.others other apart, likens.others other apart]
  definitions := by rw [stocks.definitions, likens.registry]
  counts := by
    intro serial
    rw [stocks.counts, likens.registry]
  forgets := stocks.forgets

theorem clones_clone (living : before.record? source = some template)
    (cloned : (before.clone source owner location).1 = .ok object) :
    before.Clones (before.clone source owner location).2 template source owner location object := by
  obtain ⟨holds, -⟩ := record?_eq_some.mp living
  unfold clone at cloned ⊢
  rw [living] at cloned ⊢
  dsimp only at cloned ⊢
  obtain ⟨made, _, creates, -⟩ := Outcome.andThen_ok cloned
  have created := congrArg Prod.fst creates
  rw [Outcome.andThen_of_ok created] at cloned ⊢
  obtain ⟨_, _, links, -⟩ := Outcome.andThen_ok cloned
  have linked := congrArg Prod.fst links
  rw [Outcome.andThen_of_ok linked] at cloned ⊢
  obtain ⟨_, _, copies, -⟩ := Outcome.andThen_ok cloned
  have copied := congrArg Prod.fst copies
  rw [Outcome.andThen_of_ok copied] at cloned ⊢
  obtain rfl : made = object := Except.ok.inj cloned
  have likens := likens_addParents created rfl linked
  have there := likens.others source (likens.number ▸ ne_nextObject holds)
  rw [holds, Option.map_some] at there
  have stocks := stocks_copyNoninherited likens.itself rfl there copied
  rw [likens.uninherited_eq holds] at stocks
  exact likens.clones stocks

/-! ## Readings -/

namespace Clones

theorem apart (clones : before.Clones after template source owner location object)
    (holds : before.slot? source = some template) : source ≠ object :=
  clones.number ▸ ne_nextObject holds

theorem parentsOf_clone (clones : before.Clones after template source owner location object) :
    after.parentsOf object = template.parents.eraseDups := by
  rw [parentsOf, clones.itself]
  rfl

theorem parentsOf_of_ne (clones : before.Clones after template source owner location object)
    {other : Dbref} (apart : other ≠ object) : after.parentsOf other = before.parentsOf other := by
  rw [parentsOf, parentsOf, clones.others other apart]
  cases before.slot? other with
  | none => rfl
  | some record => simp

/-- Where there are no cycles, a search for what a clone inherits comes to the same objects as one
for what its source inherits: it never comes back to either of the two. -/
theorem tour_ancestors (clones : before.Clones after template source owner location object)
    (holds : before.slot? source = some template)
    (childless : ∀ other, ¬ before.IsChildOf other object) (acyclic : Acyclic before.IsChildOf) :
    Tour after.parentsOf [object] (after.parentsOf object) (after.ancestors source) := by
  have parents : after.parentsOf source = template.parents := by
    rw [clones.parentsOf_of_ne (clones.apart holds), parentsOf, holds, Option.elim_some]
  have tour := World.tour_ancestors after source
  rw [parents] at tour
  rw [clones.parentsOf_clone]
  apply Tour.eraseDups
  have old {ancestor : Dbref} (above : Relation.TransGen before.IsChildOf source ancestor) :
      ancestor ≠ object := by
    rintro rfl
    obtain ⟨child, -, last⟩ := Relation.TransGen.tail'_iff.mp above
    exact childless child last
  apply tour.congr_seen (Relation.TransGen before.IsChildOf source)
  · intro parent member
    apply Relation.TransGen.single
    rwa [IsChildOf, ← clones.parentsOf_of_ne (clones.apart holds), parents]
  · intro ancestor above next linked
    rw [clones.parentsOf_of_ne (old above)] at linked
    exact above.tail linked
  · intro ancestor above
    have notSource : ancestor ≠ source := by
      rintro rfl
      exact acyclic _ above
    simp [notSource, old above]

theorem inheritedValue?_eq (clones : before.Clones after template source owner location object)
    (holds : before.slot? source = some template)
    (childless : ∀ other, ¬ before.IsChildOf other object) (acyclic : Acyclic before.IsChildOf)
    (key : AttrKey) : after.inheritedValue? object key = after.inheritedValue? source key := by
  rw [inheritedValue?_of_tour (clones.tour_ancestors holds childless acyclic),
    inheritedValue?_eq_findSome?]

end Clones

/-- A clone holds a value of its source unless this would be inherited. -/
theorem value?_cloned (holds : before.slot? source = some template) (now : Int) (key : AttrKey) :
    (template.cloned owner location (before.uninherited source) now).value? key =
      if before.keyHasFlag key .inherit then none else template.value? key := by
  have values : (template.cloned owner location (before.uninherited source) now).values =
      template.values.filter fun entry => !before.keyHasFlag entry.key .inherit := by
    rw [← valuesOf_eq holds]
    rfl
  unfold ObjectRecord.value?
  rw [values, List.find?_filter]
  by_cases inherits : before.keyHasFlag key .inherit
  · rw [if_pos inherits, Option.map_eq_none_iff, List.find?_eq_none]
    intro entry _
    by_cases same : entry.key = key
    · simp [same, inherits]
    · simp [same]
  · rw [if_neg inherits]
    congr 2
    funext entry
    by_cases same : entry.key = key
    · simp [same, inherits]
    · simp [same]

theorem Provides.definition?_key {definition : AttrDef} (wellFormed : world.registry.WellFormed)
    (provides : world.Provides definition) :
    world.definition? definition.key = some definition := by
  obtain ⟨which, rfl⟩ | ⟨serial, registered⟩ := provides
  · rfl
  · rw [wellFormed.key_of_definition? registered]
    exact registered

/-- A clone reads as its source does, unless the source holds a value that is inherited. -/
theorem Clones.read_eq (clones : before.Clones after template source owner location object)
    (holds : before.slot? source = some template) (wellFormed : before.registry.WellFormed)
    (childless : ∀ other, ¬ before.IsChildOf other object) (acyclic : Acyclic before.IsChildOf)
    {definition : AttrDef} (provides : after.Provides definition)
    (stored : definition.isComputed = false)
    (passed : definition.hasFlag .inherit = false ∨ template.value? definition.key = none) :
    (after.read object definition).1 = (after.read source definition).1 := by
  have providedBefore : before.Provides definition := by
    unfold Provides at provides ⊢
    rwa [clones.definitions] at provides
  have flag : before.keyHasFlag definition.key .inherit = definition.hasFlag .inherit := by
    rw [keyHasFlag, providedBefore.definition?_key wellFormed, Option.any_some]
  have there := clones.others source (clones.apart holds)
  rw [holds, Option.map_some] at there
  have same : (template.greet template source location object).value? definition.key =
      template.value? definition.key := by
    unfold ObjectRecord.value?
    rw [ObjectRecord.values_greet]
  have forgotten (other : Dbref) : after.cache.lookup? other definition.key = none :=
    ReadCache.lookup?_of_entries_nil clones.forgets other definition.key
  change (after.readWith after.cache object definition).1 =
    (after.readWith after.cache source definition).1
  rw [readWith_of_looksUp clones.itself stored, readWith_of_looksUp there stored, forgotten,
    forgotten, Option.getD_none, Option.getD_none, storedValue, storedValue, value?_cloned holds,
    clones.inheritedValue?_eq holds childless acyclic, flag, same]
  cases passed with
  | inl copied => simp [copied]
  | inr missing => simp [missing]

/-- What is copied is counted once more, since an object holds one value for each definition. -/
theorem Clones.exists_count (clones : before.Clones after template source owner location object)
    (holds : before.slot? source = some template) (balanced : before.Balanced loose) {serial : Nat}
    {entry : AttrValue} (copied : entry ∈ before.uninherited source)
    (key : entry.key = .declared serial) :
    ∃ count, before.registry.count? serial = some count ∧
      after.registry.count? serial = some (count + 1) := by
  have part : (before.uninherited source).Sublist template.values := by
    rw [← valuesOf_eq holds]
    exact List.filter_sublist
  have tidy : (template.withValues (before.uninherited source)).Tidy :=
    (balanced.tidy template (slot?_mem holds)).sublist part
  have once : valueReferences (before.uninherited source) serial = 1 := by
    have references := tidy.valueReferences_eq serial
    have positive := valueReferences_pos copied key
    split at references
    · exact references
    · exact absurd references (Nat.pos_iff_ne_zero.mp positive)
  have refers := references_pos (slot?_mem holds)
    (Nat.add_pos_right _ (valueReferences_pos (part.subset copied) key))
  have counted := balanced.counts serial
  rw [countOf_of_pos (Nat.add_pos_left refers _)] at counted
  exact ⟨_, counted, by rw [clones.counts, counted, once, Option.map_some]⟩

/-- In every world that can be reached, a clone is all that it should be and leaves the others as
they are, but for its parents and its place that list it, and the definitions of the values that are
copied have one reference more.  Where there are no cycles it reads as its source does for every
current definition that is not computed, unless the source holds a value that is inherited. -/
theorem Reachable.clone_readsAlike {allowed : Operation → Prop}
    (reachable : Reachable allowed before)
    (cloned : (before.clone source owner location).1 = .ok object) :
    let after := (before.clone source owner location).2
    ∃ template, before.record? source = some template ∧
      before.Clones after template source owner location object ∧
      (∀ serial, (∃ entry ∈ before.uninherited source, entry.key = .declared serial) →
        ∃ count, before.registry.count? serial = some count ∧
          after.registry.count? serial = some (count + 1)) ∧
      (Acyclic before.IsChildOf → ∀ definition, after.Provides definition →
        definition.isComputed = false →
        definition.hasFlag .inherit = false ∨ template.value? definition.key = none →
          (after.read object definition).1 = (after.read source definition).1) := by
  intro after
  obtain ⟨loose, balanced⟩ := reachable.covered
  obtain ⟨start, starts, run⟩ := reachable
  have lists := starts.listsChildren.rearranged (run.rearranged starts)
  cases living : before.record? source with
  | none => simp [clone, living, refuse] at cloned
  | some template =>
      have clones := clones_clone living cloned
      obtain ⟨holds, -⟩ := record?_eq_some.mp living
      have childless (other : Dbref) : ¬ before.IsChildOf other object :=
        clones.number ▸ lists.not_isChildOf_nextObject other
      refine ⟨template, rfl, clones, ?_, ?_⟩
      · rintro serial ⟨entry, copied, key⟩
        exact clones.exists_count holds balanced copied key
      · intro acyclic definition provides stored passed
        exact clones.read_eq holds balanced.wellFormed childless acyclic provides stored passed

/-- A lamp that inherits one attribute and holds a value for another one: its clone inherits the
one and gets the value of the other, to which there are then three references. -/
theorem clone_readsAlike_lamp :
    let foo : AttrDef := ⟨.declared 0, "FOO".toList, .ofList [.inherit], ⟨2⟩⟩
    let bar : AttrDef := ⟨.declared 1, "BAR".toList, .empty, ⟨3⟩⟩
    ∃ world : World, Reachable (fun _ => True) world ∧ Acyclic world.IsChildOf ∧
      (world.clone ⟨3⟩ .root .system).1 = .ok ⟨4⟩ ∧
      let after := (world.clone ⟨3⟩ .root .system).2
      after.Provides foo ∧ after.Provides bar ∧
        (∃ template, world.record? ⟨3⟩ = some template ∧ template.value? foo.key = none ∧
          world.Clones after template ⟨3⟩ .root .system ⟨4⟩) ∧
        after.registry.count? 1 = some 3 ∧
        (after.read ⟨4⟩ foo).1 = (after.read ⟨3⟩ foo).1 ∧
        (after.read ⟨4⟩ bar).1 = (after.read ⟨3⟩ bar).1 ∧
        [foo, bar].map (fun definition => (after.read ⟨4⟩ definition).1) =
          ["kept".toList, "own".toList] := by
  intro foo bar
  let history : List Operation :=
    [.create "Hall".toList .room .nothing .nothing,
      .create "Alice".toList .player .nothing .system,
      .create "Light".toList .thing .root .system,
      .create "Lamp".toList .thing .root .system,
      .declareAttr ⟨2⟩ "FOO".toList (.ofList [.inherit]),
      .declareAttr ⟨3⟩ "BAR".toList .empty,
      .addParent ⟨3⟩ ⟨2⟩,
      .setValue ⟨2⟩ foo "kept".toList,
      .setValue ⟨3⟩ bar "own".toList]
  have run : Leads (fun _ => True) (.new {} 0) (Operation.performAll (.new {} 0) history) :=
    Leads.refl.performAll fun _ _ => trivial
  have reachable : Reachable (fun _ => True) (Operation.performAll (.new {} 0) history) :=
    ⟨_, .empty {} 0, run⟩
  have acyclic := acyclic_isChildOf_rearranged (isLoose_new {} 0).acyclic_isChildOf
    (run.rearranged (.empty {} 0))
  let world := Operation.performAll (.new {} 0) history
  let after := (world.clone ⟨3⟩ .root .system).2
  have cloned : (world.clone ⟨3⟩ .root .system).1 = .ok ⟨4⟩ := by decide +kernel
  have providesFoo : after.Provides foo := .inr ⟨0, by decide +kernel⟩
  have providesBar : after.Provides bar := .inr ⟨1, by decide +kernel⟩
  obtain ⟨template, found, clones, -, reads⟩ := reachable.clone_readsAlike cloned
  have missing : template.value? foo.key = none := by
    have shown : (world.record? ⟨3⟩).map (·.value? foo.key) = some none := by decide +kernel
    rw [found] at shown
    exact Option.some.inj shown
  exact ⟨world, reachable, acyclic, cloned, providesFoo, providesBar,
    ⟨template, found, missing, clones⟩, by decide +kernel,
    reads acyclic foo providesFoo (by decide) (.inr missing),
    reads acyclic bar providesBar (by decide) (.inl (by decide)), by decide +kernel⟩

end World
end WorldLocks
