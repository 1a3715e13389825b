import WorldLocks.Proofs.Matching
import WorldLocks.Proofs.Growth
import WorldLocks.Proofs.Relations.Containment

/-! Walks from one object in a place to the next.  The attribute Next is found by a search for the
object in the list that its own place keeps for objects of its kind.  Since places list what is in
them once and in the right list, following Next from the first object of a list comes through the
whole list and then to nothing. -/

set_option autoImplicit false

namespace WorldLocks

/-- In a list without repetitions, the object behind another one is the one that comes next. -/
theorem nextIn_split {before later : List Dbref} {object : Dbref} (unseen : object ∉ before) :
    nextIn object (before ++ object :: later) = later.head?.getD .nothing := by
  have passes : ∀ other ∈ before, decide (other ≠ object) = true := by
    intro other member
    simpa using fun same : other = object => unseen (same ▸ member)
  have stops : (before ++ object :: later).dropWhile (· ≠ object) = object :: later := by
    rw [List.dropWhile_append_of_pos passes, List.dropWhile_cons_of_neg (by simp)]
  rw [nextIn, stops, List.getElem?_cons_succ, List.head?_eq_getElem?]

namespace World

/-- A walk that reads Next on an object, goes on with the object that the reading means, and ends
when it reads the literal of nothing.  It visits some objects in order and leaves a world behind. -/
inductive WalksNext : World → Dbref → List Dbref → World → Prop where
  | last {world after : World} {object : Dbref}
      (reads : world.read object (.ofBuiltin .next) = (Dbref.nothing.literal, after)) :
      WalksNext world object [object] after
  | more {world after behind : World} {object next : Dbref} {text : Text} {later : List Dbref}
      (reads : world.read object (.ofBuiltin .next) = (text, after))
      (goesOn : text ≠ Dbref.nothing.literal) (means : Dbref.read? text = some next)
      (walks : WalksNext after next later behind) : WalksNext world object (object :: later) behind

variable {world : World} {object place : Dbref} {record slot : ObjectRecord}

/-- A walk from an object goes one way only. -/
theorem WalksNext.unique {visited others : List Dbref} {behind other : World}
    (walks : world.WalksNext object visited behind) (again : world.WalksNext object others other) :
    others = visited ∧ other = behind := by
  induction walks generalizing others other with
  | last reads =>
      cases again with
      | last readsAgain =>
          cases reads.symm.trans readsAgain
          exact ⟨rfl, rfl⟩
      | more readsAgain goesOn _ _ =>
          cases reads.symm.trans readsAgain
          exact absurd rfl goesOn
  | more reads goesOn means _ ih =>
      cases again with
      | last readsAgain =>
          cases reads.symm.trans readsAgain
          exact absurd rfl goesOn
      | more readsAgain _ meansAgain walksAgain =>
          cases reads.symm.trans readsAgain
          cases means.symm.trans meansAgain
          obtain ⟨rfl, rfl⟩ := ih walksAgain
          exact ⟨rfl, rfl⟩

/-- Reading Next looks at no stored value, so that nothing is remembered. -/
theorem read_next (found : world.slot? object = some record) :
    world.read object (.ofBuiltin .next) = ((world.nextSibling object record).literal, world) := by
  unfold read readWith
  rw [found]
  rfl

theorem nextSibling_of_nowhere (nowhere : record.location = .nothing) :
    world.nextSibling object record = .nothing := by
  rw [nextSibling, nowhere, slot?_nothing]

namespace ListsInhabitants

/-- Who is listed in a place has a slot of its own, lies there and belongs to that list. -/
theorem exists_slot (lists : world.ListsInhabitants) (placed : world.slot? place = some slot)
    {asExit : Bool} (listed : object ∈ slot.inside asExit) :
    ∃ record, world.slot? object = some record ∧ record.location = place ∧
      record.isExit = asExit := by
  have inside : object ∈ world.inside place asExit := by simpa [World.inside, placed] using listed
  obtain ⟨located, exit⟩ := lists.located inside
  cases found : world.slot? object with
  | none =>
      rw [location_of_slot?_none found] at located
      simp [← located] at placed
  | some record =>
      refine ⟨record, rfl, ?_, ?_⟩
      · simpa [location, found] using located
      · simpa [World.isExit, found] using exit

theorem nodup_inside (lists : world.ListsInhabitants) (placed : world.slot? place = some slot)
    (asExit : Bool) : (slot.inside asExit).Nodup := by
  have somewhere : place ≠ .nothing := fun nowhere => by simp [nowhere] at placed
  refine List.nodup_iff_count_le_one.mpr fun object => ?_
  have counted := lists place asExit object somewhere
  simp only [World.inside, placed, Option.elim_some] at counted
  rw [counted]
  split <;> omega

/-- What stands behind an object in the list that it is in is its next sibling. -/
theorem nextSibling (lists : world.ListsInhabitants) (placed : world.slot? place = some slot)
    {asExit : Bool} {before later : List Dbref}
    (listed : slot.inside asExit = before ++ object :: later) :
    ∃ record, world.slot? object = some record ∧
      world.nextSibling object record = later.head?.getD .nothing := by
  have member : object ∈ slot.inside asExit := by simp [listed]
  obtain ⟨record, found, located, exit⟩ := lists.exists_slot placed member
  have distinct := lists.nodup_inside placed asExit
  rw [listed] at distinct
  have unseen : object ∉ before := fun member =>
    (List.nodup_append.mp distinct).2.2 object member object List.mem_cons_self rfl
  have siblings : (if record.kind = .exit then slot.exits else slot.contents) =
      slot.inside asExit := by
    rw [← exit]
    unfold ObjectRecord.isExit ObjectRecord.inside
    by_cases exits : record.kind = .exit <;> simp [exits]
  refine ⟨record, found, ?_⟩
  rw [World.nextSibling, located, placed]
  dsimp only
  rw [siblings, listed, nextIn_split unseen]

end ListsInhabitants

theorem literal_ne_nothing {index : Nat} (fits : index ≤ Dbref.maxNumber) :
    (Dbref.ofIndex index).literal ≠ Dbref.nothing.literal := by
  intro same
  have reads := Dbref.read?_literal fits
  rw [same] at reads
  have nothing : Dbref.read? Dbref.nothing.literal = some .nothing := by decide
  exact Dbref.ofIndex_ne_nothing index (Option.some.inj (reads.symm.trans nothing))

/-- From any object of a list, the walk comes through the rest of the list. -/
theorem ListsInhabitants.walksThrough (lists : world.ListsInhabitants) (fits : world.Fits)
    (placed : world.slot? place = some slot) {asExit : Bool} {before later : List Dbref}
    (listed : slot.inside asExit = before ++ object :: later) :
    world.WalksNext object (object :: later) world := by
  induction later generalizing before object with
  | nil =>
      obtain ⟨record, found, nothing⟩ := lists.nextSibling placed listed
      apply WalksNext.last
      rw [read_next found, nothing]
      rfl
  | cons next later ih =>
      obtain ⟨record, found, sibling⟩ := lists.nextSibling placed listed
      have further : slot.inside asExit = (before ++ [object]) ++ next :: later := by simp [listed]
      -- The next object is one of the table, so its literal is read back as itself.
      have member : next ∈ slot.inside asExit := by simp [listed]
      obtain ⟨nextRecord, nextFound, -⟩ := lists.exists_slot placed member
      obtain ⟨index, rfl, present⟩ := slot?_eq_some.mp nextFound
      have small := fits.le_maxNumber (List.getElem?_eq_some_iff.mp present).1
      have reads := read_next found
      rw [sibling, List.head?_cons, Option.getD_some] at reads
      exact .more reads (literal_ne_nothing small) (Dbref.read?_literal small) (ih further)

/-- In a reachable world, following Next from the first object that a place lists among its contents
or among its exits visits that list in order, each object once, and then reads `#-1`; and Next of an
object that is nowhere is `#-1`. -/
theorem Reachable.walksNext_iff {allowed : Operation → Prop} (reachable : Reachable allowed world) :
    (∀ place slot, world.slot? place = some slot →
      ∀ siblings ∈ [slot.contents, slot.exits], siblings.Nodup ∧
        ∀ first later, siblings = first :: later → ∀ visited behind,
          world.WalksNext first visited behind ↔ visited = siblings ∧ behind = world) ∧
      ∀ object record, world.slot? object = some record → record.location = .nothing →
        world.read object (.ofBuiltin .next) = (['#', '-', '1'], world) := by
  have fits := reachable.fits
  obtain ⟨start, starts, run⟩ := reachable
  have lists := run.listsInhabitants starts
  constructor
  · intro place slot placed siblings member
    obtain ⟨asExit, rfl⟩ : ∃ asExit, siblings = slot.inside asExit := by
      rcases List.mem_pair.mp member with rfl | rfl
      · exact ⟨false, rfl⟩
      · exact ⟨true, rfl⟩
    refine ⟨lists.nodup_inside placed asExit, fun first later listed visited behind => ?_⟩
    have walks : world.WalksNext first (slot.inside asExit) world := by
      rw [listed]
      have whole : slot.inside asExit = [] ++ first :: later := listed
      exact lists.walksThrough fits placed whole
    refine ⟨fun again => walks.unique again, ?_⟩
    rintro ⟨rfl, rfl⟩
    exact walks
  · intro object record found nowhere
    rw [read_next found, nextSibling_of_nowhere nowhere]
    rfl

/-- A hall with an apple, a door and a banana, which lies behind the apple. -/
theorem walksNext_iff_fruit :
    ∃ world : World, Reachable (fun _ => True) world ∧
      world.WalksNext ⟨1⟩ [⟨1⟩, ⟨3⟩] world ∧ world.WalksNext ⟨2⟩ [⟨2⟩] world ∧
        (world.read .system (.ofBuiltin .next)).1 = ['#', '-', '1'] := by
  let history : List Operation :=
    [.create "Hall".toList .room .nothing .nothing,
      .create "apple".toList .thing .nothing .system,
      .create "Door".toList .exit .nothing .system,
      .create "banana".toList .thing .nothing .system]
  let world := Operation.performAll (.new {} 0) history
  have reachable : Reachable (fun _ => True) world :=
    ⟨_, .empty {} 0, Leads.refl.performAll fun _ _ => trivial⟩
  obtain ⟨walks, nowhere⟩ := reachable.walksNext_iff
  have shown : (world.slot? .system).map (fun hall => (hall.contents, hall.exits, hall.location)) =
      some ([⟨1⟩, ⟨3⟩], [⟨2⟩], .nothing) := by decide +kernel
  obtain ⟨hall, found, lists⟩ := Option.map_eq_some_iff.mp shown
  obtain ⟨contents, exits, location⟩ := by simpa only [Prod.mk.injEq] using lists
  obtain ⟨-, fruit⟩ := walks _ hall found hall.contents (by simp)
  obtain ⟨-, doors⟩ := walks _ hall found hall.exits (by simp)
  rw [contents] at fruit
  rw [exits] at doors
  exact ⟨world, reachable, (fruit _ _ rfl _ _).mpr ⟨rfl, rfl⟩, (doors _ _ rfl _ _).mpr ⟨rfl, rfl⟩,
    congrArg Prod.fst (nowhere _ hall found location)⟩

end World
end WorldLocks
