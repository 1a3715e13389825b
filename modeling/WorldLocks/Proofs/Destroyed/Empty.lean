import WorldLocks.Proofs.Destroyed.Destroy

/-! What destroyed objects hold.  Destroying lets go of everything, and no operation makes a
destroyed object declare anything.  But values can be stored on it like on any other object, and
then it goes on holding them and their definitions. -/

set_option autoImplicit false

namespace WorldLocks

/-- Whether an operation leaves it to destruction to mark objects as destroyed. -/
def Operation.KeepsMarks (operation : Operation) : Prop :=
  ∀ object on, operation ≠ .setFlag object .going on

namespace World

variable {world : World} {object : Dbref} {storing : Prop}

/-- Whether an object declares nothing if it is destroyed, and holds no values unless some may have
been stored since. -/
def EmptyIfGone (object : Dbref) (storing : Prop) (world : World) : Prop :=
  ∀ record, world.slot? object = some record → record.hasFlag .going = true →
    record.declared = [] ∧ (storing ∨ record.values = [])

theorem EmptyIfGone.of_objects_eq {other : World} (empty : EmptyIfGone object storing world)
    (same : other.objects = world.objects) : EmptyIfGone object storing other := by
  intro record found
  rw [slot?_of_objects_eq same] at found
  exact empty record found

theorem EmptyIfGone.perform (empty : EmptyIfGone object storing world)
    (accounted : world.Accounted) (operation : Operation) (keeps : operation.KeepsMarks)
    (stores : operation.StoresOn object → world.IsGone object → storing) :
    EmptyIfGone object storing (operation.perform world).world := by
  have unmarked (on : Bool) (marked : operation.Marks object on) :
      on = true ↔ world.IsGone object :=
    absurd marked.eq_setFlag (keeps object on)
  intro later there going
  cases accounted.vacant_or_spares object operation storing unmarked stores with
  | inl left =>
      obtain ⟨record, found, vacant, values⟩ := left
      obtain rfl := Option.some.inj (there.symm.trans found)
      exact ⟨vacant.declared, .inr values⟩
  | inr spares =>
      obtain ⟨record, found, gone⟩ := spares.isGone_iff.mp ⟨later, there, going⟩
      obtain ⟨same, here, fades⟩ := spares.fades record found gone
      obtain rfl : same = later := Option.some.inj (here.symm.trans there)
      obtain ⟨declared, values⟩ := empty record found gone
      constructor
      · exact List.sublist_nil.mp (declared ▸ fades.declared)
      · cases values with
        | inl stored => exact .inl stored
        | inr nothing =>
            exact fades.values.imp_right fun fewer => List.sublist_nil.mp (nothing ▸ fewer)

theorem emptyIfGone_of_leadsWhile {config : WorldConfig} {clock : Int}
    (run : LeadsWhile (fun world operation => operation.KeepsMarks ∧
      (operation.StoresOn object → world.IsGone object → storing)) (.new config clock) world) :
    EmptyIfGone object storing world := by
  have start : EmptyIfGone object storing (.new config clock) :=
    fun record found => absurd (slot?_mem found) List.not_mem_nil
  refine And.right (a := world.Accounted) ?_
  apply run.invariant (fun world => world.Accounted ∧ EmptyIfGone object storing world)
    ⟨(IsStart.empty config clock).accounted, start⟩
  · rintro world operation ⟨keeps, stores⟩ ⟨accounted, empty⟩
    exact ⟨accounted.perform operation, empty.perform accounted operation keeps stores⟩
  · rintro world cache ⟨accounted, empty⟩
    exact ⟨accounted.sameLedger ⟨rfl, rfl⟩, empty.of_objects_eq rfl⟩
  · rintro world clock ⟨accounted, empty⟩
    exact ⟨accounted.sameLedger ⟨rfl, rfl⟩, empty.of_objects_eq rfl⟩

/-- In runs that mark objects as destroyed by destroying them only, destroyed objects declare
nothing; and those that nothing is stored on after their destruction refer to no definition. -/
theorem declared_eq_nil_of_isGone (config : WorldConfig) (clock : Int) :
    (∀ world, Leads Operation.KeepsMarks (.new config clock) world →
      ∀ object record, world.slot? object = some record → record.hasFlag .going = true →
        record.declared = []) ∧
      ∀ object world, LeadsWhile (fun world operation => operation.KeepsMarks ∧
          (operation.StoresOn object → ¬ world.IsGone object)) (.new config clock) world →
        ∀ record, world.slot? object = some record → record.hasFlag .going = true →
          record.values = [] ∧ ∀ serial, record.references serial = 0 := by
  constructor
  · intro world run object record found gone
    have empty : EmptyIfGone object True world :=
      emptyIfGone_of_leadsWhile (run.leadsWhile fun _ _ keeps => ⟨keeps, fun _ _ => trivial⟩)
    exact (empty record found gone).1
  · intro object world run record found gone
    obtain ⟨declared, values⟩ := emptyIfGone_of_leadsWhile run record found gone
    have nothing := values.resolve_left id
    refine ⟨nothing, fun serial => ?_⟩
    simp [ObjectRecord.references, declared, nothing]

/-- A player with a declaration and a value is destroyed, and refers to nothing any more. -/
theorem declared_eq_nil_of_isGone_player :
    let foo : AttrDef := ⟨.declared 0, "FOO".toList, .empty, .root⟩
    let history : List Operation :=
      [.create "Hall".toList .room .nothing .nothing,
        .create "Alice".toList .player .nothing .system,
        .declareAttr .root foo.name foo.flags]
    let before := (Operation.perform (Operation.performAll (.new {} 0) history)
      (.setValue .root foo ['x'])).world
    let world := ((Operation.destroy .root).perform before).world
    (before.slot? .root).map (·.references 0) = some 2 ∧
      ∃ record, world.slot? .root = some record ∧ record.hasFlag .going = true ∧
        record.declared = [] ∧ record.values = [] ∧ record.references 0 = 0 := by
  intro foo history before world
  have run : Leads (fun operation => operation.KeepsMarks ∧ ¬ operation.StoresOn .root)
      (.new {} 0) (Operation.performAll (.new {} 0) history) :=
    Leads.refl.performAll (by simp [history, Operation.KeepsMarks, Operation.StoresOn])
  have living : ¬ (Operation.performAll (.new {} 0) history).IsGone .root :=
    not_isGone_of_isValid (by decide +kernel)
  have stored : LeadsWhile (fun world operation => operation.KeepsMarks ∧
      (operation.StoresOn .root → ¬ world.IsGone .root)) (.new {} 0) before :=
    .perform _ ⟨by simp [Operation.KeepsMarks], fun _ => living⟩
      (run.leadsWhile fun _ _ ⟨keeps, stores⟩ => ⟨keeps, fun storing => absurd storing stores⟩)
  have destroyed : LeadsWhile _ (.new {} 0) world :=
    .perform (.destroy .root) ⟨by simp [Operation.KeepsMarks], False.elim⟩ stored
  have marked : Leads Operation.KeepsMarks (.new {} 0) world := by
    refine Leads.perform (.destroy .root) (by simp [Operation.KeepsMarks]) ?_
    refine Leads.perform (.setValue .root foo ['x']) (by simp [Operation.KeepsMarks]) ?_
    exact Leads.refl.performAll (by simp [history, Operation.KeepsMarks])
  have going : (world.slot? .root).any (·.hasFlag .going) = true := by decide +kernel
  obtain ⟨record, found, gone⟩ := (Option.any_eq_true _ _).mp going
  obtain ⟨declares, holds⟩ := declared_eq_nil_of_isGone {} 0
  obtain ⟨values, references⟩ := holds .root world destroyed record found gone
  exact ⟨by decide +kernel, record, found, gone, declares world marked .root record found gone,
    values, references 0⟩

/-- A value that is stored on a destroyed object stays there and keeps its definition alive, though
no object declares it any more. -/
theorem not_values_eq_nil_of_isGone :
    let foo : AttrDef := ⟨.declared 0, "FOO".toList, .empty, .system⟩
    let history : List Operation :=
      [.create "Hall".toList .room .nothing .nothing,
        .create "Box".toList .thing .nothing .nothing,
        .declareAttr .system foo.name foo.flags,
        .destroy .root,
        .setValue .root foo ['x'],
        .undeclareAttr .system foo.name]
    let world := Operation.performAll (.new {} 0) history
    Leads Operation.KeepsMarks (.new {} 0) world ∧
      (world.slot? .root).map (fun record => (record.hasFlag .going, record.values)) =
        some (true, [⟨foo.key, ['x']⟩]) ∧
      world.registry.count? 0 = some 1 ∧ world.declarations 0 = 0 := by
  intro foo history world
  refine ⟨Leads.refl.performAll ?legal, ?value, ?count, ?declared⟩
  case legal => simp [history, Operation.KeepsMarks]
  case value => decide +kernel
  case count => decide +kernel
  case declared => decide +kernel

end World
end WorldLocks
