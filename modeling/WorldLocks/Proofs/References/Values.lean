import WorldLocks.Proofs.References.Basic

/-! Every write of attribute values keeps the counts exact, whether it is refused or not. -/

set_option autoImplicit false

namespace WorldLocks

/-! ## Lists of values -/

theorem valueReferences_congr {first second : List AttrValue}
    (keys : first.map (·.key) = second.map (·.key)) (serial : Nat) :
    valueReferences first serial = valueReferences second serial := by
  have byKeys : ∀ values : List AttrValue, valueReferences values serial =
      (values.map (·.key)).countP fun key => key = .declared serial := by
    intro values
    rw [List.countP_map]
    rfl
  rw [byKeys, byKeys, keys]

theorem valueReferences_eraseP {values : List AttrValue} {key : AttrKey}
    (present : ∃ entry ∈ values, entry.key = key) (serial : Nat) :
    valueReferences (values.eraseP (·.key = key)) serial + key.weight serial =
      valueReferences values serial := by
  obtain ⟨entry, member, here⟩ := present
  obtain ⟨erased, before, after, -, same, split, rest⟩ :=
    @List.exists_of_eraseP _ (fun entry => decide (entry.key = key)) _ _ member
      (decide_eq_true here)
  obtain rfl : erased.key = key := of_decide_eq_true same
  rw [rest, split, valueReferences_append, valueReferences_append, valueReferences_cons]
  omega

theorem filter_key_eq_self {values : List AttrValue} {key : AttrKey}
    (missing : ∀ entry ∈ values, entry.key ≠ key) :
    values.filter (·.key ≠ key) = values := by
  refine List.filter_eq_self.mpr fun entry member => ?_
  simpa using missing entry member

/-- With one value a key at most, dropping a key drops one reference if there was a value. -/
theorem valueReferences_filter {values : List AttrValue} (unique : (values.map (·.key)).Nodup)
    (key : AttrKey) (serial : Nat) :
    valueReferences (values.filter (·.key ≠ key)) serial +
        (if values.any (·.key = key) then key.weight serial else 0) =
      valueReferences values serial := by
  induction values with
  | nil => simp
  | cons entry values ih =>
      obtain ⟨fresh, uniqueRest⟩ := List.nodup_cons.mp unique
      by_cases here : entry.key = key
      · have missing : ∀ other ∈ values, other.key ≠ key := by
          intro other member same
          exact fresh (List.mem_map.mpr ⟨other, member, same.trans here.symm⟩)
        have rest := filter_key_eq_self missing
        simp only [ne_eq, List.filter_cons, here, not_true_eq_false, decide_false, Bool.false_eq_true,
          if_false, List.any_cons, decide_true, Bool.true_or, if_true, valueReferences_cons]
        simp only [ne_eq] at rest
        rw [rest, Nat.add_comm]
      · have later := ih uniqueRest
        simp only [ne_eq, List.filter_cons, here, not_false_eq_true, decide_true, if_true,
          List.any_cons, decide_false, Bool.false_or, valueReferences_cons]
        simp only [ne_eq] at later
        omega

namespace ObjectRecord

theorem value?_eq_none {record : ObjectRecord} {key : AttrKey} :
    record.value? key = none ↔ ∀ entry ∈ record.values, entry.key ≠ key := by
  simp [value?]

theorem exists_of_value?_some {record : ObjectRecord} {key : AttrKey} {value : Text}
    (found : record.value? key = some value) : ∃ entry ∈ record.values, entry.key = key := by
  obtain ⟨entry, here, -⟩ := Option.map_eq_some_iff.mp found
  exact ⟨entry, List.mem_of_find?_eq_some here, by simpa using List.find?_some here⟩

theorem isSome_value? {record : ObjectRecord} {key : AttrKey} :
    (record.value? key).isSome = record.values.any (·.key = key) := by
  rw [Bool.eq_iff_iff, value?, Option.isSome_map, List.find?_isSome, List.any_eq_true]

/-- A tidy record refers to a definition by one value at most. -/
theorem Tidy.valueReferences_eq {record : ObjectRecord} (tidy : record.Tidy) (serial : Nat) :
    valueReferences record.values serial =
      if (record.value? (.declared serial)).isSome then 1 else 0 := by
  have dropped := valueReferences_filter tidy.keys_nodup (.declared serial) serial
  have rest : valueReferences (record.values.filter (·.key ≠ .declared serial)) serial = 0 := by
    simp [valueReferences, List.countP_filter]
  rw [rest, Nat.zero_add, AttrKey.weight, if_pos rfl] at dropped
  rw [isSome_value?]
  exact dropped.symm

end ObjectRecord

namespace World

theorem keys_replaceValue (entry : AttrValue) (record : ObjectRecord) :
    (replaceValue entry record).values.map (·.key) = record.values.map (·.key) := by
  refine List.ext_getElem? fun index => ?_
  simp only [replaceValue, List.getElem?_map, List.getElem?_modify]
  by_cases here : record.values.findIdx (·.key = entry.key) = index
  · subst here
    cases found : record.values[record.values.findIdx (·.key = entry.key)]? with
    | none => simp
    | some old =>
        obtain ⟨inside, rfl⟩ := List.getElem?_eq_some_iff.mp found
        have same := @List.findIdx_getElem _ _ _ inside
        simpa using (of_decide_eq_true same).symm
  · simp [here]

variable {world : World} {loose : Nat → Nat}

theorem Balanced.flush (balanced : world.Balanced loose) : world.flush.Balanced loose :=
  ⟨balanced.wellFormed, balanced.counts, balanced.tidy⟩

/-! ## Writes -/

theorem Balanced.eraseValue {object : Dbref} {record : ObjectRecord} {key : AttrKey}
    (balanced : world.Balanced loose) (found : world.slot? object = some record)
    (present : ∃ entry ∈ record.values, entry.key = key) :
    ((world.modify object (World.eraseValue key)).release key).Balanced loose := by
  have tidy := balanced.tidy record (slot?_mem found)
  refine (balanced.modifyValues found (tidy.sublist List.eraseP_sublist) rfl fun serial => ?_).release
  have erased := valueReferences_eraseP present serial
  simp only [World.eraseValue]
  omega

theorem Balanced.replaceValue {object : Dbref} {record : ObjectRecord} {entry : AttrValue}
    (balanced : world.Balanced loose) (found : world.slot? object = some record)
    (filled : entry.value ≠ []) :
    (world.modify object (World.replaceValue entry)).Balanced loose := by
  have keys := keys_replaceValue entry record
  have tidy := balanced.tidy record (slot?_mem found)
  refine balanced.modifyValues found ⟨keys ▸ tidy.keys_nodup, ?_⟩ rfl fun serial => ?_
  · intro other member
    obtain ⟨index, here⟩ := List.mem_iff_getElem?.mp member
    simp only [World.replaceValue, List.getElem?_modify] at here
    obtain ⟨old, present, replaced⟩ := Option.map_eq_some_iff.mp here
    split at replaced
    · exact replaced ▸ filled
    · exact replaced ▸ tidy.values_ne_nil old (List.mem_of_getElem? present)
  · rw [valueReferences_congr keys serial]

theorem Balanced.appendValue {object : Dbref} {record : ObjectRecord} {entry : AttrValue}
    (balanced : world.Balanced fun serial => loose serial + entry.key.weight serial)
    (found : world.slot? object = some record) (filled : entry.value ≠ [])
    (missing : ∀ other ∈ record.values, other.key ≠ entry.key) :
    (world.modify object (World.appendValue entry)).Balanced loose := by
  have tidy := balanced.tidy record (slot?_mem found)
  refine balanced.modifyValues found ⟨?_, ?_⟩ rfl fun serial => ?_
  · simp only [World.appendValue, List.map_append, List.map_cons, List.map_nil]
    refine List.nodup_append.mpr ⟨tidy.keys_nodup, by simp, ?_⟩
    intro key member other otherMember same
    obtain ⟨old, oldMember, rfl⟩ := List.mem_map.mp member
    obtain rfl := List.mem_singleton.mp otherMember
    exact missing old oldMember same
  · intro other member
    rcases List.mem_append.mp member with old | new
    · exact tidy.values_ne_nil other old
    · obtain rfl := List.mem_singleton.mp new
      exact filled
  · simp only [World.appendValue, valueReferences_append, valueReferences_cons,
      valueReferences_nil]
    omega

theorem Balanced.setValue (balanced : world.Balanced loose) (object : Dbref) (handle : AttrDef)
    (value : Text) : (world.setValue object handle value).2.Balanced loose := by
  have flushed := balanced.flush
  unfold World.setValue
  dsimp only
  split
  · exact balanced
  · split
    · exact flushed
    · next record found =>
      split
      · exact flushed
      · next old stored =>
        exact flushed.eraseValue found (ObjectRecord.exists_of_value?_some stored)
      · next stored filled => exact flushed.replaceValue found filled
      · next stored filled =>
        have missing := ObjectRecord.value?_eq_none.mp stored
        split
        · exact flushed
        · next counted added =>
          obtain ⟨objects, loosened⟩ := flushed.addRef added
          have here : counted.slot? object = some record := by
            rw [← found]
            simp only [slot?, objects]
          exact loosened.appendValue here filled missing

theorem Balanced.clearKey (balanced : world.Balanced loose) (object : Dbref) (key : AttrKey) :
    (world.clearKey object key).2.Balanced loose := by
  have flushed := balanced.flush
  unfold World.clearKey
  dsimp only
  split
  · exact flushed
  · next record found =>
    have tidy := balanced.tidy record (slot?_mem found)
    have kept : (World.dropValues key record).Tidy := tidy.sublist List.filter_sublist
    have dropped := valueReferences_filter tidy.keys_nodup key
    split
    · next present =>
      refine (flushed.modifyValues found kept rfl fun serial => ?_).release
      have here := dropped serial
      rw [if_pos present] at here
      simp only [World.dropValues]
      omega
    · next missing =>
      refine flushed.modifyValues found kept rfl fun serial => ?_
      have here := dropped serial
      rw [if_neg missing] at here
      simp only [World.dropValues]
      omega

theorem Balanced.freeValues (balanced : world.Balanced loose) (object : Dbref) :
    (world.freeValues object).2.Balanced loose := by
  have flushed := balanced.flush
  unfold World.freeValues
  dsimp only
  split
  · exact flushed
  · next record found =>
    have emptied : ({ record with values := [] } : ObjectRecord).Tidy :=
      ⟨List.nodup_nil, by simp⟩
    refine (flushed.modifyValues found emptied rfl fun serial => ?_).releaseAll
    rw [valueReferences_nil]
    omega

/-! ## Copies -/

@[simp] theorem objects_release (world : World) (key : AttrKey) :
    (world.release key).objects = world.objects := by
  cases key <;> rfl

@[simp] theorem objects_releaseAll (world : World) (values : List AttrValue) :
    (world.releaseAll values).objects = world.objects := by
  induction values generalizing world with
  | nil => rfl
  | cons entry values ih => exact (ih _).trans (objects_release world entry.key)

theorem exists_freeValues {object : Dbref} {record : ObjectRecord}
    (found : world.slot? object = some record) :
    ∃ freed, world.freeValues object = (.ok (), freed) ∧
      freed.slot? object = some { record with values := [] } ∧
      ∀ other, other ≠ object → freed.slot? other = world.slot? other := by
  refine ⟨(world.flush.modify object fun record => { record with values := [] }).releaseAll
    record.values, by simp [World.freeValues, found, done], ?_, fun other apart => ?_⟩
  · simp only [slot?, objects_releaseAll]
    change (world.flush.modify object _).slot? object = _
    rw [slot?_modify_self, slot?_flush, found, Option.map_some]
  · simp only [slot?, objects_releaseAll]
    exact slot?_modify_of_ne _ apart _

theorem Balanced.addRefs {values : List AttrValue} (balanced : world.Balanced loose)
    (present : ∀ entry ∈ values, ∀ serial, entry.key = .declared serial →
      0 < world.references serial) :
    ∃ counted, world.addRefs values = (.ok (), counted) ∧ counted.objects = world.objects ∧
      counted.Balanced fun serial => loose serial + valueReferences values serial := by
  induction values generalizing world loose with
  | nil => exact ⟨world, rfl, rfl, balanced⟩
  | cons entry values ih =>
      obtain ⟨counted, added⟩ := balanced.exists_addRef fun serial key =>
        Nat.add_pos_left (present entry (by simp) serial key) _
      obtain ⟨objects, loosened⟩ := balanced.addRef added
      have references : counted.references = world.references := by
        funext serial
        simp only [World.references, objects]
      obtain ⟨final, rest, finalObjects, finalBalanced⟩ := ih loosened fun other member => by
        rw [references]
        exact present other (by simp [member])
      refine ⟨final, by simp [World.addRefs, added, rest], finalObjects.trans objects, ?_⟩
      refine finalBalanced.of_eq fun serial => ?_
      rw [valueReferences_cons]
      omega

/-- A copy from another object always finds the definitions that it needs: the source goes on
holding them while the destination is emptied. -/
theorem Balanced.copyNoninherited (balanced : world.Balanced loose) {destination source : Dbref}
    (apart : destination ≠ source) :
    (world.copyNoninherited destination source).2.Balanced loose := by
  unfold World.copyNoninherited
  have freedBalanced := balanced.freeValues destination
  cases sourceFound : world.slot? source with
  | none => exact balanced
  | some record =>
      dsimp only
      cases found : world.slot? destination with
      | none =>
          have refused : world.freeValues destination =
              (.error (.objectNotFound destination), world.flush) := by
            simp [World.freeValues, found, refuse]
          rw [refused]
          exact balanced.flush
      | some target =>
          obtain ⟨freed, emptied, here, elsewhere⟩ := exists_freeValues found
          rw [emptied] at freedBalanced ⊢
          have sourceKept : freed.slot? source = some record := by
            rw [elsewhere source apart.symm, sourceFound]
          generalize copying : record.values.filter (fun entry =>
            !world.keyHasFlag entry.key .inherit) = copied
          have sublist : copied.Sublist record.values := copying ▸ List.filter_sublist
          obtain ⟨counted, added, objects, loosened⟩ := freedBalanced.addRefs
            fun entry member serial key => by
              have stored := valueReferences_pos (sublist.subset member) key
              exact references_pos (slot?_mem sourceKept) (Nat.add_pos_right _ stored)
          simp only [Outcome.andThen, added]
          have countedHere : counted.slot? destination = some { target with values := [] } := by
            rw [← here]
            simp only [slot?, objects]
          have copiedTidy : ({ target with values := copied } : ObjectRecord).Tidy :=
            (balanced.tidy record (slot?_mem sourceFound)).sublist sublist
          refine loosened.modifyValues countedHere copiedTidy rfl fun serial => ?_
          simp only [valueReferences_nil]
          omega

/-- References that have been added stay loose if a later one is refused. -/
theorem Balanced.exists_addRefs (balanced : world.Balanced loose) (values : List AttrValue) :
    ∃ ahead, (world.addRefs values).2.Balanced ahead ∧
      (world.addRefs values).2.objects = world.objects ∧
      ((world.addRefs values).1 = .ok () →
        ∀ serial, ahead serial = loose serial + valueReferences values serial) := by
  induction values generalizing world loose with
  | nil => exact ⟨loose, balanced, rfl, fun _ serial => by simp⟩
  | cons entry values ih =>
      unfold World.addRefs
      split
      · exact ⟨loose, balanced, rfl, fun done => by cases done⟩
      · next counted added =>
        obtain ⟨objects, loosened⟩ := balanced.addRef added
        obtain ⟨ahead, kept, same, all⟩ := ih loosened
        refine ⟨ahead, kept, same.trans objects, fun done serial => ?_⟩
        rw [all done serial, valueReferences_cons]
        omega

/-- A copy of an object onto itself may lose its values and leave their references behind. -/
theorem Balanced.copyNoninherited_covered (balanced : world.Balanced loose)
    (destination source : Dbref) : (world.copyNoninherited destination source).2.Covered := by
  by_cases apart : destination ≠ source
  · exact ⟨loose, balanced.copyNoninherited apart⟩
  · obtain rfl : destination = source := not_not.mp apart
    unfold World.copyNoninherited
    cases found : world.slot? destination with
    | none => exact ⟨loose, balanced⟩
    | some record =>
        have freedBalanced := balanced.freeValues destination
        obtain ⟨freed, emptied, here, -⟩ := exists_freeValues found
        rw [emptied] at freedBalanced
        dsimp only
        rw [emptied]
        generalize copying : record.values.filter (fun entry =>
          !world.keyHasFlag entry.key .inherit) = copied
        have sublist : copied.Sublist record.values := copying ▸ List.filter_sublist
        obtain ⟨ahead, counted, objects, all⟩ := freedBalanced.exists_addRefs copied
        simp only [Outcome.andThen]
        split
        · next result world adding =>
          rw [adding] at counted objects all
          have sameObjects : world.objects = freed.objects := objects
          have countedHere : world.slot? destination = some { record with values := [] } := by
            rw [← here]
            simp only [slot?, sameObjects]
          have copiedTidy : ({ record with values := copied } : ObjectRecord).Tidy :=
            (balanced.tidy record (slot?_mem found)).sublist sublist
          refine ⟨loose, counted.modifyValues countedHere copiedTidy rfl fun serial => ?_⟩
          simp only [all rfl serial, valueReferences_nil]
          omega
        · next error world adding =>
          rw [adding] at counted
          exact ⟨ahead, counted⟩

end World
end WorldLocks
