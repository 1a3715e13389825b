import WorldLocks.Proofs.References.Values
import WorldLocks.World.Definitions

/-! Declaring an attribute makes one reference, and taking a declaration back releases it together
with the values of the whole family. -/

set_option autoImplicit false

namespace WorldLocks

namespace ObjectRecord

theorem references_declare {record : ObjectRecord} {added : Nat} (fresh : added ∉ record.declared)
    (serial : Nat) :
    ({ record with declared := record.declared ++ [added] } : ObjectRecord).references serial =
      record.references serial + (AttrKey.declared added).weight serial := by
  by_cases same : serial = added
  · subst same
    simp only [references, List.mem_append, List.mem_singleton, fresh, AttrKey.weight, or_true,
      if_true, if_false]
    omega
  · simp [references, AttrKey.weight, same, Ne.symm same]

theorem references_undeclare {record : ObjectRecord} {removed : Nat}
    (listed : removed ∈ record.declared) (serial : Nat) :
    ({ record with declared := record.declared.filter (· ≠ removed) } : ObjectRecord).references
        serial + (AttrKey.declared removed).weight serial = record.references serial := by
  by_cases same : serial = removed
  · subst same
    simp [references, AttrKey.weight, listed, Nat.add_comm]
  · simp [references, AttrKey.weight, same, Ne.symm same]

end ObjectRecord

namespace World

variable {world : World} {loose : Nat → Nat}

/-- A definition that an object declares is registered under a serial number in its list. -/
theorem exists_of_definedOn? {object : Dbref} {name : Text} {definition : AttrDef}
    (declared : world.definedOn? object name = some definition) :
    ∃ record serial, world.slot? object = some record ∧ serial ∈ record.declared ∧
      world.registry.definition? serial = some definition := by
  have member := List.mem_of_find?_eq_some declared
  cases found : world.slot? object with
  | none => simp [localDefs, found] at member
  | some record =>
      obtain ⟨serial, listed, registered⟩ :=
        List.mem_filterMap.mp (show definition ∈ record.declared.filterMap world.registry.definition? by
          simpa [localDefs, found] using member)
      exact ⟨record, serial, rfl, listed, registered⟩

theorem Balanced.setFlags (balanced : world.Balanced loose) (serial : Nat)
    (flags : FlagSet AttrFlag) :
    ({ world with registry := world.registry.setFlags serial flags } : World).Balanced loose := by
  refine ⟨balanced.wellFormed.setFlags serial flags, fun other => ?_, balanced.tidy⟩
  exact (Registry.count?_setFlags ..).trans (balanced.counts other)

theorem Balanced.total_nextSerial (balanced : world.Balanced loose) :
    world.references world.registry.nextSerial + loose world.registry.nextSerial = 0 := by
  have absent : world.registry.count? world.registry.nextSerial = none := by
    rw [Registry.count?, balanced.wellFormed.registered?_nextSerial, Option.map_none]
  by_contra positive
  rw [balanced.counts, countOf_of_pos (Nat.pos_of_ne_zero positive)] at absent
  cases absent

/-- A new definition is registered with one reference, which is loose at first. -/
theorem Balanced.declare (balanced : world.Balanced loose) (name : Text)
    (flags : FlagSet AttrFlag) (definer : Dbref) :
    ({ world with registry := (world.registry.declare name flags definer).2 } : World).Balanced
      fun serial => loose serial + (AttrKey.declared world.registry.nextSerial).weight serial := by
  refine ⟨balanced.wellFormed.declare name flags definer, fun serial => ?_, balanced.tidy⟩
  change (world.registry.declare name flags definer).2.count? serial =
    countOf (world.references serial + _)
  rw [balanced.wellFormed.count?_declare]
  by_cases same : serial = world.registry.nextSerial
  · subst same
    rw [if_pos rfl, ← Nat.add_assoc, balanced.total_nextSerial]
    simp [AttrKey.weight, countOf_succ]
  · rw [if_neg same, balanced.counts]
    simp [AttrKey.weight, Ne.symm same]

theorem Balanced.declareAttr (balanced : world.Balanced loose) (object : Dbref) (name : Text)
    (flags : FlagSet AttrFlag) : (world.declareAttr object name flags).2.Balanced loose := by
  unfold World.declareAttr
  split
  · exact balanced
  · split
    · exact balanced
    · next record living =>
      have found := (record?_eq_some.mp living).1
      split
      · dsimp only [done]
        split
        · exact balanced.flush.setFlags _ flags
        · exact balanced
      · split
        · exact balanced
        · split
          · exact balanced
          · have unlisted : world.registry.nextSerial ∉ record.declared := by
              intro listed
              have total := balanced.total_nextSerial
              have positive : 0 < world.references world.registry.nextSerial :=
                references_pos (slot?_mem found) (by simp [ObjectRecord.references, listed])
              omega
            refine Balanced.modify (balanced.declare name flags object) found
              ((balanced.tidy record (slot?_mem found)).sublist (List.Sublist.refl _))
              fun serial => ?_
            rw [ObjectRecord.references_declare unlisted]
            omega

theorem Balanced.clearKeys (balanced : world.Balanced loose) (family : List Dbref) (key : AttrKey) :
    (family.foldl (fun world member => (world.clearKey member key).2) world).Balanced loose := by
  induction family generalizing world with
  | nil => exact balanced
  | cons member family ih => exact ih (balanced.clearKey member key)

theorem Balanced.undeclareAttr (balanced : world.Balanced loose) (object : Dbref) (name : Text) :
    (world.undeclareAttr object name).2.Balanced loose := by
  unfold World.undeclareAttr
  split
  · exact balanced
  · next definition declared =>
    obtain ⟨record, serial, found, listed, registered⟩ := exists_of_definedOn? declared
    have key := balanced.wellFormed.key_of_definition? registered
    split
    · exact balanced
    · next removed here =>
      obtain rfl : serial = removed := by
        rw [key] at here
        exact AttrKey.declared.inj here
      dsimp only [done]
      refine Balanced.release (Balanced.clearKeys ?_ (world.familyOf object) definition.key)
      refine balanced.modify found
        ((balanced.tidy record (slot?_mem found)).sublist (List.Sublist.refl _)) fun other => ?_
      have undeclared := ObjectRecord.references_undeclare listed other
      rw [key]
      omega

end World
end WorldLocks
