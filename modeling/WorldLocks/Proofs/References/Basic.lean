import Mathlib.Algebra.GroupWithZero.Nat
import Mathlib.Algebra.Order.BigOperators.Group.List
import Mathlib.Algebra.Order.Group.Nat
import WorldLocks.Proofs.Registry
import WorldLocks.Proofs.Table
import WorldLocks.World.Values

/-! Reference counts against the references that they count.  An operation takes references off the
table before it releases them and adds references before it puts them into the table.  Between the
two the counts are ahead of the table, so the invariant carries the references that are loose. -/

set_option autoImplicit false

namespace WorldLocks

/-! ## Counting references -/

def AttrKey.weight (key : AttrKey) (serial : Nat) : Nat := if key = .declared serial then 1 else 0

@[simp] theorem AttrKey.weight_builtin (which : Builtin) (serial : Nat) :
    (AttrKey.builtin which).weight serial = 0 := by simp [weight]

def valueReferences (values : List AttrValue) (serial : Nat) : Nat :=
  values.countP fun entry => entry.key = .declared serial

@[simp] theorem valueReferences_nil (serial : Nat) : valueReferences [] serial = 0 := rfl

theorem valueReferences_cons (entry : AttrValue) (values : List AttrValue) (serial : Nat) :
    valueReferences (entry :: values) serial =
      entry.key.weight serial + valueReferences values serial := by
  by_cases here : entry.key = .declared serial <;>
    simp [valueReferences, AttrKey.weight, here, Nat.add_comm]

theorem valueReferences_append (first second : List AttrValue) (serial : Nat) :
    valueReferences (first ++ second) serial =
      valueReferences first serial + valueReferences second serial := List.countP_append

theorem valueReferences_pos {values : List AttrValue} {entry : AttrValue} (member : entry ∈ values)
    {serial : Nat} (key : entry.key = .declared serial) : 0 < valueReferences values serial :=
  List.countP_pos_iff.mpr ⟨entry, member, by simpa using key⟩

namespace ObjectRecord

/-- How often a record refers to a serial number: once if it declares it, and once by every value
stored for it. -/
def references (record : ObjectRecord) (serial : Nat) : Nat :=
  (if serial ∈ record.declared then 1 else 0) + valueReferences record.values serial

/-- No two values of a record have one key, and none is empty. -/
structure Tidy (record : ObjectRecord) : Prop where
  keys_nodup : (record.values.map (·.key)).Nodup
  values_ne_nil : ∀ entry ∈ record.values, entry.value ≠ []

def ledger (record : ObjectRecord) : List Nat × List AttrValue := (record.declared, record.values)

theorem Tidy.congr {first second : ObjectRecord} (tidy : first.Tidy)
    (same : first.ledger = second.ledger) : second.Tidy := by
  have values := (Prod.mk.inj same).2
  exact ⟨values ▸ tidy.keys_nodup, values ▸ tidy.values_ne_nil⟩

theorem Tidy.sublist {first second : ObjectRecord} (tidy : first.Tidy)
    (kept : second.values.Sublist first.values) : second.Tidy :=
  ⟨tidy.keys_nodup.sublist (kept.map _), fun entry member =>
    tidy.values_ne_nil entry (kept.subset member)⟩

end ObjectRecord

theorem sum_map_modify {α : Type} (weigh : α → Nat) (change : α → α) {items : List α} {index : Nat}
    {item : α} (found : items[index]? = some item) :
    ((items.modify index change).map weigh).sum + weigh item =
      (items.map weigh).sum + weigh (change item) := by
  induction items generalizing index with
  | nil => simp at found
  | cons head tail ih =>
      cases index with
      | zero =>
          obtain rfl : head = item := by simpa using found
          simp only [List.modify_zero_cons, List.map_cons, List.sum_cons]
          omega
      | succ index =>
          have later := @ih index (by simpa using found)
          simp only [List.modify_succ_cons, List.map_cons, List.sum_cons]
          omega

namespace World

/-- How often the objects of a world refer to a serial number, destroyed ones included. -/
def references (world : World) (serial : Nat) : Nat :=
  (world.objects.map fun record => record.references serial).sum

theorem references_modify {world : World} {object : Dbref} {record : ObjectRecord}
    (found : world.slot? object = some record) (change : ObjectRecord → ObjectRecord)
    (serial : Nat) :
    (world.modify object change).references serial + record.references serial =
      world.references serial + (change record).references serial := by
  obtain ⟨index, rfl, present⟩ := slot?_eq_some.mp found
  rw [modify_ofIndex]
  exact sum_map_modify (fun record => record.references serial) change present

theorem references_pos {world : World} {record : ObjectRecord} (member : record ∈ world.objects)
    {serial : Nat} (refers : 0 < record.references serial) : 0 < world.references serial :=
  Nat.lt_of_lt_of_le refers (List.single_le_sum (by simp) _ (List.mem_map_of_mem member))

end World

/-! ## Balanced worlds -/

/-- The count that a registry holds for a number of references: none once there are none. -/
def countOf (total : Nat) : Option Nat := if total = 0 then none else some total

@[simp] theorem countOf_zero : countOf 0 = none := rfl

theorem countOf_succ (total : Nat) : countOf (total + 1) = some (total + 1) := rfl

theorem countOf_of_pos {total : Nat} (positive : 0 < total) : countOf total = some total :=
  if_neg (Nat.pos_iff_ne_zero.mp positive)

theorem countOf_eq_some {total count : Nat} :
    countOf total = some count ↔ total = count ∧ 0 < count := by
  unfold countOf
  split
  · simp only [reduceCtorEq, false_iff]
    omega
  · simp only [Option.some.injEq, iff_self_and]
    omega

/-- Every count is the number of references in the table together with those that are loose. -/
structure World.Balanced (world : World) (loose : Nat → Nat) : Prop where
  wellFormed : world.registry.WellFormed
  counts : ∀ serial, world.registry.count? serial = countOf (world.references serial + loose serial)
  tidy : ∀ record ∈ world.objects, record.Tidy

/-- No references are loose. -/
abbrev World.InBalance (world : World) : Prop := world.Balanced fun _ => 0

/-- No count is less than the number of references, but some references may be loose for good. -/
def World.Covered (world : World) : Prop := ∃ loose, world.Balanced loose

namespace World

variable {world : World} {loose : Nat → Nat}

theorem Balanced.of_eq {other : Nat → Nat} (balanced : world.Balanced loose)
    (same : ∀ serial, loose serial = other serial) : world.Balanced other :=
  funext same ▸ balanced

/-- Two worlds with one registry whose objects refer to the same definitions. -/
structure SameLedger (first second : World) : Prop where
  registry : second.registry = first.registry
  ledgers : second.objects.map (·.ledger) = first.objects.map (·.ledger)

theorem SameLedger.refl (world : World) : world.SameLedger world := ⟨rfl, rfl⟩

theorem SameLedger.trans {first second third : World} (one : first.SameLedger second)
    (two : second.SameLedger third) : first.SameLedger third :=
  ⟨two.registry.trans one.registry, two.ledgers.trans one.ledgers⟩

theorem SameLedger.modify (world : World) (object : Dbref) {change : ObjectRecord → ObjectRecord}
    (keeps : ∀ record, (change record).ledger = record.ledger) :
    world.SameLedger (world.modify object change) where
  registry := registry_modify ..
  ledgers := (SameIn.refl (·.ledger) world).modify object keeps

theorem Balanced.sameLedger {other : World} (balanced : world.Balanced loose)
    (same : world.SameLedger other) : other.Balanced loose := by
  have references : other.references = world.references := by
    funext serial
    have weigh : ∀ records : List ObjectRecord,
        (records.map fun record => record.references serial) =
          (records.map (·.ledger)).map fun ledger =>
            (if serial ∈ ledger.1 then 1 else 0) + valueReferences ledger.2 serial := by
      intro records
      rw [List.map_map]
      rfl
    rw [World.references, World.references, weigh, weigh, same.ledgers]
  refine ⟨same.registry ▸ balanced.wellFormed, ?_, ?_⟩
  · rw [same.registry, references]
    exact balanced.counts
  · intro record member
    have listed : record.ledger ∈ world.objects.map (·.ledger) :=
      same.ledgers ▸ List.mem_map_of_mem member
    obtain ⟨original, originalMember, equal⟩ := List.mem_map.mp listed
    exact (balanced.tidy original originalMember).congr equal

/-- Changing a record shifts references between the table and what is loose. -/
theorem Balanced.modify {other : Nat → Nat} {object : Dbref} {record : ObjectRecord}
    {change : ObjectRecord → ObjectRecord} (balanced : world.Balanced loose)
    (found : world.slot? object = some record) (tidy : (change record).Tidy)
    (shift : ∀ serial, (change record).references serial + other serial =
      record.references serial + loose serial) : (world.modify object change).Balanced other := by
  refine ⟨registry_modify world object change ▸ balanced.wellFormed, ?_, ?_⟩
  · intro serial
    have total : (world.modify object change).references serial + other serial =
        world.references serial + loose serial := by
      have moved := references_modify found change serial
      have shifted := shift serial
      omega
    rw [registry_modify, total]
    exact balanced.counts serial
  · intro changed member
    obtain ⟨index, rfl, present⟩ := slot?_eq_some.mp found
    rw [modify_ofIndex] at member
    obtain ⟨place, here⟩ := List.mem_iff_getElem?.mp member
    simp only [List.getElem?_modify] at here
    by_cases same : index = place
    · subst same
      rw [present] at here
      obtain rfl : change record = changed := by simpa using here
      exact tidy
    · have unchanged : world.objects[place]? = some changed := by simpa [same] using here
      exact balanced.tidy changed (List.mem_of_getElem? unchanged)

/-- The same for a change that leaves the declarations alone. -/
theorem Balanced.modifyValues {other : Nat → Nat} {object : Dbref} {record : ObjectRecord}
    {change : ObjectRecord → ObjectRecord} (balanced : world.Balanced loose)
    (found : world.slot? object = some record) (tidy : (change record).Tidy)
    (declared : (change record).declared = record.declared)
    (shift : ∀ serial, valueReferences (change record).values serial + other serial =
      valueReferences record.values serial + loose serial) :
    (world.modify object change).Balanced other := by
  refine balanced.modify found tidy fun serial => ?_
  have shifted := shift serial
  simp only [ObjectRecord.references, declared]
  omega

/-! ## Taking and giving references -/

theorem Balanced.release {key : AttrKey}
    (balanced : world.Balanced fun serial => loose serial + key.weight serial) :
    (world.release key).Balanced loose := by
  cases key with
  | builtin which => exact balanced.of_eq fun serial => by simp
  | declared released =>
      refine ⟨balanced.wellFormed.release released, fun serial => ?_, balanced.tidy⟩
      have before := balanced.counts serial
      change (world.registry.release released).count? serial =
        countOf (world.references serial + loose serial)
      rw [Registry.count?_release]
      by_cases same : serial = released
      · subst same
        have one : (AttrKey.declared serial).weight serial = 1 := if_pos rfl
        rw [one, ← Nat.add_assoc, countOf_succ] at before
        rw [if_pos rfl, before, Option.bind_some]
        cases world.references serial + loose serial with
        | zero => rfl
        | succ left => simp [countOf_succ]
      · have other : (AttrKey.declared released).weight serial = 0 := by
          simp [AttrKey.weight, Ne.symm same]
        rw [if_neg same]
        simpa only [other, Nat.add_zero] using before

/-- Releasing the keys of values settles the loose references that they were. -/
theorem Balanced.releaseAll {values : List AttrValue}
    (balanced : world.Balanced fun serial => loose serial + valueReferences values serial) :
    (world.releaseAll values).Balanced loose := by
  induction values generalizing world with
  | nil => exact balanced
  | cons entry values ih =>
      refine ih (Balanced.release (balanced.of_eq fun serial => ?_))
      rw [valueReferences_cons]
      omega

theorem Balanced.addRef {key : AttrKey} {counted : World} (balanced : world.Balanced loose)
    (added : world.addRef key = .ok counted) :
    counted.objects = world.objects ∧
      counted.Balanced fun serial => loose serial + key.weight serial := by
  cases key with
  | builtin which =>
      obtain rfl : world = counted := by simpa [World.addRef] using added
      exact ⟨rfl, balanced.of_eq fun serial => by simp⟩
  | declared target =>
      cases counting : world.registry.addRef? target with
      | none => simp [World.addRef, counting] at added
      | some registry =>
          obtain rfl : { world with registry := registry } = counted := by
            simpa [World.addRef, counting] using added
          refine ⟨rfl, balanced.wellFormed.addRef? counting, fun serial => ?_, balanced.tidy⟩
          have before := balanced.counts serial
          change registry.count? serial = countOf (world.references serial + _)
          rw [Registry.count?_addRef? counting]
          by_cases same : serial = target
          · subst same
            have one : (AttrKey.declared serial).weight serial = 1 := if_pos rfl
            have present : world.registry.count? serial ≠ none := by
              rw [Ne, ← Registry.addRef?_eq_none, counting]
              simp
            cases total : world.references serial + loose serial with
            | zero => exact absurd (by rw [before, total, countOf_zero]) present
            | succ count =>
                rw [if_pos rfl, before, one, ← Nat.add_assoc, total, countOf_succ, countOf_succ,
                  Option.map_some]
          · have other : (AttrKey.declared target).weight serial = 0 := by
              simp [AttrKey.weight, Ne.symm same]
            rw [if_neg same, other, Nat.add_zero, before]

theorem Balanced.exists_addRef {key : AttrKey} (balanced : world.Balanced loose)
    (present : ∀ serial, key = .declared serial → 0 < world.references serial + loose serial) :
    ∃ counted, world.addRef key = .ok counted := by
  cases key with
  | builtin which => exact ⟨world, rfl⟩
  | declared target =>
      cases counting : world.registry.addRef? target with
      | none =>
          have absent := Registry.addRef?_eq_none.mp counting
          rw [balanced.counts target, countOf_of_pos (present target rfl)] at absent
          cases absent
      | some registry => exact ⟨{ world with registry := registry }, by simp [World.addRef, counting]⟩

end World
end WorldLocks
