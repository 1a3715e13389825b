import Mathlib.Data.List.Nodup
import WorldLocks.World.Basic

/-! Laws of the registry of definitions.  Every change is described by what it does to the count of
each serial number, so that later proofs need not look at the entries. -/

set_option autoImplicit false

namespace WorldLocks.Registry

/-! ## Entries -/

theorem registered?_some {registry : Registry} {serial : Nat} {entry : Registered}
    (found : registry.registered? serial = some entry) :
    entry ∈ registry.entries ∧ entry.serial = serial := by
  refine ⟨List.mem_of_find?_eq_some found, ?_⟩
  simpa using List.find?_some found

theorem registered?_update (registry : Registry) (serial other : Nat)
    {change : Registered → Registered} (keeps : ∀ entry, (change entry).serial = entry.serial) :
    (registry.update serial change).registered? other =
      (registry.registered? other).map fun entry =>
        if entry.serial = serial then change entry else entry := by
  have samePlace : ((fun entry : Registered => decide (entry.serial = other)) ∘
      fun entry => if entry.serial = serial then change entry else entry) =
      fun entry => decide (entry.serial = other) := by
    funext entry
    by_cases same : entry.serial = serial <;> simp [same, keeps]
  simp only [registered?, update, List.find?_map, samePlace]

/-! ## Counts -/

theorem count?_update (registry : Registry) (serial other : Nat) (change : Registered → Registered)
    (adjust : Nat → Nat) (keeps : ∀ entry, (change entry).serial = entry.serial)
    (counts : ∀ entry, (change entry).count = adjust entry.count) :
    (registry.update serial change).count? other =
      if other = serial then (registry.count? serial).map adjust else registry.count? other := by
  cases found : registry.registered? other with
  | none =>
      have absent : registry.count? other = none := by simp [count?, found]
      have result : (registry.update serial change).count? other = none := by
        simp [count?, registered?_update registry serial other keeps, found]
      rw [result]
      split
      · next same => rw [← same, absent, Option.map_none]
      · exact absent.symm
  | some entry =>
      have here := (registered?_some found).2
      by_cases same : other = serial
      · subst same
        simp [count?, registered?_update registry other other keeps, found, here, counts]
      · simp [count?, registered?_update registry serial other keeps, found, here, same]

theorem addRef?_eq_none {registry : Registry} {serial : Nat} :
    registry.addRef? serial = none ↔ registry.count? serial = none := by
  cases found : registry.registered? serial <;> simp [addRef?, count?, found]

theorem addRef?_eq_some {registry counted : Registry} {serial : Nat}
    (added : registry.addRef? serial = some counted) :
    counted = registry.update serial fun entry => { entry with count := entry.count + 1 } := by
  cases found : registry.registered? serial with
  | none => simp [addRef?, found] at added
  | some entry => simpa [addRef?, found] using added.symm

theorem count?_addRef? {registry counted : Registry} {serial : Nat}
    (added : registry.addRef? serial = some counted) (other : Nat) :
    counted.count? other =
      if other = serial then (registry.count? serial).map (· + 1) else registry.count? other := by
  rw [addRef?_eq_some added]
  exact count?_update registry serial other _ (· + 1) (fun _ => rfl) fun _ => rfl

theorem definition?_addRef? {registry counted : Registry} {serial : Nat}
    (added : registry.addRef? serial = some counted) :
    counted.definition? = registry.definition? := by
  funext other
  rw [addRef?_eq_some added, definition?, registered?_update]
  · cases found : registry.registered? other with
    | none => simp [definition?, found]
    | some entry => simp [definition?, found, apply_ite Registered.definition]
  · intro entry
    rfl

theorem count?_filter (registry : Registry) (serial other : Nat) :
    ({ registry with entries := registry.entries.filter (·.serial ≠ serial) } : Registry).count?
        other =
      if other = serial then none else registry.count? other := by
  by_cases same : other = serial
  · subst same
    simp [count?, registered?, List.find?_filter]
  · rw [if_neg same]
    simp only [count?, registered?, List.find?_filter]
    congr 2
    funext entry
    by_cases here : entry.serial = other <;> simp [here, same]

/-- A release takes one reference off, and the definition goes when it was the last. -/
theorem count?_release (registry : Registry) (serial other : Nat) :
    (registry.release serial).count? other =
      if other = serial then
        (registry.count? serial).bind fun count => if count ≤ 1 then none else some (count - 1)
      else registry.count? other := by
  cases found : registry.registered? serial with
  | none =>
      have unchanged : registry.release serial = registry := by simp [release, found]
      have absent : registry.count? serial = none := by simp [count?, found]
      rw [unchanged, absent, Option.bind_none]
      split
      · next same => rw [same, absent]
      · rfl
  | some entry =>
      have counted : registry.count? serial = some entry.count := by simp [count?, found]
      by_cases last : entry.count ≤ 1
      · have shape : registry.release serial =
            { registry with entries := registry.entries.filter (·.serial ≠ serial) } := by
          simp [release, found, last]
        rw [shape, count?_filter, counted]
        simp [last]
      · have shape : registry.release serial =
            registry.update serial fun entry => { entry with count := entry.count - 1 } := by
          simp [release, found, last]
        have lowered := count?_update registry serial other
          (fun entry => { entry with count := entry.count - 1 }) (· - 1) (fun _ => rfl) fun _ => rfl
        rw [shape, lowered, counted]
        simp [last]

/-- A release shows in no other entry. -/
theorem registered?_release_of_ne {registry : Registry} {serial other : Nat}
    (apart : other ≠ serial) :
    (registry.release serial).registered? other = registry.registered? other := by
  unfold release
  split
  · rfl
  · split
    · simp only [registered?, List.find?_filter]
      congr 1
      funext entry
      by_cases here : entry.serial = other <;> simp [here, apart]
    · rw [registered?_update registry serial other fun _ => by rfl]
      cases found : registry.registered? other with
      | none => rw [Option.map_none]
      | some entry =>
          have elsewhere : entry.serial ≠ serial := (registered?_some found).2 ▸ apart
          rw [Option.map_some, if_neg elsewhere]

theorem count?_setFlags (registry : Registry) (serial : Nat) (flags : FlagSet AttrFlag)
    (other : Nat) : (registry.setFlags serial flags).count? other = registry.count? other := by
  have kept := count?_update registry serial other
    (fun entry => { entry with definition := { entry.definition with flags := flags } }) id
    (fun _ => rfl) fun _ => rfl
  refine kept.trans ?_
  split
  · next same => rw [same, Option.map_id, id]
  · rfl

/-! ## Well-formed registries -/

/-- Serial numbers are given out in order and once each, and every entry holds the definition whose
key is its serial number. -/
structure WellFormed (registry : Registry) : Prop where
  serials_lt : ∀ entry ∈ registry.entries, entry.serial < registry.nextSerial
  serials_nodup : (registry.entries.map (·.serial)).Nodup
  keyed : ∀ entry ∈ registry.entries, entry.definition.key = .declared entry.serial

theorem wellFormed_empty : empty.WellFormed := by
  constructor <;> simp [empty]

theorem WellFormed.registered?_mem {registry : Registry} (wellFormed : registry.WellFormed)
    {entry : Registered} (member : entry ∈ registry.entries) :
    registry.registered? entry.serial = some entry := by
  have unique := wellFormed.serials_nodup
  cases found : registry.registered? entry.serial with
  | none =>
      have missed := List.find?_eq_none.mp found entry member
      simp at missed
  | some other =>
      obtain ⟨otherMember, same⟩ := registered?_some found
      rw [List.inj_on_of_nodup_map unique otherMember member same]

theorem WellFormed.key_of_definition? {registry : Registry} (wellFormed : registry.WellFormed)
    {serial : Nat} {definition : AttrDef} (found : registry.definition? serial = some definition) :
    definition.key = .declared serial := by
  obtain ⟨entry, here, rfl⟩ := Option.map_eq_some_iff.mp found
  obtain ⟨member, same⟩ := registered?_some here
  rw [wellFormed.keyed entry member, same]

theorem WellFormed.registered?_nextSerial {registry : Registry} (wellFormed : registry.WellFormed) :
    registry.registered? registry.nextSerial = none := by
  refine List.find?_eq_none.mpr fun entry member => ?_
  have below := wellFormed.serials_lt entry member
  simp only [decide_eq_true_eq]
  omega

theorem WellFormed.update {registry : Registry} (wellFormed : registry.WellFormed) (serial : Nat)
    {change : Registered → Registered} (keeps : ∀ entry, (change entry).serial = entry.serial)
    (keys : ∀ entry, (change entry).definition.key = entry.definition.key) :
    (registry.update serial change).WellFormed := by
  have sameSerials : (registry.update serial change).entries.map (·.serial) =
      registry.entries.map (·.serial) := by
    simp only [Registry.update, List.map_map]
    refine List.map_congr_left fun entry _ => ?_
    by_cases here : entry.serial = serial <;> simp [here, keeps]
  refine ⟨?_, sameSerials ▸ wellFormed.serials_nodup, ?_⟩
  · intro entry member
    have listed : entry.serial ∈ registry.entries.map (·.serial) :=
      sameSerials ▸ List.mem_map_of_mem member
    obtain ⟨original, originalMember, same⟩ := List.mem_map.mp listed
    rw [← same]
    exact wellFormed.serials_lt original originalMember
  · intro entry member
    obtain ⟨original, originalMember, rfl⟩ := List.mem_map.mp member
    have key := wellFormed.keyed original originalMember
    by_cases here : original.serial = serial
    · rw [if_pos here, keys, keeps, key]
    · rw [if_neg here, key]

theorem WellFormed.addRef? {registry counted : Registry} (wellFormed : registry.WellFormed)
    {serial : Nat} (added : registry.addRef? serial = some counted) : counted.WellFormed := by
  rw [addRef?_eq_some added]
  exact wellFormed.update serial (fun _ => rfl) fun _ => rfl

theorem WellFormed.setFlags {registry : Registry} (wellFormed : registry.WellFormed) (serial : Nat)
    (flags : FlagSet AttrFlag) : (registry.setFlags serial flags).WellFormed :=
  wellFormed.update serial (fun _ => rfl) fun _ => rfl

theorem WellFormed.release {registry : Registry} (wellFormed : registry.WellFormed) (serial : Nat) :
    (registry.release serial).WellFormed := by
  unfold Registry.release
  split
  · exact wellFormed
  · split
    · refine ⟨fun entry member => ?_, ?_, fun entry member => ?_⟩
      · exact wellFormed.serials_lt entry (List.mem_of_mem_filter member)
      · exact wellFormed.serials_nodup.sublist (List.filter_sublist.map _)
      · exact wellFormed.keyed entry (List.mem_of_mem_filter member)
    · exact wellFormed.update serial (fun _ => rfl) fun _ => rfl

theorem WellFormed.declare {registry : Registry} (wellFormed : registry.WellFormed) (name : Text)
    (flags : FlagSet AttrFlag) (definer : Dbref) :
    (registry.declare name flags definer).2.WellFormed := by
  refine ⟨?_, ?_, ?_⟩
  · intro entry member
    rcases List.mem_append.mp member with old | new
    · have below := wellFormed.serials_lt entry old
      exact Nat.lt_succ_of_lt below
    · obtain rfl := List.mem_singleton.mp new
      exact Nat.lt_succ_self _
  · simp only [Registry.declare, List.map_append, List.map_cons, List.map_nil]
    refine List.nodup_append.mpr ⟨wellFormed.serials_nodup, by simp, ?_⟩
    intro old oldMember new newMember
    obtain ⟨entry, member, rfl⟩ := List.mem_map.mp oldMember
    have below := wellFormed.serials_lt entry member
    obtain rfl := List.mem_singleton.mp newMember
    omega
  · intro entry member
    rcases List.mem_append.mp member with old | new
    · exact wellFormed.keyed entry old
    · obtain rfl := List.mem_singleton.mp new
      rfl

theorem WellFormed.count?_declare {registry : Registry} (wellFormed : registry.WellFormed)
    (name : Text) (flags : FlagSet AttrFlag) (definer : Dbref) (other : Nat) :
    (registry.declare name flags definer).2.count? other =
      if other = registry.nextSerial then some 1 else registry.count? other := by
  simp only [count?, registered?, Registry.declare, List.find?_append]
  by_cases same : other = registry.nextSerial
  · subst same
    have absent : registry.entries.find? (·.serial = registry.nextSerial) = none :=
      wellFormed.registered?_nextSerial
    simp [absent]
  · simp [same, Ne.symm same]

end WorldLocks.Registry
