import Mathlib.Data.List.Flatten
import WorldLocks.Proofs.Cache.Reading
import WorldLocks.Proofs.References.Exact
import WorldLocks.Proofs.Tours
import WorldLocks.World.Naming

/-! Looking up a definition and looking up an inherited value both go through an object and then its
ancestors in the order in which these are listed. -/

set_option autoImplicit false

namespace WorldLocks

namespace World

variable {world : World} {object : Dbref} {record : ObjectRecord}

/-! ## Ancestors -/

theorem parentsOf_eq_nil (object : Dbref) (missing : object ∉ world.slots) :
    world.parentsOf object = [] := by
  rw [mem_slots, Option.not_isSome_iff_eq_none] at missing
  rw [parentsOf, missing, Option.elim_none]

theorem stepsLeft_parents_le (world : World) (object : Dbref) :
    stepsLeft world.parentsOf world.slots (world.parentsOf object) [object] ≤
      world.walkBound (·.parents) (world.parentsOf object) := by
  refine Nat.add_le_add_left ?_ _
  have unseen : ((world.slots.filter (· ∉ [object])).flatMap world.parentsOf).length ≤
      (world.slots.flatMap world.parentsOf).length :=
    (List.filter_sublist.flatMap _).length_le
  refine unseen.trans (length_slots_flatMap_le fun other record found => ?_)
  rw [parentsOf, found, Option.elim_some]

/-- The ancestors of an object are the tour of its parents, for which the object has been seen. -/
theorem tour_ancestors (world : World) (object : Dbref) :
    Tour world.parentsOf [object] (world.parentsOf object) (world.ancestors object) :=
  tour_walk world.nodup_slots parentsOf_eq_nil (world.stepsLeft_parents_le object)

/-- The ancestors of an object are the others that it descends from. -/
theorem mem_ancestors {ancestor : Dbref} : ancestor ∈ world.ancestors object ↔
    ancestor ≠ object ∧ Relation.TransGen world.IsChildOf object ancestor := by
  rw [ancestors, mem_walk world.nodup_slots parentsOf_eq_nil (world.stepsLeft_parents_le object)]
  constructor
  · rintro ⟨parent, linked, way⟩
    exact ⟨fun same => way.target_not_mem (by simp [same]), .head' linked (Way.nil_iff.mp way.of_cons)⟩
  · rintro ⟨apart, descends⟩
    rcases (Way.nil_iff.mpr descends.to_reflTransGen).avoid_or_leave object with avoids | same | left
    · exact absurd List.mem_cons_self avoids.start_not_mem
    · exact absurd same apart
    · exact left

theorem tour_lineage (world : World) (object : Dbref) :
    Tour world.parentsOf [] [object] (object :: world.ancestors object) := by
  refine .visit List.not_mem_nil ?_
  rw [List.append_nil]
  exact world.tour_ancestors object

theorem unvisited_lt_searchDepth (world : World) (seen : List Dbref) :
    unvisited world.slots seen < world.searchDepth := by
  have fewer : unvisited world.slots seen ≤ world.slots.length := List.length_filter_le ..
  rw [slots, List.length_map, List.length_range] at fewer
  exact Nat.lt_succ_of_le fewer

/-! ## Definitions and values -/

/-- A name means its first declaration on an object and then its ancestors. -/
theorem findDef?_eq_findSome? (world : World) (object : Dbref) (name : Text) :
    world.findDef? object name =
      (object :: world.ancestors object).findSome? (world.definedOn? · name) :=
  (findsFirst_search parentsOf_eq_nil (world.unvisited_lt_searchDepth [])
    (world.tour_lineage object)).found

/-- An inherited value is the first one along a tour of the parents. -/
theorem inheritedValue?_of_tour {visited : List Dbref}
    (tour : Tour world.parentsOf [object] (world.parentsOf object) visited) (key : AttrKey) :
    world.inheritedValue? object key = visited.findSome? (world.ownValue? key) := by
  refine (FindsFirst.round tour fun next later visited _ tour => ?_).found
  exact findsFirst_search parentsOf_eq_nil (world.unvisited_lt_searchDepth later) tour

theorem inheritedValue?_eq_findSome? (world : World) (object : Dbref) (key : AttrKey) :
    world.inheritedValue? object key =
      (world.ancestors object).findSome? (world.ownValue? key) :=
  inheritedValue?_of_tour (world.tour_ancestors object) key

/-- A tidy record holds no empty value, so that what it holds is what others inherit. -/
theorem ownValue?_of_tidy (found : world.slot? object = some record) (tidy : record.Tidy)
    (key : AttrKey) : world.ownValue? key object = record.value? key := by
  rw [ownValue?, found, Option.bind_some]
  cases stored : record.value? key with
  | none => rfl
  | some value =>
      obtain ⟨entry, here, rfl⟩ := Option.map_eq_some_iff.mp stored
      have nonempty := tidy.values_ne_nil entry (List.mem_of_find?_eq_some here)
      simp [nonempty]

/-- What is stored for an inherited attribute is the first value of the object and its ancestors. -/
theorem storedValue_eq_findSome? (found : world.slot? object = some record) (tidy : record.Tidy)
    {handle : AttrDef} (inherits : handle.hasFlag .inherit = true) :
    world.storedValue object record handle =
      ((object :: world.ancestors object).findSome? (world.ownValue? handle.key)).getD [] := by
  rw [List.findSome?_cons, ownValue?_of_tidy found tidy, storedValue]
  cases record.value? handle.key with
  | some value => rfl
  | none => rw [if_pos inherits, inheritedValue?_eq_findSome?]

/-- In a reachable world, with cycles and repeated parents or not, a name means its first
declaration on an object and then its ancestors, in their order; and an attribute that is inherited
and stored is read, unless a reading is remembered, as its first value that is not empty on the
object and then its ancestors, in the same order. -/
theorem Reachable.lookups_inOrder {allowed : Operation → Prop}
    (reachable : Reachable allowed world) (object : Dbref) :
    (∀ name, world.findDef? object name =
        (object :: world.ancestors object).findSome? (world.definedOn? · name)) ∧
      ∀ handle cache, handle.isComputed = false → handle.hasFlag .inherit = true →
        cache.lookup? object handle.key = none →
          (world.readWith cache object handle).1 =
            ((object :: world.ancestors object).findSome?
              (world.ownValue? handle.key)).getD [] := by
  obtain ⟨loose, balanced⟩ := reachable.covered
  refine ⟨world.findDef?_eq_findSome? object, fun handle cache stored inherits forgotten => ?_⟩
  cases found : world.slot? object with
  | none =>
      have parents : world.parentsOf object = [] := by rw [parentsOf, found, Option.elim_none]
      have alone : world.ancestors object = [] := by simp [ancestors, parents, walk]
      have nothing : world.ownValue? handle.key object = none := by
        rw [ownValue?, found, Option.bind_none, Option.filter_none]
      rw [readWith, found, alone, List.findSome?_cons, nothing]
      rfl
  | some record =>
      rw [readWith_of_looksUp found stored, forgotten, Option.getD_none]
      exact storedValue_eq_findSome? found (balanced.tidy record (slot?_mem found)) inherits

/-- Parents with a cycle, a parent that is listed twice and two ways to the last object. -/
def tangledFixture : WorldFixture :=
  let thing (parents : List Dbref) (defs attrs : List (Text × Text)) : ObjectFixture :=
    ⟨"Thing".toList, .thing, none, .nothing, .nothing, .nothing, [], parents, defs, attrs⟩
  ⟨{}, [
    thing [⟨1⟩, ⟨1⟩, ⟨2⟩] [] [],
    thing [⟨0⟩, ⟨3⟩] [] [],
    thing [⟨3⟩] [] [("FOO".toList, "far".toList)],
    thing [] [("FOO".toList, "inherit".toList)] [("FOO".toList, "near".toList)]]⟩

/-- The last object comes before the third one, so that its value is the one that counts. -/
theorem lookups_inOrder_tangled :
    let foo : AttrDef := ⟨.declared 0, "FOO".toList, .ofList [.inherit], ⟨3⟩⟩
    ∃ world, ofFixture tangledFixture 0 = .ok world ∧
      world.ancestors .system = [⟨1⟩, ⟨3⟩, ⟨2⟩] ∧
      world.findDef? .system "foo".toList = some foo ∧
      (world.readWith (.blank true) .system foo).1 = "near".toList := by
  intro foo
  have shown : (ofFixture tangledFixture 0).toOption.map (fun world =>
      (world.ancestors .system,
        (.system :: world.ancestors .system).findSome? (world.definedOn? · "foo".toList),
        (.system :: world.ancestors .system).findSome? (world.ownValue? foo.key))) =
      some ([⟨1⟩, ⟨3⟩, ⟨2⟩], some foo, some "near".toList) := by
    decide +kernel
  obtain ⟨world, loaded, seen⟩ := Option.map_eq_some_iff.mp shown
  have loads : ofFixture tangledFixture 0 = .ok world := by
    cases outcome : ofFixture tangledFixture 0 with
    | error refusal => simp [outcome, Except.toOption] at loaded
    | ok other => rw [outcome] at loaded; exact congrArg Except.ok (Option.some.inj loaded)
  obtain ⟨ancestors, definition, value⟩ := by simpa only [Prod.mk.injEq] using seen
  have reachable : Reachable (fun _ => True) world := ⟨world, .loaded loads, .refl⟩
  obtain ⟨definitions, values⟩ := reachable.lookups_inOrder .system
  refine ⟨world, loads, ancestors, (definitions _).trans definition, ?_⟩
  rw [values foo (.blank true) (by decide +kernel) (by decide +kernel) rfl, value, Option.getD_some]

end World
end WorldLocks
