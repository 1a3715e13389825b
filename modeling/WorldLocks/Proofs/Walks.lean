import Mathlib.Algebra.Order.BigOperators.Group.List
import Mathlib.Algebra.Order.Group.Nat
import Mathlib.Data.List.Nodup
import Mathlib.Logic.Relation
import WorldLocks.Proofs.Table

/-! Walks come to exactly what there is a way to.  Where a walk has been matters for what is still
ahead of it: it does not pass the same object again, and it need not, since every way can be cut
short to one that passes an object at most once.  The bound on the steps of a walk is never what
ends it. -/

set_option autoImplicit false

namespace WorldLocks

/-- A way along links from one object to another that passes none of those that have been seen. -/
inductive Way (links : Dbref → List Dbref) (seen : List Dbref) : Dbref → Dbref → Prop where
  | here {object : Dbref} (unseen : object ∉ seen) : Way links seen object object
  | step {object next target : Dbref} (unseen : object ∉ seen) (link : next ∈ links object)
      (rest : Way links seen next target) : Way links seen object target

namespace Way

variable {links : Dbref → List Dbref} {seen : List Dbref} {start target object : Dbref}

theorem start_not_mem (way : Way links seen start target) : start ∉ seen := by
  cases way with
  | here unseen => exact unseen
  | step unseen _ _ => exact unseen

theorem target_not_mem (way : Way links seen start target) : target ∉ seen := by
  induction way with
  | here unseen => exact unseen
  | step _ _ _ ih => exact ih

theorem of_cons (way : Way links (object :: seen) start target) : Way links seen start target := by
  induction way with
  | here unseen => exact .here fun member => unseen (List.mem_cons_of_mem _ member)
  | step unseen link _ ih =>
      exact .step (fun member => unseen (List.mem_cons_of_mem _ member)) link ih

/-- A way either avoids an object or can be entered where it leaves the object for the last time. -/
theorem avoid_or_leave (way : Way links seen start target) (object : Dbref) :
    Way links (object :: seen) start target ∨ target = object ∨
      ∃ next ∈ links object, Way links (object :: seen) next target := by
  induction way with
  | @here last unseen =>
      by_cases same : last = object
      · exact .inr (.inl same)
      · exact .inl (.here (by simp [same, unseen]))
  | @step passed next last unseen link _ ih =>
      rcases ih with avoids | left
      · by_cases same : passed = object
        · exact .inr (.inr ⟨next, same ▸ link, avoids⟩)
        · exact .inl (.step (by simp [same, unseen]) link avoids)
      · exact .inr left

theorem nil_iff : Way links [] start target ↔
    Relation.ReflTransGen (fun object next => next ∈ links object) start target := by
  constructor
  · intro way
    induction way with
    | here => exact .refl
    | step _ link _ ih => exact .head link ih
  · intro reaches
    induction reaches using Relation.ReflTransGen.head_induction_on with
    | refl => exact .here List.not_mem_nil
    | head link _ ih => exact .step List.not_mem_nil link ih

end Way

/-! ## Cycles -/

/-- Whether no object has a way along links back to itself. -/
def Acyclic (linked : Dbref → Dbref → Prop) : Prop :=
  ∀ object, ¬ Relation.TransGen linked object object

section Cycles

variable {linked more : Dbref → Dbref → Prop}

theorem Acyclic.mono (acyclic : Acyclic more)
    (fewer : ∀ object next, linked object next → more object next) : Acyclic linked :=
  fun object cycle => acyclic object (Relation.TransGen.mono fewer _ _ cycle)

/-- A way along links and a new one either does without the new one or comes to its start and
goes on from its end. -/
theorem transGen_of_insert {source destination object target : Dbref}
    (links : ∀ object next, more object next →
      linked object next ∨ object = source ∧ next = destination)
    (way : Relation.TransGen more object target) :
    Relation.TransGen linked object target ∨ Relation.ReflTransGen linked object source ∧
      Relation.ReflTransGen linked destination target := by
  induction way with
  | single last =>
      rcases links _ _ last with old | ⟨rfl, rfl⟩
      · exact .inl (.single old)
      · exact .inr ⟨.refl, .refl⟩
  | tail _ last ih =>
      rcases links _ _ last with old | ⟨rfl, rfl⟩
      · exact ih.imp (·.tail old) fun ⟨into, out⟩ => ⟨into, out.tail old⟩
      · exact .inr ⟨ih.elim (·.to_reflTransGen) (·.1), .refl⟩

/-- A new link closes no cycle if there is no way from its end to its start. -/
theorem Acyclic.insert (acyclic : Acyclic linked) {source destination : Dbref}
    (links : ∀ object next, more object next →
      linked object next ∨ object = source ∧ next = destination)
    (apart : ¬ Relation.ReflTransGen linked destination source) : Acyclic more := by
  intro object cycle
  rcases transGen_of_insert links cycle with old | ⟨into, out⟩
  · exact acyclic object old
  · exact apart (out.trans into)

end Cycles

/-! ## Steps -/

section Steps

variable {links : Dbref → List Dbref} {table : List Dbref}

/-- How many steps a walk can still make: one for each that is on the stack, and one for each link
of an object that has not been seen. -/
def stepsLeft (links : Dbref → List Dbref) (table stack seen : List Dbref) : Nat :=
  stack.length + ((table.filter (· ∉ seen)).flatMap links).length

theorem filter_unseen_cons {object : Dbref} {part : List Dbref} (missing : object ∉ part)
    (seen : List Dbref) : part.filter (· ∉ object :: seen) = part.filter (· ∉ seen) := by
  refine List.filter_congr fun other member => ?_
  have different : other ≠ object := fun same => missing (same ▸ member)
  simp [different]

/-- A visit costs a step and brings the links of what is visited onto the stack. -/
theorem stepsLeft_visit (distinct : table.Nodup)
    (within : ∀ object, object ∉ table → links object = []) {object : Dbref}
    {seen : List Dbref} (unseen : object ∉ seen) (stack : List Dbref) :
    stepsLeft links table (links object ++ stack) (object :: seen) + 1 =
      stepsLeft links table (object :: stack) seen := by
  unfold stepsLeft
  by_cases listed : object ∈ table
  · obtain ⟨before, behind, rfl⟩ := List.append_of_mem listed
    obtain ⟨apart, -⟩ := List.nodup_cons.mp (List.nodup_middle.mp distinct)
    rw [List.mem_append, not_or] at apart
    have visited : (object :: behind).filter (· ∉ object :: seen) = behind.filter (· ∉ seen) := by
      rw [List.filter_cons_of_neg (by simp), filter_unseen_cons apart.2]
    have unvisited : (object :: behind).filter (· ∉ seen) = object :: behind.filter (· ∉ seen) :=
      List.filter_cons_of_pos (by simpa using unseen)
    rw [List.filter_append, List.filter_append, filter_unseen_cons apart.1, visited, unvisited]
    simp only [List.flatMap_append, List.flatMap_cons, List.length_append, List.length_cons]
    omega
  · rw [filter_unseen_cons listed, within object listed]
    simp only [List.nil_append, List.length_cons]
    omega

/-- With enough steps a walk comes to what there is a way to from the stack. -/
theorem mem_walk (distinct : table.Nodup)
    (within : ∀ object, object ∉ table → links object = []) {bound : Nat}
    {stack seen : List Dbref} (enough : stepsLeft links table stack seen ≤ bound)
    {target : Dbref} :
    target ∈ walk links bound stack seen ↔ ∃ start ∈ stack, Way links seen start target := by
  induction bound generalizing stack seen with
  | zero =>
      cases stack with
      | nil => simp [walk]
      | cons object stack => simp [stepsLeft] at enough
  | succ bound ih =>
      cases stack with
      | nil => simp [walk]
      | cons object stack =>
          unfold walk
          by_cases passed : object ∈ seen
          · have skipped : stepsLeft links table stack seen ≤ bound := by
              simp only [stepsLeft, List.length_cons] at enough ⊢
              omega
            rw [if_pos (by simpa using passed), ih skipped]
            constructor
            · rintro ⟨start, member, way⟩
              exact ⟨start, List.mem_cons_of_mem _ member, way⟩
            · rintro ⟨start, member, way⟩
              rcases List.mem_cons.mp member with rfl | member
              · exact absurd passed way.start_not_mem
              · exact ⟨start, member, way⟩
          · have visited := stepsLeft_visit distinct within passed stack
            rw [if_neg (by simpa using passed), List.mem_cons, ih (by omega)]
            constructor
            · rintro (rfl | ⟨start, member, way⟩)
              · exact ⟨target, List.mem_cons_self, .here passed⟩
              · rcases List.mem_append.mp member with linked | stacked
                · exact ⟨object, List.mem_cons_self, .step passed linked way.of_cons⟩
                · exact ⟨start, List.mem_cons_of_mem _ stacked, way.of_cons⟩
            · rintro ⟨start, member, way⟩
              rcases way.avoid_or_leave object with avoids | same | ⟨next, linked, way⟩
              · rcases List.mem_cons.mp member with rfl | stacked
                · exact absurd List.mem_cons_self avoids.start_not_mem
                · exact .inr ⟨start, List.mem_append_right _ stacked, avoids⟩
              · exact .inl same
              · exact .inr ⟨next, List.mem_append_left _ linked, way⟩

end Steps

/-! ## Walks through a world -/

namespace World

variable {world : World}

theorem mem_slots {object : Dbref} : object ∈ world.slots ↔ (world.slot? object).isSome := by
  constructor
  · intro member
    obtain ⟨index, within, rfl⟩ := List.mem_map.mp member
    simpa using within
  · intro present
    obtain ⟨record, found⟩ := Option.isSome_iff_exists.mp present
    obtain ⟨index, rfl, there⟩ := slot?_eq_some.mp found
    exact List.mem_map.mpr ⟨index, List.mem_range.mpr (List.getElem?_eq_some_iff.mp there).1, rfl⟩

theorem nodup_slots (world : World) : world.slots.Nodup :=
  List.Nodup.map (fun _ _ same => Dbref.ofIndex_injective same) List.nodup_range

/-- The slots have no more links than their records list. -/
theorem length_slots_flatMap_le {links : Dbref → List Dbref} {fields : ObjectRecord → List Dbref}
    (fewer : ∀ object record, world.slot? object = some record →
      (links object).length ≤ (fields record).length) :
    (world.slots.flatMap links).length ≤ (world.objects.flatMap fields).length := by
  have listed : world.objects.map (fun record => (fields record).length) =
      (List.range world.objects.length).map fun index =>
        (world.objects[index]?).elim 0 fun record => (fields record).length := by
    refine List.ext_getElem (by simp) fun index within _ => ?_
    have inside : index < world.objects.length := by simpa using within
    simp [inside]
  rw [List.length_flatMap, List.length_flatMap, listed, slots, List.map_map]
  refine List.sum_le_sum fun index member => ?_
  have inside := List.getElem?_eq_getElem (List.mem_range.mp member)
  rw [inside]
  exact fewer (.ofIndex index) _ (by rw [slot?_ofIndex, inside])

/-- The bound of a walk through a world is enough. -/
theorem mem_walk_walkBound (links : Dbref → List Dbref) (fields : ObjectRecord → List Dbref)
    (fewer : ∀ object record, world.slot? object = some record →
      (links object).length ≤ (fields record).length)
    (within : ∀ object, world.slot? object = none → links object = []) (start : List Dbref)
    (target : Dbref) :
    target ∈ walk links (world.walkBound fields start) start [] ↔
      ∃ first ∈ start,
        Relation.ReflTransGen (fun object next => next ∈ links object) first target := by
  have outside : ∀ object, object ∉ world.slots → links object = [] := by
    intro object missing
    rw [mem_slots, Option.not_isSome_iff_eq_none] at missing
    exact within object missing
  have enough : stepsLeft links world.slots start [] ≤ world.walkBound fields start := by
    have all : world.slots.filter (· ∉ ([] : List Dbref)) = world.slots := by simp
    rw [stepsLeft, all]
    exact Nat.add_le_add_left (length_slots_flatMap_le fewer) _
  rw [mem_walk world.nodup_slots outside enough]
  simp only [Way.nil_iff]

/-! ## Parents and places -/

/-- Whether an object has another one as a parent. -/
def IsChildOf (world : World) (child parent : Dbref) : Prop := parent ∈ world.parentsOf child

/-- Whether an object is another one or descends from it. -/
abbrev Descends (world : World) : Dbref → Dbref → Prop := Relation.ReflTransGen world.IsChildOf

theorem isA_iff {object ancestor : Dbref} :
    world.isA object ancestor = true ↔ object = .nothing ∨ world.Descends object ancestor := by
  have parents := world.mem_walk_walkBound world.parentsOf (·.parents)
    (fun object record found => by simp [parentsOf, found])
    (fun object missing => by simp [parentsOf, missing]) [object] ancestor
  simp only [List.mem_singleton, exists_eq_left] at parents
  unfold isA
  rw [Bool.or_eq_true, decide_eq_true_eq, List.contains_iff_mem, parents]
  rfl

/-- Whether an object is somewhere, and right there. -/
def LiesIn (world : World) (object place : Dbref) : Prop := place ∈ world.placeOf object

theorem mem_outward {object target : Dbref} :
    target ∈ world.outward object ↔ Relation.ReflTransGen world.LiesIn object target := by
  have places := world.mem_walk_walkBound world.placeOf (fun record => [record.location])
    (fun object record found => by
      simp only [placeOf, found]
      split <;> simp)
    (fun object missing => by simp [placeOf, missing]) [object] target
  simp only [List.mem_singleton, exists_eq_left] at places
  exact places

end World
end WorldLocks
