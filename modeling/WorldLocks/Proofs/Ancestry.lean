import WorldLocks.Proofs.Lookups
import WorldLocks.Proofs.Relations.Descent

/-! Descent as it is told: by a walk from an object up to its ancestors, by a list of these, and by
a walk down from an ancestor.  The walks come to exactly what there is a way to along the parents,
whatever cycles, repeated parents and destroyed objects there are on the way. -/

set_option autoImplicit false

namespace WorldLocks

namespace World

variable {world : World} {object ancestor : Dbref}

/-! ## Upwards -/

theorem nodup_ancestors (world : World) (object : Dbref) : (world.ancestors object).Nodup :=
  (world.tour_ancestors object).distinct.1

theorem descends_iff_mem_ancestors :
    world.Descends object ancestor ↔ ancestor = object ∨ ancestor ∈ world.ancestors object := by
  rw [mem_ancestors, Descends, Relation.reflTransGen_iff_eq_or_transGen]
  by_cases same : ancestor = object <;> simp [same]

/-- How the descent of an object is told: whether it descends from another one, and which others
these are, each once. -/
structure TellsDescent (world : World) (object : Dbref) : Prop where
  isA_iff : ∀ ancestor, world.isA object ancestor = true ↔
    Relation.ReflTransGen world.IsChildOf object ancestor
  mem_ancestors_iff : ∀ ancestor, ancestor ∈ world.ancestors object ↔
    ancestor ≠ object ∧ Relation.TransGen world.IsChildOf object ancestor
  once : (world.ancestors object).Nodup
  isA_iff_mem : ∀ ancestor, world.isA object ancestor = true ↔
    ancestor = object ∨ ancestor ∈ world.ancestors object

/-- In every world descent is told as it is along the parents, of every object but nothing, which
descends from everything. -/
theorem tellsDescent (world : World) (object : Dbref) (something : object ≠ .nothing) :
    world.TellsDescent object := by
  have walks (ancestor : Dbref) :
      world.isA object ancestor = true ↔ world.Descends object ancestor := by
    rw [isA_iff, or_iff_right something]
  constructor
  case isA_iff => exact walks
  case mem_ancestors_iff => exact fun _ => mem_ancestors
  case once => exact world.nodup_ancestors object
  case isA_iff_mem => exact fun ancestor => (walks ancestor).trans descends_iff_mem_ancestors

/-- An object and its parent are each other's parents, and the parent is marked as destroyed, which
cuts nobody off from what is above it. -/
theorem tellsDescent_tangled :
    ∃ world, ofFixture tangledFixture 0 = .ok world ∧
      let marked := (world.setFlag .root .going true).2
      marked.isValid .root = false ∧ marked.TellsDescent .system ∧
        marked.Descends .system ⟨3⟩ ∧ ¬ marked.Descends ⟨3⟩ .system := by
  have shown : (ofFixture tangledFixture 0).toOption.map (fun world =>
      let marked := (world.setFlag .root .going true).2
      (marked.isValid .root, marked.isA .system ⟨3⟩, marked.isA ⟨3⟩ .system)) =
      some (false, true, false) := by
    decide +kernel
  obtain ⟨world, loads, seen⟩ := exists_ofFixture shown
  obtain ⟨gone, up, down⟩ := by simpa only [Prod.mk.injEq] using seen
  have below := tellsDescent (world.setFlag .root .going true).2 .system (by decide)
  have above := tellsDescent (world.setFlag .root .going true).2 ⟨3⟩ (by decide)
  refine ⟨world, loads, gone, below, (below.isA_iff ⟨3⟩).mp up, fun descends => ?_⟩
  rw [(above.isA_iff .system).mpr descends] at down
  cases down

/-! ## Downwards -/

theorem mem_familyOf {member : Dbref} : member ∈ world.familyOf object ↔
    Relation.ReflTransGen (fun parent child => child ∈ world.childrenOf parent) object member := by
  have children := world.mem_walk_walkBound world.childrenOf (·.children)
    (fun object record found => by simp [childrenOf, found])
    (fun object missing => by simp [childrenOf, missing]) [object] member
  simp only [List.mem_singleton, exists_eq_left] at children
  exact children

/-- Where parents list their children, a family is made of those who descend from its head. -/
theorem ListsChildren.mem_familyOf (lists : world.ListsChildren) {member : Dbref} :
    member ∈ world.familyOf object ↔ world.Descends member object := by
  have links : (fun parent child => child ∈ world.childrenOf parent) =
      Function.swap world.IsChildOf := by
    funext parent child
    exact propext lists.mem_childrenOf
  rw [World.mem_familyOf, links, Relation.reflTransGen_swap]

end World
end WorldLocks
