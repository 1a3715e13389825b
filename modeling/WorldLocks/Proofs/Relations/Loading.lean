import WorldLocks.Proofs.Loading
import WorldLocks.Proofs.Relations.Basic

/-! What loading does to places and descent.  Objects are related one after the other in the order
of their numbers, and those whose turn has not come are nowhere and have no parents.  Declarations
and values come after all relations. -/

set_option autoImplicit false

namespace WorldLocks.World

variable {world loaded : World} {object : Dbref}

/-! ## Unrelated objects -/

/-- Whether no object of a world has any relations yet. -/
structure IsLoose (world : World) : Prop where
  location (object : Dbref) : world.location object = .nothing
  inside (place : Dbref) (asExit : Bool) : world.inside place asExit = []
  parentsOf (object : Dbref) : world.parentsOf object = []
  childrenOf (object : Dbref) : world.childrenOf object = []

theorem isLoose_new (config : WorldConfig) (clock : Int) : (World.new config clock).IsLoose where
  location := elim_slot?_of_forall (by simp [World.new])
  inside place asExit := elim_slot?_of_forall (by simp [World.new]) place
  parentsOf := elim_slot?_of_forall (by simp [World.new])
  childrenOf := elim_slot?_of_forall (by simp [World.new])

theorem isLoose_of_unrelated {fixture : WorldFixture} {clock : Int} {loose : World}
    (start : unrelated fixture clock = .ok loose) :
    loose.IsLoose ∧ ∀ slot < fixture.objects.length, (loose.slot? (.ofIndex slot)).isSome := by
  obtain ⟨-, rfl⟩ := unrelated_eq_ok.mp start
  refine ⟨⟨?_, fun place asExit => ?_, ?_, ?_⟩, fun slot below => by simpa using below⟩
  · exact elim_slot?_of_forall (by simp [ObjectFixture.record, ObjectRecord.new])
  · refine elim_slot?_of_forall (fun record member => ?_) place
    obtain ⟨object, -, rfl⟩ := List.mem_map.mp member
    cases asExit <;> rfl
  · exact elim_slot?_of_forall (by simp [ObjectFixture.record, ObjectRecord.new])
  · exact elim_slot?_of_forall (by simp [ObjectFixture.record, ObjectRecord.new])

/-! ## The steps of one object -/

theorem placing_relate (world : World) (object : Dbref) (fixture : ObjectFixture) :
    world.SameIn ObjectRecord.placing (world.relate object fixture) :=
  (SameIn.refl _ world).modify object fun _ => by rfl

theorem parentsOf_relate (present : (world.slot? object).isSome) (fixture : ObjectFixture)
    (other : Dbref) : (world.relate object fixture).parentsOf other =
      if other = object then fixture.parents else world.parentsOf other := by
  unfold parentsOf relate
  rw [slot?_modify]
  cases there : world.slot? other with
  | none =>
      have apart : other ≠ object := fun same => by simp [same ▸ there] at present
      simp [apart]
  | some record => simp [apply_ite ObjectRecord.parents]

theorem childrenOf_relate (world : World) (object : Dbref) (fixture : ObjectFixture)
    (other : Dbref) : (world.relate object fixture).childrenOf other = world.childrenOf other :=
  ((SameIn.refl ObjectRecord.children world).modify object fun _ => by rfl).elim [] other

theorem placing_enlistChild {parents : List Dbref}
    (lists : world.enlistChild object parents = .ok loaded) :
    world.SameIn ObjectRecord.placing loaded := by
  induction parents generalizing world with
  | nil => exact Except.ok.inj lists ▸ .refl _ world
  | cons parent later ih =>
      unfold enlistChild at lists
      split at lists
      · exact ((SameIn.refl _ world).modify parent fun _ => by rfl).trans (ih lists)
      · cases lists

theorem parentsOf_enlistChild {parents : List Dbref}
    (lists : world.enlistChild object parents = .ok loaded) (other : Dbref) :
    loaded.parentsOf other = world.parentsOf other := by
  induction parents generalizing world with
  | nil => rw [Except.ok.inj lists]
  | cons parent later ih =>
      unfold enlistChild at lists
      split at lists
      · rw [ih lists]
        exact ((SameIn.refl ObjectRecord.parents world).modify parent fun _ => by rfl).elim [] other
      · cases lists

/-- A child is listed by a parent as often as the child lists the parent. -/
theorem count_childrenOf_enlistChild {parents : List Dbref}
    (lists : world.enlistChild object parents = .ok loaded) (parent child : Dbref) :
    (loaded.childrenOf parent).count child = (world.childrenOf parent).count child +
      if child = object then parents.count parent else 0 := by
  induction parents generalizing world with
  | nil => simp [Except.ok.inj lists]
  | cons first later ih =>
      unfold enlistChild at lists
      split at lists
      · next present =>
        have listed : (world.modify first fun record =>
            { record with children := record.children ++ [object] }).childrenOf parent =
              world.childrenOf parent ++ if parent = first then [object] else [] := by
          unfold childrenOf
          rw [slot?_modify]
          cases there : world.slot? parent with
          | none =>
              have apart : parent ≠ first := fun same => by simp [← same, there] at present
              simp [apart]
          | some record => by_cases same : parent = first <;> simp [same]
        rw [ih lists, listed, List.count_append, List.count_cons]
        by_cases same : parent = first
        · subst same
          by_cases own : child = object
          · simp [own]
            omega
          · have apart : object ≠ child := fun equal => own equal.symm
            simp [own, apart]
        · have apart : first ≠ parent := fun equal => same equal.symm
          simp [same, apart]
      · cases lists

theorem kinship_settle (world : World) (object location : Dbref) :
    world.SameIn ObjectRecord.kinship (world.settle object location) := by
  unfold settle
  split
  · exact .refl _ world
  · exact kinship_putInto world object location

theorem mayReferTo_of_loadRelations {fixture : ObjectFixture}
    (loads : loadRelations world object fixture = .ok loaded) {reference : Dbref}
    (listed : reference ∈ fixture.references object) : world.mayReferTo reference = true := by
  unfold loadRelations at loads
  split at loads
  · cases loads
  · next none => simpa using List.find?_eq_none.mp none reference listed

/-! ## The rounds -/

/-- Nothing but what objects declare and store changes after the round of relations. -/
theorem ofFixture_related {fixture : WorldFixture} {clock : Int}
    (loads : ofFixture fixture clock = .ok loaded) :
    ∃ loose related, unrelated fixture clock = .ok loose ∧
      loadEach fixture loadRelations loose = .ok related ∧ related.SameBare loaded := by
  obtain ⟨loose, start, rounds⟩ := bind_eq_ok.mp loads
  obtain ⟨related, relating, rounds⟩ := bind_eq_ok.mp rounds
  obtain ⟨declared, declaring, storing⟩ := bind_eq_ok.mp rounds
  refine ⟨loose, related, start, relating, ?_⟩
  have afterDefs : related.SameBare declared := by
    refine foldlM_invariant related.SameBare (fun world _ _ next same round => ?_) (.refl _ _)
      declaring
    refine foldlM_invariant related.SameBare (fun world _ _ next same step => ?_) same round
    exact loadDef_ok step ▸ same.declareAttr _ _ _
  refine foldlM_invariant related.SameBare (fun world _ _ next same round => ?_) afterDefs storing
  refine foldlM_invariant related.SameBare (fun world _ _ next same step => ?_) same round
  obtain ⟨definition, -, rfl⟩ := loadValue_ok step
  exact same.setValue _ _ _

end WorldLocks.World
