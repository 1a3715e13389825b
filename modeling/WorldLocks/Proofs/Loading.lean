import WorldLocks.Fixture.Load
import WorldLocks.Proofs.Results

/-! Loading, step by step.  A fixture that loads was loaded by steps that all went through, and what
every step keeps holds of the loaded world. -/

set_option autoImplicit false

namespace WorldLocks

namespace World

variable {world loaded : World}

theorem unrelated_eq_ok {fixture : WorldFixture} {clock : Int} :
    unrelated fixture clock = .ok loaded ↔
      fixture.objects.length ≤ Dbref.maxNumber + 1 ∧
        loaded = { World.new fixture.config clock with
          objects := fixture.objects.map fun object => object.record clock } := by
  unfold unrelated
  split
  · simp only [reduceCtorEq, false_iff, not_and]
    omega
  · simp only [Except.ok.injEq]
    constructor
    · rintro rfl
      exact ⟨by omega, rfl⟩
    · rintro ⟨-, rfl⟩
      rfl

theorem loadRelations_ok {object : Dbref} {fixture : ObjectFixture}
    (loads : loadRelations world object fixture = .ok loaded) :
    ∃ enlisted, (world.relate object fixture).enlistChild object fixture.parents = .ok enlisted ∧
      loaded = enlisted.settle object fixture.location := by
  unfold loadRelations at loads
  split at loads
  · cases loads
  · obtain ⟨enlisted, listing, placed⟩ := bind_eq_ok.mp loads
    exact ⟨enlisted, listing, (Except.ok.inj placed).symm⟩

theorem loadDef_ok {object : Dbref} {entry : Text × Text}
    (loads : loadDef object world entry = .ok loaded) :
    loaded = (world.declareAttr object entry.1 (AttrFlag.readOptions entry.2).1).2 := by
  unfold loadDef at loads
  dsimp only at loads
  split at loads
  · next flags read =>
    split at loads
    · next result declared outcome =>
      rw [read, outcome]
      exact (Except.ok.inj loads).symm
    · cases loads
  · cases loads

theorem loadValue_ok {object : Dbref} {entry : Text × Text}
    (loads : loadValue object world entry = .ok loaded) :
    ∃ definition, world.namedAttr? object entry.1 = some definition ∧
      loaded = (world.setValue object definition entry.2).2 := by
  unfold loadValue at loads
  dsimp only at loads
  split at loads
  · cases loads
  · next definition named =>
    refine ⟨definition, named, ?_⟩
    split at loads
    · next result stored outcome =>
      rw [outcome]
      exact (Except.ok.inj loads).symm
    · cases loads

/-- What the steps of a round keep, if it depends on the objects that the round has been through. -/
theorem loadEach_invariant (holds : Nat → World → Prop) {fixture : WorldFixture}
    {load : World → Dbref → ObjectFixture → Except FixtureError World}
    (keeps : ∀ world index object next, index < fixture.objects.length → holds index world →
      load world (.ofIndex index) object = .ok next → holds (index + 1) next)
    (starts : holds 0 world) (loads : loadEach fixture load world = .ok loaded) :
    holds fixture.objects.length loaded := by
  have after := foldlM_zipIdx_invariant holds
    (fun state object index next within => keeps state index object next (by omega)) starts loads
  rwa [Nat.zero_add] at after

/-- What holds of the unrelated objects and is kept by every step of the rounds holds of the loaded
world. -/
theorem ofFixture_invariant (holds : World → Prop) {fixture : WorldFixture} {clock : Int}
    (loads : ofFixture fixture clock = .ok loaded)
    (starts : ∀ loose, unrelated fixture clock = .ok loose → holds loose)
    (relates : ∀ world object fixture next, holds world →
      loadRelations world object fixture = .ok next → holds next)
    (declares : ∀ (world : World) object name flags, holds world →
      holds (world.declareAttr object name flags).2)
    (stores : ∀ (world : World) object handle value, holds world →
      holds (world.setValue object handle value).2) : holds loaded := by
  obtain ⟨loose, start, rounds⟩ := bind_eq_ok.mp loads
  obtain ⟨related, relating, rounds⟩ := bind_eq_ok.mp rounds
  obtain ⟨declared, declaring, storing⟩ := bind_eq_ok.mp rounds
  have afterRelations : holds related :=
    foldlM_invariant holds (fun world _ _ next => relates world _ _ next) (starts loose start)
      relating
  have afterDefs : holds declared := by
    refine foldlM_invariant holds (fun world _ _ next before round => ?_) afterRelations declaring
    refine foldlM_invariant holds (fun world _ _ next before step => ?_) before round
    exact loadDef_ok step ▸ declares world _ _ _ before
  refine foldlM_invariant holds (fun world _ _ next before round => ?_) afterDefs storing
  refine foldlM_invariant holds (fun world _ _ next before step => ?_) before round
  obtain ⟨definition, -, rfl⟩ := loadValue_ok step
  exact stores world _ _ _ before

/-- What a fixture shows when it is loaded, a world that it loads to shows. -/
theorem exists_ofFixture {α : Type} {fixture : WorldFixture} {clock : Int} {view : World → α}
    {seen : α} (shown : (ofFixture fixture clock).toOption.map view = some seen) :
    ∃ world, ofFixture fixture clock = .ok world ∧ view world = seen := by
  cases outcome : ofFixture fixture clock with
  | error refusal =>
      rw [outcome] at shown
      cases shown
  | ok world =>
      rw [outcome] at shown
      exact ⟨world, rfl, Option.some.inj shown⟩

end World
end WorldLocks
