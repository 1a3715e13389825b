import WorldLocks.Lock.Evaluate
import WorldLocks.Proofs.Destroyed.Destroy
import WorldLocks.Proofs.Growth
import WorldLocks.Proofs.Matching
import WorldLocks.Proofs.Relations.Descent

/-! Destroyed objects stay destroyed.  A vacant slot stays vacant until its flag is taken away by
hand, and as places and descent are told from both ends, no other object knows of it any more.  What
is not valid is not matched, so that no lock finds it, and its number is not given out again. -/

set_option autoImplicit false

namespace WorldLocks

/-! ## New numbers -/

namespace World

variable {world : World} {object : Dbref}

theorem clone_eq_nextObject {source owner location : Dbref}
    (cloned : (world.clone source owner location).1 = .ok object) : object = world.nextObject := by
  unfold clone at cloned
  split at cloned
  · cases cloned
  · obtain ⟨created, grown, creates, cloned⟩ := Outcome.andThen_ok cloned
    obtain ⟨_, related, -, cloned⟩ := Outcome.andThen_ok cloned
    obtain ⟨_, copied, -, cloned⟩ := Outcome.andThen_ok cloned
    obtain rfl := Except.ok.inj cloned
    exact create_eq_nextObject (congrArg Prod.fst creates)

theorem silent_ok {α : Type} {answer : α → Operation.Answer} {outcome : Outcome α}
    {given : Operation.Answer} (answers : (Operation.silent answer outcome).result = .ok given) :
    ∃ result, outcome.1 = .ok result ∧ answer result = given := by
  obtain ⟨_ | result, world⟩ := outcome
  · cases answers
  · exact ⟨result, rfl, Except.ok.inj answers⟩

/-- Only creating and cloning answer with an object, and it is a new one. -/
theorem eq_nextObject_of_answer {operation : Operation}
    (answers : (operation.perform world).result = .ok (.object object)) :
    object = world.nextObject := by
  cases operation with
  | create name kind owner location =>
      obtain ⟨created, creates, same⟩ := silent_ok answers
      obtain rfl := Operation.Answer.object.inj same
      exact create_eq_nextObject creates
  | clone source owner location =>
      obtain ⟨created, creates, same⟩ := silent_ok answers
      obtain rfl := Operation.Answer.object.inj same
      exact clone_eq_nextObject creates
  | setLock limits player thing lock text =>
      unfold Operation.perform at answers
      dsimp only at answers
      generalize (world.setLock limits player thing lock text).result = result at answers
      cases result <;> cases answers
  | _ =>
      obtain ⟨result, -, same⟩ := silent_ok answers
      cases same

theorem isValid_of_resolve {ev : Evaluator} {locked : Dbref} {name : Text}
    (resolves : ev.resolve locked name = some object) : ev.world.isValid object = true := by
  unfold Evaluator.resolve at resolves
  split at resolves
  · split at resolves
    · next valid =>
      obtain rfl := Option.some.inj resolves
      exact valid
    · cases resolves
  · cases resolves

/-! ## Vacant slots -/

/-- Whether a slot holds a destroyed object that is nowhere, has no relatives and declares
nothing. -/
def IsVacant (world : World) (object : Dbref) : Prop :=
  ∃ record, world.slot? object = some record ∧ record.Vacant

theorem IsVacant.isGone (vacant : world.IsVacant object) : world.IsGone object := by
  obtain ⟨record, found, empty⟩ := vacant
  exact ⟨record, found, empty.going⟩

theorem IsGone.isValid_eq_false (gone : world.IsGone object) : world.isValid object = false :=
  Bool.eq_false_iff.mpr fun valid => not_isGone_of_isValid valid gone

theorem IsVacant.perform (vacant : world.IsVacant object) (operation : Operation)
    (kept : operation ≠ .setFlag object .going false) :
    (operation.perform world).world.IsVacant object := by
  have gone := vacant.isGone
  obtain ⟨record, found, empty⟩ := vacant
  have spares : Spares object True world (operation.perform world).world := by
    refine spares_perform operation (fun _ => .inr gone.isValid_eq_false) (fun on marks => ?_)
      fun _ _ => trivial
    refine iff_of_true (Bool.eq_true_of_not_eq_false fun off => kept ?_) gone
    rw [marks.eq_setFlag, off]
  obtain ⟨later, there, fades⟩ := spares.fades record found empty.going
  exact ⟨later, there, fades.vacant empty⟩

/-! ## Destroyed objects -/

/-- Whether an object is not there for anybody. -/
structure GoneForGood (world : World) (object : Dbref) : Prop where
  invalid : world.isValid object = false
  unlisted : ∀ record ∈ world.objects, object ∉ record.contents ∧ object ∉ record.exits ∧
    object ∉ record.parents ∧ object ∉ record.children
  unmatched : ∀ actor name, world.matcher actor name ≠ .ok (.found object)
  unresolved : ∀ ev : Evaluator, ev.world = world → ∀ locked name,
    ev.resolve locked name ≠ some object
  not_reused : ∀ (operation : Operation) created,
    (operation.perform world).result = .ok (.object created) → created ≠ object

/-- What is told from both ends is told by the vacant slot too, which says nothing. -/
theorem IsVacant.unlisted (vacant : world.IsVacant object) (places : world.ListsInhabitants)
    (kinship : world.ListsChildren) {other : ObjectRecord} (member : other ∈ world.objects) :
    object ∉ other.contents ∧ object ∉ other.exits ∧ object ∉ other.parents ∧
      object ∉ other.children := by
  obtain ⟨record, found, empty⟩ := vacant
  have nowhere : world.location object = .nothing := by
    rw [location, found, Option.elim_some, empty.location]
  have orphan : world.parentsOf object = [] := by
    rw [parentsOf, found, Option.elim_some, empty.parents]
  have childless : world.childrenOf object = [] := by
    rw [childrenOf, found, Option.elim_some, empty.children]
  obtain ⟨index, there⟩ := List.mem_iff_getElem?.mp member
  have slot : world.slot? (.ofIndex index) = some other := by rw [slot?_ofIndex, there]
  have outside (asExit : Bool) : object ∉ other.inside asExit := by
    intro listed
    have inside : object ∈ world.inside (.ofIndex index) asExit := by
      rwa [World.inside, slot, Option.elim_some]
    exact Dbref.ofIndex_ne_nothing index ((places.located inside).1.symm.trans nowhere)
  refine ⟨outside false, outside true, fun listed => ?_, fun listed => ?_⟩
  · have related : object ∈ world.parentsOf (.ofIndex index) := by
      rwa [parentsOf, slot, Option.elim_some]
    simpa [childless] using kinship.mem_childrenOf.mpr related
  · have related : object ∈ world.childrenOf (.ofIndex index) := by
      rwa [childrenOf, slot, Option.elim_some]
    simpa [orphan] using kinship.mem_childrenOf.mp related

theorem IsVacant.goneForGood (vacant : world.IsVacant object) (places : world.ListsInhabitants)
    (kinship : world.ListsChildren) : world.GoneForGood object := by
  have invalid := vacant.isGone.isValid_eq_false
  constructor
  · exact invalid
  · exact fun _ member => vacant.unlisted places kinship member
  · intro actor name found
    exact Bool.false_ne_true (invalid.symm.trans (isValid_of_matcher found))
  · rintro ev rfl locked name resolves
    exact Bool.false_ne_true (invalid.symm.trans (isValid_of_resolve resolves))
  · rintro operation created answers rfl
    obtain ⟨record, found, -⟩ := vacant
    exact ne_nextObject found (eq_nextObject_of_answer answers)

theorem Accounted.isVacant_of_destroy (accounted : world.Accounted) {after : World}
    (destroyed : world.destroy object = (.ok (), after)) : after.IsVacant object := by
  have inhabited : object ≠ .system := by
    intro first
    rw [destroy, if_pos first] at destroyed
    cases destroyed
  have valid : world.isValid object = true := by
    rw [destroy, if_neg inhabited, ifExists] at destroyed
    split at destroyed
    · next valid => exact valid
    · cases destroyed
  obtain ⟨final, record, same, left, vacant, -⟩ :=
    accounted.exists_destroy valid inhabited
  obtain rfl := (Prod.mk.inj (destroyed.symm.trans same)).2
  exact ⟨record, left, vacant⟩

/-- What is there stays there unless it is destroyed or marked as destroyed. -/
theorem isValid_perform (valid : world.isValid object = true) (operation : Operation)
    (destroys : operation = .destroy object → object = .system)
    (kept : operation ≠ .setFlag object .going true) :
    (operation.perform world).world.isValid object = true := by
  obtain ⟨present, living⟩ := isValid_iff_not_isGone.mp valid
  have spares : Spares object True world (operation.perform world).world := by
    refine spares_perform operation (fun own => .inl (destroys own)) (fun on marks => ?_)
      fun _ _ => trivial
    refine iff_of_false (fun set => kept ?_) living
    rw [marks.eq_setFlag, set]
  obtain ⟨record, found⟩ := Option.isSome_iff_exists.mp present
  obtain ⟨later, there, -⟩ := ((Grows.refl world).perform operation).kept object record found
  exact isValid_iff_not_isGone.mpr ⟨by simp [there], fun gone => living (spares.isGone_iff.mp gone)⟩

/-- After every run a destroyed object is gone for good, whatever is done later, as long as its flag
is not taken away by hand; and the first object is there for good, as long as it is not marked as
destroyed by hand. -/
theorem Leads.goneForGood_of_destroy {allowed : Operation → Prop} {start before : World}
    (run : Leads allowed start before) (starts : IsStart start) :
    (∀ object after, before.destroy object = (.ok (), after) →
      ∀ world, Leads (· ≠ .setFlag object .going false) after world →
        world.GoneForGood object) ∧
      (before.isValid .system = true →
        ∀ world, Leads (· ≠ .setFlag .system .going true) before world →
          world.isValid .system = true) := by
  have reachable : Reachable allowed before := ⟨start, starts, run⟩
  constructor
  · intro object after destroyed world later
    have places := (run.listsInhabitants starts).perform (.destroy object)
    have kinship := (starts.listsChildren.rearranged (run.rearranged starts)).rearranged
      ((run.listsInhabitants starts).perform_rearranged (.destroy object))
    simp only [Operation.perform, Operation.silent, destroyed] at places kinship
    have vacant := reachable.accounted.isVacant_of_destroy destroyed
    obtain ⟨vacant, places, kinship⟩ : world.IsVacant object ∧ world.ListsInhabitants ∧
        world.ListsChildren := by
      apply later.invariant
        (fun world => world.IsVacant object ∧ world.ListsInhabitants ∧ world.ListsChildren)
        ⟨vacant, places, kinship⟩
      · rintro world operation kept ⟨vacant, places, kinship⟩
        exact ⟨vacant.perform operation kept, places.perform operation,
          kinship.rearranged (places.perform_rearranged operation)⟩
      · exact fun _ _ held => held
      · exact fun _ _ held => held
    exact vacant.goneForGood places kinship
  · intro valid world later
    apply later.invariant (fun world => world.isValid .system = true) valid
    · exact fun world operation kept valid => isValid_perform valid operation (fun _ => rfl) kept
    · exact fun _ _ held => held
    · exact fun _ _ held => held

/-- A chest with a coin in it is destroyed.  Nothing can be put there any more, its name and its
number mean nothing, and the next object has another number; the hall cannot be destroyed. -/
theorem goneForGood_of_destroy_chest :
    ∃ before after world : World, Leads (fun _ => True) (.new {} 0) before ∧
      before.destroy ⟨2⟩ = (.ok (), after) ∧
      Leads (· ≠ .setFlag ⟨2⟩ .going false) after world ∧
      world.GoneForGood ⟨2⟩ ∧ before.isValid .system = true ∧
      (before.destroy .system).2.isValid .system = true := by
  let history : List Operation :=
    [.create "Hall".toList .room .nothing .nothing,
      .create "Alice".toList .player .nothing .system,
      .create "Chest".toList .thing .root .system,
      .create "Coin".toList .thing .root ⟨2⟩]
  let later : List Operation :=
    [.moveTo ⟨3⟩ ⟨2⟩,
      .addParent .root ⟨2⟩,
      .removeParent ⟨2⟩ .root,
      .setFlag ⟨2⟩ .going true,
      .setValue ⟨2⟩ (.ofBuiltin .desc) "Dust".toList,
      .create "Chest".toList .thing .root .system]
  have run : Leads (fun _ => True) (.new {} 0) (Operation.performAll (.new {} 0) history) :=
    Leads.refl.performAll fun _ _ => trivial
  obtain ⟨gone, first⟩ := run.goneForGood_of_destroy (.empty {} 0)
  have destroyed : ((Operation.performAll (.new {} 0) history).destroy ⟨2⟩).1 = .ok () := by
    decide +kernel
  have after : Leads (· ≠ .setFlag ⟨2⟩ .going false)
      ((Operation.performAll (.new {} 0) history).destroy ⟨2⟩).2
      (Operation.performAll ((Operation.performAll (.new {} 0) history).destroy ⟨2⟩).2 later) :=
    Leads.refl.performAll (by simp [later])
  have valid : (Operation.performAll (.new {} 0) history).isValid .system = true := by
    decide +kernel
  refine ⟨_, _, _, run, Prod.ext destroyed rfl, after, gone _ _ (Prod.ext destroyed rfl) _ after,
    valid, first valid _ (Leads.refl.perform (.destroy .system) (by simp))⟩

end World
end WorldLocks
