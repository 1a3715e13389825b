import WorldLocks.Proofs.Cache.Reading
import WorldLocks.Proofs.Parts.CutReferences
import WorldLocks.Proofs.Setting

/-! The lock in effect after one has been set.  What is announced follows the compiled text, which
may be empty though something was typed: a buffer may be too short for its first character.  A text
that is not empty is read back as it is stored.  Without one the thing has no lock of its own, but
where its kind is inherited an ancestor's lock shows again. -/

set_option autoImplicit false

namespace WorldLocks

/-! ## Compiled texts -/

namespace Compiler

variable {compiler : Compiler} {text : Text} {bufferLen : Nat} {compiled : CompiledLock}

theorem text_eq_nil_of_compile (compiles : compiler.compile [] bufferLen = .ok compiled) :
    compiled.text = [] := by
  unfold compile at compiles
  split at compiles
  · obtain rfl := Except.ok.inj compiles
    rfl
  · cases compiles

theorem exists_first_of_compile (nonempty : text ≠ [])
    (compiles : compiler.compile text bufferLen = .ok compiled) (room : 2 ≤ bufferLen) :
    ∃ c rest, compiler.unbounded text = c :: rest ∧
      (c.utf8Size < bufferLen → compiled.text ≠ []) := by
  obtain ⟨c, rest, whole⟩ := exists_unbounded_eq_cons nonempty compiles room
  have cut := cutShort_of_compile compiles
  rw [whole] at cut
  exact ⟨c, rest, whole, fun fits => ne_nil_of_cutShort fits cut⟩

end Compiler

/-! ## Reading back -/

namespace World

variable {before world : World} {thing : Dbref} {lock : AttrDef} {text : Text} {stamp : Int}

/-- Whether some ancestor of an object holds a value for a key. -/
def InheritsValue (world : World) (object : Dbref) (key : AttrKey) : Prop :=
  ∃ ancestor, Relation.TransGen world.IsChildOf object ancestor ∧
    (world.ownValue? key ancestor).isSome

theorem inheritedValue?_eq_none {object : Dbref} {key : AttrKey}
    (inherits : ¬ world.InheritsValue object key) : world.inheritedValue? object key = none := by
  cases inherited : world.inheritedValue? object key with
  | none => rfl
  | some value =>
      obtain ⟨ancestor, descends, own⟩ := exists_of_inheritedValue? inherited
      exact absurd ⟨ancestor, descends, by simp [own]⟩ inherits

theorem isComputed_of_setValue {object : Dbref} {handle : AttrDef} {value : Text}
    (done : (world.setValue object handle value).1 = .ok ()) : handle.isComputed = false := by
  unfold setValue at done
  split at done
  · cases done
  · next stored => simpa using stored

theorem isComputed_of_storeLock (done : (world.storeLock thing lock text).1 = .ok ()) :
    lock.isComputed = false := by
  have stores : (world.setValue thing lock text).1 = .ok () := by
    unfold storeLock at done
    generalize world.setValue thing lock text = outcome at done ⊢
    obtain ⟨_ | _, behind⟩ := outcome
    · cases done
    · rfl
  exact isComputed_of_setValue stores

/-- A write forgets all readings, so the next one answers what is stored. -/
theorem Stores.readWith (stores : before.Stores world thing lock.key text stamp)
    (stored : lock.isComputed = false) :
    (world.readWith world.cache thing lock).1 =
      if text = [] then
        if lock.hasFlag .inherit then (world.inheritedValue? thing lock.key).getD [] else []
      else text := by
  obtain ⟨old, new, -, here, -, sets⟩ := stores.record
  have forgotten : world.cache.entries = [] := by
    rw [stores.rest]
    rfl
  rw [readWith_of_looksUp here stored, ReadCache.lookup?_of_entries_nil forgotten,
    Option.getD_none, storedValue, ObjectRecord.value?_of_setsEntry sets]
  by_cases empty : text = [] <;> simp [empty]

theorem Stores.isValid (stores : before.Stores world thing lock.key text stamp)
    (valid : before.isValid thing = true) : world.isValid thing = true := by
  obtain ⟨old, new, found, here, changed, -⟩ := stores.record
  obtain ⟨record, living⟩ := Option.isSome_iff_exists.mp valid
  obtain ⟨slot, alive⟩ := record?_eq_some.mp living
  obtain rfl : old = record := Option.some.inj (found.symm.trans slot)
  have same : new.flags = old.flags := by rw [changed]
  refine Option.isSome_iff_exists.mpr ⟨new, record?_eq_some.mpr ⟨here, ?_⟩⟩
  rwa [ObjectRecord.hasFlag, same]

theorem evaluateAttr_of_readWith_eq_nil {ev : Evaluator} {cache : ReadCache} {zone actor : Dbref}
    (valid : ev.world.isValid thing = true)
    (empty : (ev.world.readWith cache thing lock).1 = []) :
    (ev.evaluateAttr cache actor thing lock zone).1 = true := by
  simp [Evaluator.evaluateAttr, Evaluator.evaluate, empty, valid]

/-! ## Locks that have been set -/

/-- What was stored and announced when a player set a lock, and what is in effect then. -/
structure LockInEffect (before : World) (limits : Limits) (player thing : Dbref) (lock : AttrDef)
    (text stored : Text) (setting : LockSetting) : Prop where
  compiled : ∃ warnings,
    Compiler.compile ⟨before, before.matcher, player⟩ text limits.bufferLen =
      .ok ⟨stored, warnings⟩
  announced : setting.told.getLast? =
    some (player, if stored = [] then "Unlocked.".toList else "Locked.".toList)
  empty : text = [] → stored = []
  nonempty : text ≠ [] → 2 ≤ limits.bufferLen →
    ∃ c rest, Compiler.unbounded ⟨before, before.matcher, player⟩ text = c :: rest ∧
      (c.utf8Size < limits.bufferLen → stored ≠ [])
  locked : stored ≠ [] → (setting.world.read thing lock).1 = stored
  unlocked : stored = [] →
    setting.world.ownValue? lock.key thing = none ∧
      ((lock.hasFlag .inherit = true → ¬ setting.world.InheritsValue thing lock.key) →
        ∀ ev : Evaluator, ev.world = setting.world → ∀ actor zone,
          (ev.evaluateAttr setting.world.cache actor thing lock zone).1 = true)

/-- After every run, a lock that could be set is in effect as announced, unless it was taken away
from a thing that inherits one. -/
theorem Reachable.lockInEffect_of_setLock {allowed : Operation → Prop}
    (reachable : Reachable allowed before) (limits : Limits) (player thing : Dbref)
    (lock : AttrDef) (text stored : Text)
    (done : (before.setLock limits player thing lock text).result = .ok stored) :
    before.LockInEffect limits player thing lock text stored
      (before.setLock limits player thing lock text) := by
  obtain ⟨loose, balanced⟩ := reachable.covered
  unfold setLock at done ⊢
  split at done
  · cases done
  · next compiled ready =>
    obtain ⟨valid, -, -, compiles⟩ := lockToSet_ok ready
    have cases := balanced.storeLock_cases thing lock compiled.text
    have computed := @isComputed_of_storeLock before thing lock compiled.text
    dsimp only at done ⊢
    generalize before.storeLock thing lock compiled.text = outcome at cases computed done ⊢
    obtain ⟨result, world⟩ := outcome
    rcases cases with ⟨error, rfl, -, -⟩ | ⟨rfl, stores⟩
    · cases done
    · obtain rfl := Except.ok.inj done
      have reads := stores.readWith (computed rfl)
      constructor
      · exact ⟨compiled.warnings, compiles⟩
      · rw [getLast?_report, settingReport_eq]
      · rintro rfl
        exact Compiler.text_eq_nil_of_compile compiles
      · exact fun nonempty room => Compiler.exists_first_of_compile nonempty compiles room
      · intro filled
        rw [if_neg filled] at reads
        exact reads
      · intro empty
        constructor
        · obtain ⟨old, new, -, here, -, sets⟩ := stores.record
          simp [ownValue?, here, ObjectRecord.value?_of_setsEntry sets, empty]
        · rintro own ev rfl actor zone
          apply evaluateAttr_of_readWith_eq_nil (stores.isValid valid)
          rw [reads, if_pos empty]
          split
          · next inherits => rw [inheritedValue?_eq_none (own inherits), Option.getD_none]
          · rfl

/-- A player declares a kind of lock that is inherited, sets one on itself and takes it away
again: then everybody passes. -/
theorem lockInEffect_of_setLock_declared :
    let gate : AttrDef := ⟨.declared 0, "GATE".toList, .ofList [.lock, .inherit], .system⟩
    ∃ world : World, Reachable (fun _ => True) world ∧
      (world.setLock {} .system .system gate "me".toList).result = .ok "#0".toList ∧
      ((world.setLock {} .system .system gate "me".toList).world.read .system gate).1 =
        "#0".toList ∧
      (world.setLock {} .system .system gate []).result = .ok [] ∧
      ∀ functions actor zone,
        ((Evaluator.ofWorld (world.setLock {} .system .system gate []).world functions
          {}).evaluateAttr (world.setLock {} .system .system gate []).world.cache actor .system
            gate zone).1 = true := by
  intro gate
  let history : List Operation :=
    [.create ['p'] .player .nothing .nothing, .declareAttr .system gate.name gate.flags]
  have reachable : Reachable (fun _ => True) (Operation.performAll (.new {} 0) history) :=
    ⟨_, .empty {} 0, Leads.refl.performAll fun _ _ => trivial⟩
  have locks : ((Operation.performAll (.new {} 0) history).setLock {} .system .system gate
      "me".toList).result = .ok "#0".toList := by decide +kernel
  have unlocks : ((Operation.performAll (.new {} 0) history).setLock {} .system .system gate
      []).result = .ok [] := by decide +kernel
  have locked := reachable.lockInEffect_of_setLock {} .system .system gate _ _ locks
  have unlocked := reachable.lockInEffect_of_setLock {} .system .system gate _ _ unlocks
  refine ⟨_, reachable, locks, locked.locked (by decide), unlocks, fun functions actor zone => ?_⟩
  apply (unlocked.unlocked rfl).2 ?_ (.ofWorld _ functions {}) rfl
  rintro - ⟨ancestor, descends, -⟩
  obtain ⟨parent, related, -⟩ := Relation.TransGen.head'_iff.mp descends
  have orphan : ((Operation.performAll (.new {} 0) history).setLock {} .system .system gate
      []).world.parentsOf .system = [] := by decide +kernel
  rw [IsChildOf, orphan] at related
  exact absurd related List.not_mem_nil

/-- A lock that is taken away from a child is still inherited, and a buffer of one byte holds
nothing of a lock that is not empty. -/
theorem not_lockInEffect_of_inherit :
    let gate : AttrDef := ⟨.declared 0, "GATE".toList, .ofList [.lock, .inherit], .system⟩
    ∃ world : World, Reachable (fun _ => True) world ∧
      world.definition? gate.key = some gate ∧
      (let setting := world.setLock {} .root .root gate []
       setting.result = .ok [] ∧ setting.told = [(.root, "Unlocked.".toList)] ∧
         ((Evaluator.ofWorld setting.world passthrough {}).evaluateAttr setting.world.cache .root
           .root gate .nothing).1 = false) ∧
      (let setting := world.setLock { bufferLen := 1 } .root .root gate "me".toList
       setting.result = .ok [] ∧ setting.told = [(.root, "Unlocked.".toList)]) := by
  intro gate
  let history : List Operation :=
    [.create "elder".toList .player .nothing .nothing,
      .create "child".toList .player .nothing .nothing,
      .declareAttr .system gate.name gate.flags,
      .setValue .system gate "0".toList,
      .addParent .root .system]
  refine ⟨Operation.performAll (.new {} 0) history,
    ⟨_, .empty {} 0, Leads.refl.performAll fun _ _ => trivial⟩, ?current, ?inherited, ?short⟩
  case current => decide +kernel
  case inherited => decide +kernel
  case short => decide +kernel

end World
end WorldLocks
