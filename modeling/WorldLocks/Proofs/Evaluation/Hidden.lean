import WorldLocks.Proofs.Evaluation.Names

/-! Attributes that locks may not see.  A lock reads an attribute of another object only if it may
see it, and asks before it reads.  So in two worlds that differ only in one attribute of one object,
an evaluation for someone else differs only if a lock is entered that may see the attribute there. -/

set_option autoImplicit false

namespace WorldLocks

namespace World

variable {first second world : World} {object : Dbref} {key : AttrKey}

/-! ## A difference in one value -/

/-- Whether two worlds differ at most in what one object stores for one attribute, and in what
follows from that: how often the definition is referred to and, if only that value refers to it,
whether it is registered. -/
structure DiffersAt (object : Dbref) (key : AttrKey) (first second : World) : Prop where
  objects : (second.modify object (dropValues key)).objects =
    (first.modify object (dropValues key)).objects
  definitions : ∀ one ∈ first.registry.entries, ∀ two ∈ second.registry.entries,
    two.serial = one.serial → two.definition = one.definition

theorem value?_dropValues {other : AttrKey} (apart : other ≠ key) (record : ObjectRecord) :
    (dropValues key record).value? other = record.value? other := by
  unfold dropValues ObjectRecord.value?
  rw [List.find?_filter]
  congr 2
  funext entry
  by_cases here : entry.key = other <;> simp [here, apart]

namespace DiffersAt

theorem sameButValues (differs : DiffersAt object key first second) :
    first.SameButValues second := by
  have dropped (world : World) :
      world.SameIn (·.withValues []) (world.modify object (dropValues key)) :=
    (SameIn.refl _ world).modify object fun _ => rfl
  have there := dropped second
  have here := dropped first
  unfold SameIn at there here
  unfold SameButValues SameIn
  rw [← there, ← here, differs.objects]

/-- What is stored for another attribute or on another object is the same in both. -/
theorem value?_eq (differs : DiffersAt object key first second) {other : Dbref}
    {otherKey : AttrKey} (elsewhere : other = object → otherKey ≠ key) {record : ObjectRecord}
    (found : first.slot? other = some record) :
    (record.withValues (second.valuesOf other)).value? otherKey = record.value? otherKey := by
  have there : second.slot? other = some (record.withValues (second.valuesOf other)) := by
    rw [differs.sameButValues.slot?_eq, found, Option.map_some]
  have slots : (second.modify object (dropValues key)).slot? other =
      (first.modify object (dropValues key)).slot? other := by
    unfold slot?
    rw [differs.objects]
  rw [slot?_modify, slot?_modify, found, there, Option.map_some, Option.map_some,
    Option.some.injEq] at slots
  split at slots
  · next here =>
    have apart := elsewhere here
    rw [← value?_dropValues apart, slots, value?_dropValues apart]
  · rw [slots]

theorem sameNames (differs : DiffersAt object key first second)
    (notAlias : key ≠ .builtin .nickname) : first.SameNames second where
  values := differs.sameButValues
  aliases := fun _ _ found => differs.value?_eq (fun _ => notAlias.symm) found
  definitions := differs.definitions

end DiffersAt

/-! ## What may be seen -/

/-- Definitions of one attribute that the world provides have the flags of every handle that is up to
date. -/
theorem IsCurrent.flags_eq (covered : world.Covered) {handle definition : AttrDef}
    (current : world.IsCurrent handle) (provides : world.Provides definition)
    (keyed : definition.key = handle.key) : definition.flags = handle.flags := by
  obtain ⟨which, rfl⟩ | ⟨serial, registered⟩ := provides
  · have built : handle.key = .builtin which := keyed.symm
    simp only [IsCurrent, built] at current
    rw [current]
  · obtain ⟨loose, balanced⟩ := covered
    have declared : handle.key = .declared serial :=
      keyed ▸ balanced.wellFormed.key_of_definition? registered
    simp only [IsCurrent, declared] at current
    exact (current definition registered).symm

/-- Of an attribute that is not dark, who may see it does not depend on who declared it. -/
theorem canSee_congr {handle definition : AttrDef} (keyed : definition.key = handle.key)
    (flags : definition.flags = handle.flags) (shows : definition.hasFlag .dark = false)
    (viewer : Dbref) : world.canSee viewer object definition = world.canSee viewer object handle := by
  have osee : definition.hasFlag .osee = handle.hasFlag .osee := by
    rw [AttrDef.hasFlag, AttrDef.hasFlag, flags]
  have shown : handle.hasFlag .dark = false := by
    rwa [AttrDef.hasFlag, ← flags]
  simp only [canSee, keyed, osee, shows, shown, Bool.false_eq_true, if_false]

end World

/-! ## Evaluations -/

namespace Evaluator

open World

variable {first second : World} {object : Dbref} {attr : AttrDef}

/-- Whether a test of some object would read an attribute of another one: it is the same object, and
the definition, which is not dark, is the one that the handle of the attribute stands for. -/
def Concerns (object : Dbref) (attr : AttrDef) (other : Dbref) (definition : AttrDef) : Prop :=
  other = object ∧ definition.key = attr.key ∧ definition.flags = attr.flags ∧
    definition.hasFlag .dark = false

theorem alike_of_differsAt (differs : DiffersAt object attr.key first second)
    (current : first.IsCurrent attr) (own : attr.hasFlag .inherit = false)
    (notLock : attr.key ≠ .builtin .lock) (notAlias : attr.key ≠ .builtin .nickname)
    (coveredFirst : first.Covered) (coveredSecond : second.Covered)
    (functions : FunctionEvaluator) (limits : Limits) :
    (ofWorld first functions limits).Alike (ofWorld second functions limits)
      (fun one two => Transparent first one ∧ Transparent second two) (Concerns object attr) := by
  have same := differs.sameNames notAlias
  refine alike_of_sameNames same coveredFirst coveredSecond functions limits ?locks ?reads
  case locks => exact fun _ hidden => notLock hidden.2.1.symm
  case reads =>
    intro other definition provides shows seen
    refine same.values.readWith_blank_eq (fun place record reads found => ?_) false
    refine differs.value?_eq (fun here keyed => ?_) found
    have flags := current.flags_eq coveredFirst provides keyed
    rcases reads with rfl | ⟨inherits, -⟩
    · exact seen ⟨here, keyed, flags, shows⟩
    · rw [AttrDef.hasFlag, flags] at inherits
      exact absurd inherits (Bool.eq_false_iff.mp own)

/-- What is hidden of an object does not leak: worlds that have come about by runs, have empty caches
and differ only in what the object stores for one attribute, which is not inherited and is neither
the lock nor an alias, come to the same verdict for everyone else and tell the same, as long as no
lock is entered that may see the attribute on the object. -/
theorem evaluate_of_differsAt {allowed permitted : Operation → Prop}
    (reachable : World.Reachable allowed first) (reachableSecond : World.Reachable permitted second)
    (differs : DiffersAt object attr.key first second) (current : first.IsCurrent attr)
    (own : attr.hasFlag .inherit = false) (notLock : attr.key ≠ .builtin .lock)
    (notAlias : attr.key ≠ .builtin .nickname) (empty : first.cache.entries = [])
    (emptySecond : second.cache.entries = []) (functions : FunctionEvaluator) (limits : Limits)
    (actor : Dbref) (someoneElse : actor ≠ object) (locked : Dbref) (text : Text) (zone : Dbref)
    (unseen : ∀ entry ∈
      ((ofWorld first functions limits).evaluate first.cache actor locked text zone).2.entered,
        first.canSee entry.1 object attr = false) :
    ((ofWorld second functions limits).evaluate second.cache actor locked text zone).1 =
        ((ofWorld first functions limits).evaluate first.cache actor locked text zone).1 ∧
      ((ofWorld second functions limits).evaluate second.cache actor locked text zone).2.told =
        ((ofWorld first functions limits).evaluate first.cache actor locked text zone).2.told := by
  have alike := alike_of_differsAt differs current own notLock notAlias reachable.covered
    reachableSecond.covered functions limits
  have caches : Transparent first first.cache ∧ Transparent second second.cache :=
    ⟨alikeAmong_of_entries_nil first _ empty rfl, alikeAmong_of_entries_nil second _ emptySecond rfl⟩
  rcases alike.evaluate_or_exposed caches (fun _ hidden => someoneElse hidden.1) locked text zone
    with ⟨entry, member, _, definition, ⟨rfl, keyed, flags, shows⟩, sees⟩ | ⟨verdict, _, same, -⟩
  · have seen := (canSee_congr keyed flags shows entry.1).symm.trans sees
    exact absurd seen (Bool.eq_false_iff.mp (unseen entry member))
  · exact ⟨verdict, congrArg (·.told) same⟩

/-- Alice says one word in one world and another word in the other.  Bob's box, which may not see
what she says, opens in both worlds alike, and her own lock tells the words apart. -/
theorem evaluate_of_differsAt_word :
    ∃ first second : World,
      World.Reachable (fun _ => True) first ∧ World.Reachable (fun _ => True) second ∧
        ((ofWorld first passthrough {}).evaluate first.cache ⟨2⟩ ⟨3⟩
          "!@(#1=Word:friend)".toList .nothing).1 = true ∧
        ((ofWorld second passthrough {}).evaluate second.cache ⟨2⟩ ⟨3⟩
          "!@(#1=Word:friend)".toList .nothing).1 = true ∧
        ((ofWorld first passthrough {}).evaluate first.cache ⟨2⟩ .root
          "!@(#1=Word:friend)".toList .nothing).1 = false ∧
        ((ofWorld second passthrough {}).evaluate second.cache ⟨2⟩ .root
          "!@(#1=Word:friend)".toList .nothing).1 = true := by
  let word : AttrDef := ⟨.declared 0, "Word".toList, .empty, .root⟩
  let history (spoken : String) : List Operation :=
    [.create "Hall".toList .room .nothing .nothing,
      .create "Alice".toList .player .nothing .system,
      .create "Bob".toList .player .nothing .system,
      .create "box".toList .thing ⟨2⟩ .system,
      .declareAttr .root "Word".toList .empty,
      .setValue .root word spoken.toList]
  have reachable (spoken : String) :
      World.Reachable (fun _ => True) (Operation.performAll (.new {} 0) (history spoken)) :=
    ⟨_, .empty {} 0, World.Leads.refl.performAll fun _ _ => trivial⟩
  have differs : DiffersAt .root word.key (Operation.performAll (.new {} 0) (history "friend"))
      (Operation.performAll (.new {} 0) (history "foe")) := ⟨by decide +kernel, by decide +kernel⟩
  have passes : ((ofWorld (Operation.performAll (.new {} 0) (history "friend")) passthrough
      {}).evaluate (Operation.performAll (.new {} 0) (history "friend")).cache ⟨2⟩ ⟨3⟩
      "!@(#1=Word:friend)".toList .nothing).1 = true := by decide +kernel
  obtain ⟨verdict, -⟩ := evaluate_of_differsAt (reachable "friend") (reachable "foe") differs
    (by decide +kernel) (by decide +kernel) (by decide) (by decide) (by decide +kernel)
    (by decide +kernel) passthrough {} ⟨2⟩ (by decide) ⟨3⟩ "!@(#1=Word:friend)".toList .nothing
    (by decide +kernel)
  exact ⟨_, _, reachable "friend", reachable "foe", passes, verdict.trans passes,
    by decide +kernel, by decide +kernel⟩

end Evaluator
end WorldLocks
