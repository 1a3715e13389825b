import WorldLocks.Proofs.Cache.Reading
import WorldLocks.Proofs.Evaluation.Alike
import WorldLocks.Proofs.Lookups
import WorldLocks.Proofs.References.Exact
import WorldLocks.Proofs.Values

/-! Worlds in which names mean the same.  Two worlds may differ in stored values and in how often a
definition is referred to.  As long as the aliases of players are the same, every name means the
same object and the same attribute in both, so that their locks can only differ in what they
read. -/

set_option autoImplicit false

namespace WorldLocks

namespace World

/-- Whether names mean the same in two worlds: they have the same objects but for values, players
go by the same aliases, and what both register under a serial number is the same. -/
structure SameNames (first second : World) : Prop where
  values : first.SameButValues second
  aliases : ∀ object record, first.slot? object = some record →
    nickname? (record.withValues (second.valuesOf object)) = nickname? record
  definitions : ∀ one ∈ first.registry.entries, ∀ two ∈ second.registry.entries,
    two.serial = one.serial → two.definition = one.definition

namespace SameNames

variable {first second : World}

theorem definition?_eq (same : first.SameNames second) {serial : Nat} {one two : AttrDef}
    (before : first.registry.definition? serial = some one)
    (after : second.registry.definition? serial = some two) : two = one := by
  obtain ⟨entry, found, rfl⟩ := Option.map_eq_some_iff.mp before
  obtain ⟨other, foundOther, rfl⟩ := Option.map_eq_some_iff.mp after
  obtain ⟨member, here⟩ := Registry.registered?_some found
  obtain ⟨memberOther, there⟩ := Registry.registered?_some foundOther
  exact same.definitions entry member other memberOther (there.trans here.symm)

/-! ## Objects -/

theorem namesOf_eq (same : first.SameNames second) : second.namesOf = first.namesOf := by
  funext object
  unfold namesOf
  rw [same.values.record?_eq]
  cases living : first.record? object with
  | none => rfl
  | some record =>
      have names : recordNames (record.withValues (second.valuesOf object)) =
          recordNames record := by
        unfold recordNames
        rw [same.aliases object record (record?_eq_some.mp living).1]
        rfl
      exact congrArg Except.ok names

theorem findPlayer_eq (same : first.SameNames second) : second.findPlayer = first.findPlayer := by
  funext name
  have valid : second.validObjects = first.validObjects := by
    rw [validObjects, validObjects, slots, slots, same.values.length_eq, same.values.isValid_eq]
  have named (object : Dbref) : (second.slot? object).any (isPlayerNamed name) =
      (first.slot? object).any (isPlayerNamed name) := by
    rw [same.values.slot?_eq]
    cases found : first.slot? object with
    | none => rfl
    | some record =>
        rw [Option.map_some, Option.any_some, Option.any_some, isPlayerNamed, isPlayerNamed,
          same.aliases object record found]
        rfl
  simp only [findPlayer, valid, named]

theorem matcher_eq (same : first.SameNames second) : second.matcher = first.matcher := by
  have environment : second.environment = first.environment := by
    simp only [World.environment, same.values.isValid_eq, same.namesOf_eq,
      same.values.surroundings_eq, same.values.locationOf_eq, same.findPlayer_eq]
  rw [matcher, matcher, environment]

/-! ## Attributes -/

theorem localDefs_eq (same : first.SameNames second) (coveredFirst : first.Covered)
    (coveredSecond : second.Covered) : second.localDefs = first.localDefs := by
  funext object
  unfold localDefs
  rw [same.values.slot?_eq]
  cases found : first.slot? object with
  | none => rfl
  | some record =>
      have there : second.slot? object = some (record.withValues (second.valuesOf object)) := by
        rw [same.values.slot?_eq, found, Option.map_some]
      refine List.filterMap_congr fun serial declared => ?_
      have refers (record : ObjectRecord) (declared : serial ∈ record.declared) :
          0 < record.references serial := by
        simp [ObjectRecord.references, declared]
      obtain ⟨one, before⟩ := coveredFirst.exists_definition?
        (references_pos (slot?_mem found) (refers record declared))
      obtain ⟨two, after⟩ := coveredSecond.exists_definition?
        (references_pos (slot?_mem there) (refers _ declared))
      rw [before, after, same.definition?_eq before after]

theorem findDef?_eq (same : first.SameNames second) (coveredFirst : first.Covered)
    (coveredSecond : second.Covered) :
    second.definedOn? = first.definedOn? ∧ second.findDef? = first.findDef? := by
  have defined : second.definedOn? = first.definedOn? := by
    funext object name
    rw [definedOn?, definedOn?, same.localDefs_eq coveredFirst coveredSecond]
  refine ⟨defined, ?_⟩
  funext object name
  rw [findDef?, findDef?, defined, same.values.parentsOf_eq, searchDepth, searchDepth,
    same.values.length_eq]

theorem resolveAttr?_eq (same : first.SameNames second) (coveredFirst : first.Covered)
    (coveredSecond : second.Covered) : second.resolveAttr? = first.resolveAttr? := by
  obtain ⟨defined, found⟩ := same.findDef?_eq coveredFirst coveredSecond
  have plain : second.plainAttr? = first.plainAttr? := by
    funext actor context name
    simp only [plainAttr?, found, same.values.isValid_eq, same.values.isA_eq]
  funext matcher actor context name
  simp only [resolveAttr?, dottedAttr?, defined, plain]

/-- A definition that one of the worlds provides is not out of date in the other one. -/
theorem isCurrent_of_provides (same : first.SameNames second) (coveredFirst : first.Covered)
    {definition : AttrDef} (provides : first.Provides definition) :
    second.IsCurrent definition := by
  obtain ⟨which, rfl⟩ | ⟨serial, registered⟩ := provides
  · exact (rfl : AttrDef.ofBuiltin which = .ofBuiltin which)
  · obtain ⟨loose, balanced⟩ := coveredFirst
    unfold IsCurrent
    rw [balanced.wellFormed.key_of_definition? registered]
    intro other after
    rw [same.definition?_eq registered after]

end SameNames

/-! ## Readings -/

theorem SameButValues.ancestors_eq {first second : World} (same : first.SameButValues second) :
    second.ancestors = first.ancestors := by
  have parents : second.objects.map (·.parents) = first.objects.map (·.parents) :=
    SameIn.coarsen same fun _ _ equal => (congrArg ObjectRecord.parents equal :)
  funext object
  simp only [ancestors, same.parentsOf_eq, walkBound, List.flatMap_def, parents]

/-- An attribute of an object reads the same if the object, and where the attribute is inherited
every ancestor, stores the same for it. -/
theorem SameButValues.readWith_blank_eq {first second : World} (same : first.SameButValues second)
    {object : Dbref} {definition : AttrDef}
    (stored : ∀ other record,
      other = object ∨ definition.hasFlag .inherit = true ∧ other ∈ first.ancestors object →
        first.slot? other = some record →
          (record.withValues (second.valuesOf other)).value? definition.key =
            record.value? definition.key)
    (remembers : Bool) :
    (second.readWith (.blank remembers) object definition).1 =
      (first.readWith (.blank remembers) object definition).1 := by
  have forgotten (key : AttrKey) : (ReadCache.blank remembers).lookup? object key = none :=
    ReadCache.lookup?_of_entries_nil rfl object key
  have inherited (inherits : definition.hasFlag .inherit = true) :
      second.inheritedValue? object definition.key =
        first.inheritedValue? object definition.key := by
    rw [inheritedValue?_eq_findSome?, inheritedValue?_eq_findSome?, same.ancestors_eq,
      ← List.head?_filterMap, ← List.head?_filterMap]
    refine congrArg List.head? (List.filterMap_congr fun other listed => ?_)
    unfold ownValue?
    rw [same.slot?_eq]
    cases there : first.slot? other with
    | none => rfl
    | some record =>
        rw [Option.map_some, Option.bind_some, Option.bind_some,
          stored other record (.inr ⟨inherits, listed⟩) there]
  unfold readWith
  rw [same.slot?_eq]
  cases found : first.slot? object with
  | none => rfl
  | some record =>
      dsimp only [Option.map_some]
      rw [forgotten]
      split
      · unfold computedValue
        split
        · rw [same.computed?_eq]
        · rfl
      · dsimp only
        unfold storedValue
        rw [stored object record (.inl rfl) found]
        split
        · rfl
        · split
          · next inherits => rw [inherited inherits]
          · rfl

end World

/-! ## Evaluators -/

namespace Evaluator

variable {first second : World} {hidden : Dbref → AttrDef → Prop}

/-- A cache from which readings are answered as if nothing were remembered. -/
def Transparent (world : World) (cache : ReadCache) : Prop := world.AlikeNow cache (.blank false)

/-- Locks of worlds in which names mean the same see the same, but for what is hidden, if what is
stored reads the same. -/
theorem alike_of_sameNames (same : first.SameNames second) (coveredFirst : first.Covered)
    (coveredSecond : second.Covered) (functions : FunctionEvaluator) (limits : Limits)
    (locks : ∀ object, ¬ hidden object (.ofBuiltin .lock))
    (reads : ∀ object definition, first.Provides definition → definition.hasFlag .dark = false →
      ¬ hidden object definition →
        (second.readWith (.blank false) object definition).1 =
          (first.readWith (.blank false) object definition).1) :
    (ofWorld first functions limits).Alike (ofWorld second functions limits)
      (fun one two => Transparent first one ∧ Transparent second two) hidden where
  limits := rfl
  functions := rfl
  isValid := same.values.isValid_eq
  ownerOf := same.values.ownerOf_eq
  shown := same.values.shown_eq
  carries := by
    funext holder object
    simp only [carries, ofWorld, same.values.record?_eq]
    cases first.record? holder <;> rfl
  resolve := by
    funext locked name
    simp only [resolve, ofWorld, same.matcher_eq, same.values.isValid_eq]
    rfl
  canSee := same.values.canSee_eq
  attrFor? := by
    funext object name
    simp only [attrFor?, ofWorld, same.matcher_eq,
      same.resolveAttr?_eq coveredFirst coveredSecond,
      (same.findDef?_eq coveredFirst coveredSecond).2]
  reads := by
    rintro one two ⟨clearFirst, clearSecond⟩ object definition provides shows seen
    have current : first.IsCurrent definition := coveredFirst.isCurrent_of_provides provides
    have currentSecond := same.isCurrent_of_provides coveredFirst provides
    have answers := reads object definition provides shows seen
    refine ⟨?_, ?_, ?_⟩
    · exact ((clearSecond object definition currentSecond).trans answers).trans
        (clearFirst object definition current).symm
    · exact (coveredFirst.alikeNow_read current object one).trans clearFirst
    · exact (coveredSecond.alikeNow_read currentSecond object two).trans clearSecond
  locks := locks

end Evaluator
end WorldLocks
