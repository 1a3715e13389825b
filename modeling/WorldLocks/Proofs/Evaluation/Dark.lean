import WorldLocks.Proofs.Evaluation.Names

/-! Dark attributes and locks.  Two worlds that differ only in what is stored for dark attributes
look the same to every lock: no lock reads a dark attribute, and neither names nor visibility nor
messages depend on one. -/

set_option autoImplicit false

namespace WorldLocks

namespace World

variable {first second world : World}

/-! ## Differences in the dark -/

/-- A record without the values that are stored for dark attributes. -/
def lit (world : World) (record : ObjectRecord) : ObjectRecord :=
  record.withValues (record.values.filter fun entry => !world.keyHasFlag entry.key .dark)

/-- Whether two worlds differ at most in what is stored for dark attributes, and in what follows
from that: how often a definition is referred to and, if nothing but such values refers to it,
whether it is registered. -/
structure DiffersInDark (first second : World) : Prop where
  objects : second.objects.map second.lit = first.objects.map first.lit
  definitions : ∀ one ∈ first.registry.entries, ∀ two ∈ second.registry.entries,
    two.serial = one.serial → two.definition = one.definition

/-- Whether an attribute is not dark for either of two worlds. -/
structure ShowsInBoth (first second : World) (key : AttrKey) : Prop where
  first : first.keyHasFlag key .dark = false
  second : second.keyHasFlag key .dark = false

theorem value?_lit {key : AttrKey} (shows : world.keyHasFlag key .dark = false)
    (record : ObjectRecord) : (world.lit record).value? key = record.value? key := by
  unfold lit ObjectRecord.value? ObjectRecord.withValues
  rw [List.find?_filter]
  congr 2
  funext entry
  by_cases here : entry.key = key <;> simp [here, shows]

theorem showsInBoth_builtin {which : Builtin}
    (shows : (AttrDef.ofBuiltin which).hasFlag .dark = false) :
    ShowsInBoth first second (.builtin which) := ⟨shows, shows⟩

namespace DiffersInDark

theorem sameButValues (differs : first.DiffersInDark second) : first.SameButValues second := by
  have objects := congrArg (List.map (·.withValues [])) differs.objects
  rw [List.map_map, List.map_map] at objects
  exact objects

/-- What is stored for an attribute that is dark in neither world is the same in both. -/
theorem value?_eq (differs : first.DiffersInDark second) {key : AttrKey}
    (shows : ShowsInBoth first second key) {object : Dbref} {record : ObjectRecord}
    (found : first.slot? object = some record) :
    (record.withValues (second.valuesOf object)).value? key = record.value? key := by
  have there : second.slot? object = some (record.withValues (second.valuesOf object)) := by
    rw [differs.sameButValues.slot?_eq, found, Option.map_some]
  have slots : (second.slot? object).map second.lit = (first.slot? object).map first.lit := by
    obtain ⟨index, rfl, -⟩ := slot?_eq_some.mp found
    rw [slot?_ofIndex, slot?_ofIndex, ← List.getElem?_map, differs.objects, List.getElem?_map]
  rw [found, there, Option.map_some, Option.map_some, Option.some.injEq] at slots
  rw [← value?_lit shows.second, slots, value?_lit shows.first]

theorem sameNames (differs : first.DiffersInDark second) : first.SameNames second where
  values := differs.sameButValues
  aliases := fun _ _ found => differs.value?_eq (showsInBoth_builtin (by decide)) found
  definitions := differs.definitions

/-! ## Readings -/

/-- An attribute that one of the worlds provides is dark in both worlds or in none. -/
theorem showsInBoth_of_provides (differs : first.DiffersInDark second)
    (coveredFirst : first.Covered) {definition : AttrDef} (provides : first.Provides definition)
    (shows : definition.hasFlag .dark = false) : ShowsInBoth first second definition.key := by
  obtain ⟨which, rfl⟩ | ⟨serial, registered⟩ := provides
  · exact showsInBoth_builtin shows
  · obtain ⟨loose, balanced⟩ := coveredFirst
    rw [balanced.wellFormed.key_of_definition? registered]
    constructor
    · simp [keyHasFlag, World.definition?, registered, shows]
    · cases after : second.registry.definition? serial with
      | none => simp [keyHasFlag, World.definition?, after]
      | some other =>
          have same := differs.sameNames.definition?_eq registered after
          simp [keyHasFlag, World.definition?, after, same, shows]

end DiffersInDark
end World

/-! ## Evaluations -/

namespace Evaluator

variable {first second : World}

theorem alike_of_differsInDark (differs : first.DiffersInDark second)
    (coveredFirst : first.Covered) (coveredSecond : second.Covered)
    (functions : FunctionEvaluator) (limits : Limits) :
    (ofWorld first functions limits).Alike (ofWorld second functions limits)
      (fun one two => Transparent first one ∧ Transparent second two) fun _ _ => False :=
  alike_of_sameNames differs.sameNames coveredFirst coveredSecond functions limits (fun _ => id)
    fun _ _ provides shows _ => differs.sameNames.values.readWith_blank_eq
      (fun _ _ _ found =>
        differs.value?_eq (differs.showsInBoth_of_provides coveredFirst provides shows) found)
      false

/-- Dark attributes do not show in evaluations: worlds that have come about by runs, have empty
caches and differ only in what is stored for dark attributes come to the same verdict and tell the
same. -/
theorem evaluate_of_differsInDark {allowed permitted : Operation → Prop}
    (reachable : World.Reachable allowed first) (reachableSecond : World.Reachable permitted second)
    (differs : first.DiffersInDark second) (empty : first.cache.entries = [])
    (emptySecond : second.cache.entries = []) (functions : FunctionEvaluator) (limits : Limits)
    (actor locked : Dbref) (text : Text) (zone : Dbref) :
    ((ofWorld second functions limits).evaluate second.cache actor locked text zone).1 =
        ((ofWorld first functions limits).evaluate first.cache actor locked text zone).1 ∧
      ((ofWorld second functions limits).evaluate second.cache actor locked text zone).2.told =
        ((ofWorld first functions limits).evaluate first.cache actor locked text zone).2.told := by
  have alike := alike_of_differsInDark differs reachable.covered reachableSecond.covered functions
    limits
  obtain ⟨verdict, cache, same, -⟩ := alike.evaluate
    ⟨World.alikeAmong_of_entries_nil first _ empty rfl,
      World.alikeAmong_of_entries_nil second _ emptySecond rfl⟩ actor locked text zone
  exact ⟨verdict, congrArg (·.told) same⟩

/-- A secret word, known to the player in one world and to the hall in the other, with a password
besides: whoever does not say the word is let in by both. -/
theorem evaluate_of_differsInDark_secret :
    ∃ first second : World,
      World.Reachable (fun _ => True) first ∧ World.Reachable (fun _ => True) second ∧
        first.DiffersInDark second ∧ first.valuesOf .root ≠ second.valuesOf .root ∧
        ((ofWorld first passthrough {}).evaluate first.cache .root .system
          "!Word:friend".toList .nothing).1 = true ∧
        ((ofWorld second passthrough {}).evaluate second.cache .root .system
          "!Word:friend".toList .nothing).1 = true := by
  let word : AttrDef := ⟨.declared 0, "Word".toList, .single .dark, .root⟩
  let common : List Operation :=
    [.create "Hall".toList .room .nothing .nothing,
      .create "Alice".toList .player .nothing .system,
      .declareAttr .root "Word".toList (.single .dark)]
  let known := common ++ [.setValue .root word "friend".toList]
  let unknown := common ++
    [.setValue .system word "friend".toList, .setValue .root (.ofBuiltin .password) "foe".toList]
  have reachable (history : List Operation) :
      World.Reachable (fun _ => True) (Operation.performAll (.new {} 0) history) :=
    ⟨_, .empty {} 0, World.Leads.refl.performAll fun _ _ => trivial⟩
  have differs : (Operation.performAll (.new {} 0) known).DiffersInDark
      (Operation.performAll (.new {} 0) unknown) := ⟨by decide +kernel, by decide +kernel⟩
  have passes : ((ofWorld (Operation.performAll (.new {} 0) known) passthrough {}).evaluate
      (Operation.performAll (.new {} 0) known).cache .root .system
      "!Word:friend".toList .nothing).1 = true := by decide +kernel
  obtain ⟨verdict, -⟩ := evaluate_of_differsInDark (reachable known) (reachable unknown) differs
    (by decide +kernel) (by decide +kernel) passthrough {} .root .system "!Word:friend".toList
    .nothing
  exact ⟨_, _, reachable known, reachable unknown, differs, by decide +kernel, passes,
    verdict.trans passes⟩

end Evaluator
end WorldLocks
