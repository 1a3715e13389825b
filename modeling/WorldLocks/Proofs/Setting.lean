import WorldLocks.Proofs.References.Exact

/-! Setting a lock is all or nothing.  Nothing is written before the lock is compiled, a write that
is refused leaves objects and definitions alone, and one that is not changes a single entry, the
count of its definition and the time stamp of the thing. -/

set_option autoImplicit false

namespace WorldLocks

/-! ## Counts -/

namespace Registry

variable {registry : Registry} {key : AttrKey} {serial : Nat} {change : Nat → Nat}

/-- The registry with the count of a key's definition changed.  A definition that nothing refers to
any more is gone. -/
def recount (registry : Registry) (key : AttrKey) (change : Nat → Nat) : Registry :=
  { registry with
    entries := registry.entries.filterMap fun entry =>
      if key = .declared entry.serial then
        (countOf (change entry.count)).map fun count => { entry with count := count }
      else some entry }

theorem recount_of_absent (absent : ∀ entry ∈ registry.entries, key ≠ .declared entry.serial) :
    registry.recount key change = registry := by
  have entries : (registry.recount key change).entries = registry.entries.filterMap some :=
    List.filterMap_congr fun entry member => if_neg (absent entry member)
  rw [List.filterMap_some] at entries
  exact congrArg (fun entries => { registry with entries := entries }) entries

theorem recount_builtin (which : Builtin) : registry.recount (.builtin which) change = registry :=
  recount_of_absent fun _ _ same => by cases same

theorem recount_declared
    (stays : ∀ entry ∈ registry.entries, entry.serial = serial → 0 < change entry.count) :
    registry.recount (.declared serial) change =
      registry.update serial fun entry => { entry with count := change entry.count } := by
  have entries : (registry.recount (.declared serial) change).entries =
      registry.entries.filterMap (some ∘ fun entry =>
        if entry.serial = serial then { entry with count := change entry.count } else entry) := by
    refine List.filterMap_congr fun entry member => ?_
    by_cases here : entry.serial = serial
    · have counted := countOf_of_pos (stays entry member here)
      simp [here, counted]
    · simp [here, Ne.symm here]
  rw [List.filterMap_eq_map] at entries
  exact congrArg (fun entries => { registry with entries := entries }) entries

theorem recount_self (counted : ∀ entry ∈ registry.entries, 0 < entry.count)
    (same : ∀ count, change count = count) : registry.recount key change = registry := by
  have entries : (registry.recount key change).entries = registry.entries.filterMap some := by
    refine List.filterMap_congr fun entry member => ?_
    rw [same, countOf_of_pos (counted entry member), Option.map_some, ite_self]
  rw [List.filterMap_some] at entries
  exact congrArg (fun entries => { registry with entries := entries }) entries

theorem WellFormed.eq_of_registered? (wellFormed : registry.WellFormed) {entry other : Registered}
    (found : registry.registered? serial = some entry) (member : other ∈ registry.entries)
    (same : other.serial = serial) : other = entry := by
  have here := wellFormed.registered?_mem member
  rw [same, found] at here
  exact (Option.some.inj here).symm

theorem WellFormed.release_eq (wellFormed : registry.WellFormed) (serial : Nat) :
    registry.release serial = registry.recount (.declared serial) (· - 1) := by
  unfold Registry.release
  split
  · next missing =>
    refine (recount_of_absent fun entry member same => ?_).symm
    have absent := List.find?_eq_none.mp missing entry member
    exact absent (decide_eq_true (AttrKey.declared.inj same).symm)
  · next entry found =>
    split
    · next last =>
      have entries : registry.entries.filterMap (Option.guard fun other => other.serial ≠ serial) =
          (registry.recount (.declared serial) (· - 1)).entries := by
        refine List.filterMap_congr fun other member => ?_
        by_cases here : other.serial = serial
        · have gone : other.count - 1 = 0 := by
            rw [wellFormed.eq_of_registered? found member here]
            omega
          simp [here, gone]
        · simp [here, Ne.symm here]
      rw [List.filterMap_eq_filter] at entries
      exact congrArg (fun entries => { registry with entries := entries }) entries
    · next more =>
      have stays : ∀ other ∈ registry.entries, other.serial = serial → 0 < other.count - 1 := by
        intro other member here
        rw [wellFormed.eq_of_registered? found member here]
        omega
      have counts : registry.recount (.declared serial) (· - 1) = _ := recount_declared stays
      exact counts.symm

end Registry

namespace World

variable {world : World} {loose : Nat → Nat} {key : AttrKey}

theorem Balanced.count_pos (balanced : world.Balanced loose) :
    ∀ entry ∈ world.registry.entries, 0 < entry.count := by
  intro entry member
  have count := balanced.counts entry.serial
  rw [Registry.count?, balanced.wellFormed.registered?_mem member] at count
  exact (countOf_eq_some.mp count.symm).2

theorem addRef_ok {counted : World} (added : world.addRef key = .ok counted) :
    counted = { world with registry := world.registry.recount key (· + 1) } := by
  cases key with
  | builtin which =>
      rw [Registry.recount_builtin]
      exact (Except.ok.inj added).symm
  | declared serial =>
      unfold World.addRef at added
      dsimp only at added
      split at added
      · next registry more =>
        rw [Registry.recount_declared fun _ _ _ => Nat.succ_pos _, ← Registry.addRef?_eq_some more]
        exact (Except.ok.inj added).symm
      · cases added

theorem release_eq (wellFormed : world.registry.WellFormed) (key : AttrKey) :
    world.release key = { world with registry := world.registry.recount key (· - 1) } := by
  cases key with
  | builtin which =>
      rw [Registry.recount_builtin]
      rfl
  | declared serial =>
      rw [← wellFormed.release_eq]
      rfl

end World

/-! ## Entries -/

/-- Whether some values are others with the value of a key set to a text; the empty text takes the
entry away. -/
structure SetsEntry (key : AttrKey) (text : Text) (before after : List AttrValue) : Prop where
  others : after.filter (·.key ≠ key) = before.filter (·.key ≠ key)
  entry : after.filter (·.key = key) = if text = [] then [] else [⟨key, text⟩]

/-- Values with the entries between two others of another key put in the place of those that were
there. -/
theorem SetsEntry.between {key : AttrKey} (first old last : List AttrValue) (text : Text)
    (clearFirst : ∀ entry ∈ first, entry.key ≠ key) (keyed : ∀ entry ∈ old, entry.key = key)
    (clearLast : ∀ entry ∈ last, entry.key ≠ key) :
    SetsEntry key text (first ++ (old ++ last))
      (first ++ ((if text = [] then [] else [⟨key, text⟩]) ++ last)) := by
  have dropped {values : List AttrValue} (all : ∀ entry ∈ values, entry.key = key) :
      values.filter (·.key ≠ key) = [] :=
    List.filter_eq_nil_iff.mpr fun entry member => by simp [all entry member]
  have missing {values : List AttrValue} (clear : ∀ entry ∈ values, entry.key ≠ key) :
      values.filter (·.key = key) = [] :=
    List.filter_eq_nil_iff.mpr fun entry member => by simp [clear entry member]
  have new : ∀ entry ∈ (if text = [] then [] else [⟨key, text⟩] : List AttrValue),
      entry.key = key := by
    split <;> simp
  constructor
  · rw [List.filter_append, List.filter_append, List.filter_append, List.filter_append,
      dropped keyed, dropped new]
  · rw [List.filter_append, List.filter_append, missing clearFirst, missing clearLast,
      List.nil_append, List.append_nil]
    split <;> simp

namespace ObjectRecord

variable {record : ObjectRecord} {key : AttrKey} {text : Text}

theorem value?_of_setsEntry {before : List AttrValue}
    (sets : SetsEntry key text before record.values) :
    record.value? key = if text = [] then none else some text := by
  rw [value?, ← List.head?_filter, sets.entry]
  split <;> rfl

/-- A tidy record has its only entry for a key between entries for other keys. -/
theorem Tidy.exists_split (tidy : record.Tidy) {value : Text}
    (stored : record.value? key = some value) :
    ∃ first entry last, record.values = first ++ entry :: last ∧ entry.key = key ∧
      (∀ other ∈ first, other.key ≠ key) ∧ ∀ other ∈ last, other.key ≠ key := by
  obtain ⟨entry, member, rfl⟩ := exists_of_value?_some stored
  obtain ⟨first, last, split⟩ := List.append_of_mem member
  have unique := tidy.keys_nodup
  rw [split, List.map_append, List.map_cons, List.nodup_middle, List.nodup_cons, List.mem_append,
    not_or] at unique
  obtain ⟨⟨inFirst, inLast⟩, -⟩ := unique
  exact ⟨first, entry, last, split, rfl,
    fun other listed same => inFirst (List.mem_map.mpr ⟨other, listed, same⟩),
    fun other listed same => inLast (List.mem_map.mpr ⟨other, listed, same⟩)⟩

end ObjectRecord

namespace World

variable {world : World} {record : ObjectRecord} {key : AttrKey} {text : Text}

theorem setsEntry_done (missing : ∀ entry ∈ record.values, entry.key ≠ key) :
    SetsEntry key [] record.values record.values := by
  have sets := SetsEntry.between record.values [] [] [] missing (by simp) (by simp)
  simpa using sets

theorem setsEntry_appendValue (missing : ∀ entry ∈ record.values, entry.key ≠ key)
    (filled : text ≠ []) :
    SetsEntry key text record.values (appendValue ⟨key, text⟩ record).values := by
  have sets := SetsEntry.between record.values [] [] text missing (by simp) (by simp)
  simpa [filled, appendValue] using sets

theorem setsEntry_eraseValue (tidy : record.Tidy) {value : Text}
    (stored : record.value? key = some value) :
    SetsEntry key [] record.values (eraseValue key record).values := by
  obtain ⟨first, entry, last, split, here, clearFirst, clearLast⟩ := tidy.exists_split stored
  have erased : (eraseValue key record).values = first ++ last := by
    rw [eraseValue, split, List.eraseP_append_right _ (by simpa using clearFirst),
      List.eraseP_cons_of_pos (by simpa using here)]
  have sets := SetsEntry.between first [entry] last [] clearFirst (by simpa using here) clearLast
  rw [erased, split]
  simpa using sets

theorem setsEntry_replaceValue (tidy : record.Tidy) {value : Text}
    (stored : record.value? key = some value) (filled : text ≠ []) :
    SetsEntry key text record.values (replaceValue ⟨key, text⟩ record).values := by
  obtain ⟨first, entry, last, split, here, clearFirst, clearLast⟩ := tidy.exists_split stored
  have replaced : (replaceValue ⟨key, text⟩ record).values = first ++ ⟨key, text⟩ :: last := by
    rw [replaceValue, split]
    dsimp only
    clear split
    induction first with
    | nil => simp [List.findIdx_cons, here]
    | cons other first ih =>
        obtain ⟨apart, later⟩ := List.forall_mem_cons.mp clearFirst
        simp [List.findIdx_cons, apart, ih later]
  have sets := SetsEntry.between first [entry] last text clearFirst (by simpa using here) clearLast
  rw [replaced, split]
  simpa [filled] using sets

/-! ## Storing a value -/

/-- How many values an object holds for a key, if it holds one at most. -/
def held (world : World) (object : Dbref) (key : AttrKey) : Nat :=
  if ((world.slot? object).bind (·.value? key)).isSome then 1 else 0

/-- Whether one world is another in which a text is stored under a key of one object and nothing
else has changed but the count of the key's definition, the time stamp of the object and what is
remembered of earlier readings. -/
structure Stores (before after : World) (object : Dbref) (key : AttrKey) (text : Text)
    (stamp : Int) : Prop where
  rest : after = { before with
    objects := after.objects
    registry := before.registry.recount key fun count =>
      count + after.held object key - before.held object key
    cache := before.cache.flush }
  others : ∀ other, other ≠ object → after.slot? other = before.slot? other
  record : ∃ old new, before.slot? object = some old ∧ after.slot? object = some new ∧
    new = { old with values := new.values, modified := stamp } ∧
      SetsEntry key text old.values new.values

theorem held_eq {object : Dbref} (found : world.slot? object = some record) :
    world.held object key = if (record.value? key).isSome then 1 else 0 := by
  rw [held, found]
  rfl

theorem held_of_setsEntry {object : Dbref} {before : List AttrValue}
    (found : world.slot? object = some record) (sets : SetsEntry key text before record.values) :
    world.held object key = if text = [] then 0 else 1 := by
  rw [held_eq found, ObjectRecord.value?_of_setsEntry sets]
  split <;> rfl

theorem modify_id (world : World) (object : Dbref) : world.modify object id = world := by
  unfold modify
  split
  · rw [List.modify_id]
  · rfl

theorem modify_withRegistry (world : World) (registry : Registry) (object : Dbref)
    (change : ObjectRecord → ObjectRecord) :
    ({ world with registry := registry } : World).modify object change =
      { world.modify object change with registry := registry } := by
  unfold modify
  split <;> rfl

theorem withRegistry_modify (world : World) (object : Dbref)
    (change : ObjectRecord → ObjectRecord) :
    { world.flush.modify object change with registry := world.registry } =
      world.flush.modify object change := by
  unfold modify
  split <;> rfl

theorem modify_eq (world : World) (object : Dbref) (change : ObjectRecord → ObjectRecord) :
    world.modify object change =
      { world with objects := (world.modify object change).objects } := by
  unfold modify
  split <;> rfl

theorem Stores.of_modify (change : ObjectRecord → ObjectRecord) (registry : Registry)
    {object : Dbref} (found : world.slot? object = some record)
    (changes : change record = { record with values := (change record).values })
    (sets : SetsEntry key text record.values (change record).values)
    (counts : registry = world.registry.recount key fun count =>
      count + (if text = [] then 0 else 1) - world.held object key) :
    world.Stores { world.flush.modify object change with registry := registry } object key text
      record.modified := by
  have slot (other : Dbref) :
      ({ world.flush.modify object change with registry := registry } : World).slot? other =
        (world.flush.modify object change).slot? other := rfl
  have here :
      ({ world.flush.modify object change with registry := registry } : World).slot? object =
        some (change record) := by
    rw [slot, slot?_modify_self, slot?_flush, found, Option.map_some]
  constructor
  · rw [held_of_setsEntry here sets, ← counts, modify_eq]
    rfl
  · intro other apart
    rw [slot, slot?_modify_of_ne _ apart, slot?_flush]
  · exact ⟨record, change record, found, here, changes, sets⟩

/-- A value that is refused changes neither objects nor definitions, and one that is not is stored
and changes nothing else. -/
theorem Balanced.setValue_cases {loose : Nat → Nat} (balanced : world.Balanced loose)
    (object : Dbref) (handle : AttrDef) (text : Text) :
    (∃ error, (world.setValue object handle text).1 = .error error ∧
        (world.setValue object handle text).2.objects = world.objects ∧
        (world.setValue object handle text).2.registry = world.registry) ∨
      ∃ record, (world.setValue object handle text).1 = .ok () ∧
        world.slot? object = some record ∧
        world.Stores (world.setValue object handle text).2 object handle.key text
          record.modified := by
  have counted : ∀ entry ∈ world.registry.entries, 0 < entry.count := balanced.count_pos
  unfold World.setValue
  dsimp only
  split
  · exact .inl ⟨_, rfl, rfl, rfl⟩
  · split
    · exact .inl ⟨_, rfl, rfl, rfl⟩
    · next record found =>
      have present : world.slot? object = some record := found
      have tidy := balanced.tidy record (slot?_mem found)
      split
      · next none =>
        have missing := ObjectRecord.value?_eq_none.mp none
        have stores := Stores.of_modify id world.registry present rfl
          (setsEntry_done missing) ?_
        · rw [withRegistry_modify, modify_id] at stores
          exact .inr ⟨record, rfl, present, stores⟩
        · rw [held_eq present, none]
          exact (Registry.recount_self counted fun _ => rfl).symm
      · next old stored =>
        refine .inr ⟨record, rfl, present, ?_⟩
        have wellFormed := balanced.wellFormed
        rw [release_eq (by rwa [registry_modify]), registry_modify]
        refine Stores.of_modify _ _ present rfl (setsEntry_eraseValue tidy stored) ?_
        rw [held_eq present, stored]
        rfl
      · next old stored filled =>
        have stores := Stores.of_modify _ world.registry present rfl
          (setsEntry_replaceValue tidy stored filled) ?_
        · rw [withRegistry_modify] at stores
          exact .inr ⟨record, rfl, present, stores⟩
        · rw [held_eq present, stored, if_neg filled]
          exact (Registry.recount_self counted fun _ => rfl).symm
      · next none filled =>
        split
        · exact .inl ⟨_, rfl, rfl, rfl⟩
        · next more added =>
          refine .inr ⟨record, rfl, present, ?_⟩
          have missing := ObjectRecord.value?_eq_none.mp none
          rw [addRef_ok added, modify_withRegistry]
          refine Stores.of_modify _ _ present rfl (setsEntry_appendValue missing filled) ?_
          rw [held_eq present, none, if_neg filled]
          rfl

/-! ## Setting a lock -/

theorem Stores.touch {before : World} {object : Dbref} {stamp : Int}
    (stores : before.Stores world object key text stamp) :
    (world.touch object).1 = .ok () ∧
      before.Stores (world.touch object).2 object key text before.clock := by
  obtain ⟨old, new, found, here, changed, sets⟩ := stores.record
  have clock : world.clock = before.clock := by rw [stores.rest]
  have touched : world.touch object = (.ok (),
      world.flush.modify object fun record => { record with modified := world.clock }) := by
    rw [World.touch, modifySlot, if_pos (by simp [here])]
    rfl
  rw [touched]
  generalize after : (world.flush.modify object fun record =>
    { record with modified := world.clock }) = final
  have slot : final.slot? object = some { new with modified := world.clock } := by
    rw [← after, slot?_modify_self, slot?_flush, here, Option.map_some]
  have held : final.held object key = world.held object key := by
    rw [held_eq slot, held_eq here]
    rfl
  refine ⟨rfl, ?_, ?_, old, _, found, slot, ?_, sets⟩
  · rw [held, ← after, modify_eq, stores.rest]
    rfl
  · intro other apart
    rw [← after, slot?_modify_of_ne _ apart, slot?_flush, stores.others other apart]
  · rw [changed, clock]

theorem Balanced.storeLock_cases {loose : Nat → Nat} (balanced : world.Balanced loose)
    (thing : Dbref) (lock : AttrDef) (text : Text) :
    (∃ error, (world.storeLock thing lock text).1 = .error error ∧
        (world.storeLock thing lock text).2.objects = world.objects ∧
        (world.storeLock thing lock text).2.registry = world.registry) ∨
      ((world.storeLock thing lock text).1 = .ok () ∧
        world.Stores (world.storeLock thing lock text).2 thing lock.key text world.clock) := by
  unfold World.storeLock
  have cases := balanced.setValue_cases thing lock text
  generalize world.setValue thing lock text = outcome at cases ⊢
  obtain ⟨result, behind⟩ := outcome
  rcases cases with ⟨error, rfl, objects, registry⟩ | ⟨record, rfl, -, stores⟩
  · exact .inl ⟨error, rfl, objects, registry⟩
  · exact .inr stores.touch

theorem lockToSet_ok {limits : Limits} {player thing : Dbref} {lock : AttrDef}
    {compiled : CompiledLock}
    (allowed : world.lockToSet limits player thing lock text = .ok compiled) :
    world.isValid thing ∧ lock.hasFlag .lock ∧ world.controls player thing ∧
      Compiler.compile ⟨world, world.matcher, player⟩ text limits.bufferLen = .ok compiled := by
  unfold lockToSet at allowed
  split at allowed
  · cases allowed
  · next valid =>
    split at allowed
    · cases allowed
    · next isLock =>
      split at allowed
      · cases allowed
      · next controls =>
        split at allowed
        · next compiles =>
          obtain rfl := Except.ok.inj allowed
          exact ⟨by simpa using valid, by simpa using isLock, by simpa using controls, compiles⟩
        · cases allowed

/-- What came of setting a lock: all of it or nothing, and the player is told which. -/
structure SetsLock (before : World) (limits : Limits) (player thing : Dbref) (lock : AttrDef)
    (text : Text) (setting : LockSetting) : Prop where
  refused : ∀ error, setting.result = .error error →
    setting.world.objects = before.objects ∧ setting.world.registry = before.registry
  allowed : ∀ stored, setting.result = .ok stored →
    before.isValid thing ∧ lock.hasFlag .lock ∧ before.controls player thing ∧
      ∃ compiled, Compiler.compile ⟨before, before.matcher, player⟩ text limits.bufferLen =
        .ok compiled ∧ compiled.text = stored
  stores : ∀ stored, setting.result = .ok stored →
    before.Stores setting.world thing lock.key stored before.clock
  told : ∀ message ∈ setting.told, message.1 = player
  last : setting.told.getLast? = some (player, match setting.result with
    | .ok stored => if stored = [] then "Unlocked.".toList else "Locked.".toList
    | .error error => error.message)

theorem settingReport_eq (result : Except LockError Text) :
    settingReport result = match result with
      | .ok stored => if stored = [] then "Unlocked.".toList else "Locked.".toList
      | .error error => error.message := by
  cases result with
  | error error => rfl
  | ok stored => cases stored <;> rfl

theorem told_report {player : Dbref} {texts : List Text} :
    ∀ message ∈ texts.map (player, ·), message.1 = player :=
  List.forall_mem_map.mpr fun _ _ => rfl

theorem getLast?_report (player : Dbref) (warnings : List Text) (result : Except LockError Text) :
    ((warnings ++ [settingReport result]).map (player, ·)).getLast? =
      some (player, settingReport result) := by
  rw [List.map_append, List.map_singleton, List.getLast?_concat]

/-- After every run, setting a lock stores all of it or nothing. -/
theorem Reachable.setLock_setsLock {allowed : Operation → Prop}
    (reachable : Reachable allowed world) (limits : Limits) (player thing : Dbref) (lock : AttrDef) (text : Text) :
    world.SetsLock limits player thing lock text
      (world.setLock limits player thing lock text) := by
  obtain ⟨loose, balanced⟩ := reachable.covered
  unfold World.setLock
  dsimp only
  split
  · next error refused =>
    exact {
      refused := fun _ _ => ⟨rfl, rfl⟩
      allowed := fun _ done => nomatch done
      stores := fun _ done => nomatch done
      told := told_report
      last := by rw [getLast?_report, settingReport_eq] }
  · next compiled ready =>
    obtain ⟨valid, isLock, controls, compiles⟩ := lockToSet_ok ready
    have cases := balanced.storeLock_cases thing lock compiled.text
    generalize world.storeLock thing lock compiled.text = outcome at cases ⊢
    obtain ⟨stored, behind⟩ := outcome
    rcases cases with ⟨error, rfl, objects, registry⟩ | ⟨rfl, stores⟩
    · exact {
        refused := fun _ _ => ⟨objects, registry⟩
        allowed := fun _ done => nomatch done
        stores := fun _ done => nomatch done
        told := told_report
        last := by rw [getLast?_report, settingReport_eq] }
    · exact {
        refused := fun _ refused => nomatch refused
        allowed := by
          intro stored done
          obtain rfl := Except.ok.inj done
          exact ⟨valid, isLock, controls, compiled, compiles, rfl⟩
        stores := by
          intro stored done
          obtain rfl := Except.ok.inj done
          exact stores
        told := told_report
        last := by rw [getLast?_report, settingReport_eq] }

/-- A player declares a kind of lock and locks itself with it: the count of the definition goes from
one to two. -/
theorem setLock_setsLock_declared :
    let flags : FlagSet AttrFlag := .ofList [.lock]
    let lock : AttrDef := ⟨.declared 0, "GATE".toList, flags, .system⟩
    ∃ world : World, Reachable (fun _ => True) world ∧ world.registry.count? 0 = some 1 ∧
      (world.setLock {} .system .system lock "me".toList).result = .ok "#0".toList ∧
      (world.setLock {} .system .system lock "me".toList).world.registry.count? 0 = some 2 ∧
        world.SetsLock {} .system .system lock "me".toList
          (world.setLock {} .system .system lock "me".toList) := by
  intro flags lock
  let history : List Operation :=
    [.create ['p'] .player .nothing .nothing, .declareAttr .system "GATE".toList flags]
  have reachable : Reachable (fun _ => True) (Operation.performAll (.new {} 0) history) :=
    ⟨_, .empty {} 0, Leads.refl.performAll fun _ _ => trivial⟩
  exact ⟨_, reachable, by decide +kernel, by decide +kernel, by decide +kernel,
    reachable.setLock_setsLock {} .system .system lock "me".toList⟩

end World
end WorldLocks
