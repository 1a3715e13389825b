import WorldLocks.Operation
import WorldLocks.Proofs.Cache.Sources

/-! Operations and the cache.  No operation looks at the cache.  It either empties the cache, or it
leaves the cache alone together with everything that stored attributes are read from. -/

set_option autoImplicit false

namespace WorldLocks
namespace World

variable {world : World}

/-! ## Operations that obey -/

/-- Whether an operation treats the cache of a world as a cache.  It answers the same whatever the
cache holds, and either it empties the cache or it leaves both the cache and the sources alone. -/
def Obeys {α : Type} (world : World) (operation : World → α × World) : Prop :=
  ∃ result after,
    (∀ cache, operation (world.withCache cache) = (result, after.withCache cache)) ∧
        world.SameSources after ∨
      ∀ cache, operation (world.withCache cache) = (result, after.withCache cache.flush)

def Blind {α : Type} (operation : World → α × World) : Prop :=
  ∀ world : World, world.Obeys operation

section

variable {α β : Type}

theorem Obeys.congr {operation other : World → α × World} (obeys : world.Obeys other)
    (same : ∀ cache, operation (world.withCache cache) = other (world.withCache cache)) :
    world.Obeys operation := by
  obtain ⟨result, after, ⟨spares, sources⟩ | forgets⟩ := obeys
  · exact ⟨result, after, .inl ⟨fun cache => (same cache).trans (spares cache), sources⟩⟩
  · exact ⟨result, after, .inr fun cache => (same cache).trans (forgets cache)⟩

theorem Obeys.of_unchanged {operation : World → α × World} (result : α)
    (same : ∀ cache, operation (world.withCache cache) = (result, world.withCache cache)) :
    world.Obeys operation := ⟨result, world, .inl ⟨same, .refl world⟩⟩

theorem Obeys.of_forgets {operation : World → α × World} {result : α} {after : World}
    (same : ∀ cache, operation (world.withCache cache) = (result, after.withCache cache.flush)) :
    world.Obeys operation := ⟨result, after, .inr same⟩

theorem Blind.refuse (error : WorldError) : Blind fun world => (world.refuse error : Outcome α) :=
  fun _ => .of_unchanged _ fun _ => rfl

theorem Obeys.andThen {first : World → Outcome α} {later : α → World → Outcome β}
    (obeys : world.Obeys first) (blind : ∀ result, Blind (later result)) :
    world.Obeys fun world => (first world).andThen later := by
  obtain ⟨result, after, acts⟩ := obeys
  have onwards : ∀ cache kept, first (world.withCache cache) = (result, after.withCache kept) →
      (first (world.withCache cache)).andThen later =
        Outcome.andThen (result, after.withCache kept) later :=
    fun cache kept same => congrArg (·.andThen later) same
  cases result with
  | error error =>
      obtain ⟨spares, sources⟩ | forgets := acts
      · exact ⟨.error error, after, .inl ⟨fun cache => onwards cache cache (spares cache), sources⟩⟩
      · exact .of_forgets fun cache => onwards cache cache.flush (forgets cache)
  | ok value =>
      obtain ⟨answer, final, ⟨sparesToo, sourcesToo⟩ | forgetsThen⟩ := blind value after
      · obtain ⟨spares, sources⟩ | forgets := acts
        · refine ⟨answer, final, .inl ⟨fun cache => ?_, sources.trans sourcesToo⟩⟩
          exact (onwards cache cache (spares cache)).trans (sparesToo cache)
        · refine ⟨answer, final, .inr fun cache => ?_⟩
          exact (onwards cache cache.flush (forgets cache)).trans (sparesToo cache.flush)
      · obtain ⟨spares, -⟩ | forgets := acts
        · refine ⟨answer, final, .inr fun cache => ?_⟩
          exact (onwards cache cache (spares cache)).trans (forgetsThen cache)
        · refine ⟨answer, final, .inr fun cache => ?_⟩
          exact (onwards cache cache.flush (forgets cache)).trans (forgetsThen cache.flush)

theorem Blind.ifExists {next : World → Outcome α} (blind : Blind next) (object : Dbref) :
    Blind fun world => world.ifExists object next := by
  intro world
  by_cases valid : world.isValid object = true
  · exact (blind world).congr fun cache => if_pos valid
  · exact (Blind.refuse _ world).congr fun cache => if_neg valid

theorem Blind.ifNothingOrExists {next : World → Outcome α} (blind : Blind next) (object : Dbref) :
    Blind fun world => world.ifNothingOrExists object next := by
  intro world
  by_cases nothing : object = .nothing
  · exact (blind world).congr fun cache => if_pos nothing
  · exact (blind.ifExists object world).congr fun cache => if_neg nothing

/-- Whether an operation neither looks at the cache nor changes it. -/
def Unaware (operation : World → α × World) : Prop :=
  ∀ world cache, operation (world.withCache cache) =
    ((operation world).1, (operation world).2.withCache cache)

/-- An operation that first empties the cache. -/
theorem Unaware.afterFlush {operation : World → α × World} (unaware : Unaware operation) :
    Blind fun world => operation world.flush := by
  intro world
  exact .of_forgets fun cache => unaware world.flush cache.flush

theorem Unaware.andThen {first : World → Outcome α} {later : α → World → Outcome β}
    (unaware : Unaware first) (unawareLater : ∀ result, Unaware (later result)) :
    Unaware fun world => (first world).andThen later := by
  intro world cache
  dsimp only
  rw [unaware world cache]
  rcases first world with ⟨error | result, after⟩
  · rfl
  · exact unawareLater result after cache

theorem unaware_done (change : World → World)
    (unaware : ∀ world cache, change (world.withCache cache) = (change world).withCache cache)
    (result : α) : Unaware fun world => (change world).done result := by
  intro world cache
  simp only [done, unaware]

theorem unaware_modifySlot (object : Dbref) (change : ObjectRecord → ObjectRecord) :
    Unaware fun world => world.modifySlot object change := by
  intro world cache
  simp only [modifySlot, slot?_withCache, modify_withCache]
  split <;> rfl

end

/-! ## Settings, places and parents -/

theorem blind_touch (object : Dbref) : Blind fun world => world.touch object := by
  intro world
  exact .of_forgets fun cache => unaware_modifySlot object
    (fun record => { record with modified := world.clock }) world.flush cache.flush

theorem blind_setFlag (object : Dbref) (flag : ObjectFlag) (on : Bool) :
    Blind fun world => world.setFlag object flag on :=
  (unaware_modifySlot object _).afterFlush

theorem blind_setZone (object zone : Dbref) : Blind fun world => world.setZone object zone :=
  (unaware_modifySlot object _).afterFlush.ifNothingOrExists zone

theorem blind_setLink (object link : Dbref) : Blind fun world => world.setLink object link :=
  (unaware_modifySlot object _).afterFlush

theorem blind_setOwner (object owner : Dbref) : Blind fun world => world.setOwner object owner :=
  (unaware_modifySlot object _).afterFlush.ifExists owner

theorem blind_moveTo (object destination : Dbref) :
    Blind fun world => world.moveTo object destination := by
  apply Blind.ifExists
  by_cases nothing : destination = .nothing
  · have takes : Unaware fun world => (world.takeOut object).done () :=
      unaware_done (fun world => world.takeOut object) (fun _ _ => takeOut_withCache ..) ()
    intro world
    exact (takes.afterFlush world).congr fun cache => if_pos nothing
  · have moves : Unaware fun world => ((world.takeOut object).putInto object destination).done () :=
      unaware_done (fun world => (world.takeOut object).putInto object destination)
        (fun _ _ => by simp only [takeOut_withCache, putInto_withCache]) ()
    simp only [if_neg nothing]
    apply Blind.ifExists
    intro world
    by_cases inside : (world.outward destination).contains object = true
    · exact (Blind.refuse _ world).congr fun cache => if_pos inside
    · exact (moves.afterFlush world).congr fun cache => if_neg inside

theorem blind_addParent (child parent : Dbref) :
    Blind fun world => world.addParent child parent := by
  apply Blind.ifExists
  apply Blind.ifExists
  intro world
  by_cases descends : world.isA parent child = true
  · exact (Blind.refuse _ world).congr fun cache => if_pos descends
  · by_cases listed : (world.parentsOf child).contains parent = true
    · exact ⟨.ok (), world.flush, .inr fun cache => (if_neg descends).trans (if_pos listed)⟩
    · have links : Unaware fun world => ((world.modify child fun record =>
          { record with parents := record.parents ++ [parent] }).modify parent fun record =>
          { record with children := record.children ++ [child] }).done () :=
        unaware_done (fun world => (world.modify child _).modify parent _)
          (fun _ _ => by simp only [modify_withCache]) ()
      refine (links.afterFlush world).congr fun cache => ?_
      exact (if_neg descends).trans (if_neg listed)

theorem blind_addParents (child : Dbref) (parents : List Dbref) :
    Blind fun world => world.addParents child parents := by
  induction parents with
  | nil => exact fun _ => .of_unchanged _ fun _ => rfl
  | cons parent later ih =>
      exact fun world => (blind_addParent child parent world).andThen fun _ => ih

theorem blind_removeParent (child parent : Dbref) :
    Blind fun world => world.removeParent child parent :=
  ((unaware_modifySlot child _).andThen fun _ => unaware_modifySlot parent _).afterFlush

/-! ## Values -/

theorem addRef_withCache (world : World) (cache : ReadCache) (key : AttrKey) :
    (world.withCache cache).addRef key = (world.addRef key).map (·.withCache cache) := by
  cases key with
  | builtin which => rfl
  | declared serial =>
      have registry : (world.withCache cache).registry = world.registry := rfl
      simp only [addRef, registry]
      cases world.registry.addRef? serial <;> rfl

theorem blind_setValue (object : Dbref) (handle : AttrDef) (value : Text) :
    Blind fun world => world.setValue object handle value := by
  intro world
  cases computed : handle.isComputed with
  | true => exact .of_unchanged _ fun cache => if_pos computed
  | false =>
      refine ⟨(world.setValue object handle value).1, (world.setValue object handle value).2,
        .inr fun cache => ?_⟩
      simp only [setValue, computed, flush_withCache, slot?_withCache, Bool.false_eq_true, if_false]
      cases world.flush.slot? object with
      | none => rfl
      | some record =>
          dsimp only
          split
          · rfl
          · simp only [modify_withCache, release_withCache, done]
          · simp only [modify_withCache, done]
          · rw [addRef_withCache]
            cases world.flush.addRef handle.key with
            | error error => rfl
            | ok counted => simp only [Except.map, modify_withCache, done]

theorem clearKey_withCache (world : World) (cache : ReadCache) (object : Dbref) (key : AttrKey) :
    (world.withCache cache).clearKey object key =
      ((world.clearKey object key).1, (world.clearKey object key).2.withCache cache.flush) := by
  simp only [clearKey, flush_withCache, slot?_withCache]
  cases world.flush.slot? object with
  | none => rfl
  | some record =>
      simp only [modify_withCache, release_withCache]
      split <;> rfl

theorem blind_clearKey (object : Dbref) (key : AttrKey) :
    Blind fun world => world.clearKey object key :=
  fun world => .of_forgets fun cache => clearKey_withCache world cache object key

theorem freeValues_withCache (world : World) (cache : ReadCache) (object : Dbref) :
    (world.withCache cache).freeValues object =
      ((world.freeValues object).1, (world.freeValues object).2.withCache cache.flush) := by
  simp only [freeValues, flush_withCache, slot?_withCache]
  cases world.flush.slot? object with
  | none => rfl
  | some record => simp only [modify_withCache, releaseAll_withCache, done]

/-- Freeing an object's values empties the cache, so that what follows may change the sources. -/
theorem blind_freeValues_andThen {α : Type} {later : Unit → World → Outcome α} (object : Dbref)
    (unaware : ∀ result, Unaware (later result)) :
    Blind fun world => (world.freeValues object).andThen later := by
  intro world
  rcases found : world.freeValues object with ⟨freed, after⟩
  have frees (cache : ReadCache) :
      (world.withCache cache).freeValues object = (freed, after.withCache cache.flush) := by
    rw [freeValues_withCache, found]
  cases freed with
  | error error =>
      exact .of_forgets fun cache => congrArg (Outcome.andThen · later) (frees cache)
  | ok result =>
      refine ⟨(later result after).1, (later result after).2, .inr fun cache => ?_⟩
      exact (congrArg (Outcome.andThen · later) (frees cache)).trans
        (unaware result after cache.flush)

theorem blind_freeValues (object : Dbref) : Blind fun world => world.freeValues object :=
  fun world => .of_forgets fun cache => freeValues_withCache world cache object

theorem unaware_addRefs (values : List AttrValue) : Unaware fun world => world.addRefs values := by
  induction values with
  | nil => exact fun _ _ => rfl
  | cons entry values ih =>
      intro world cache
      simp only [addRefs]
      rw [addRef_withCache]
      cases world.addRef entry.key with
      | error error => rfl
      | ok counted => exact ih counted cache

theorem blind_copyNoninherited (destination source : Dbref) :
    Blind fun world => world.copyNoninherited destination source := by
  intro world
  cases found : world.slot? source with
  | none =>
      refine (Blind.refuse (.objectNotFound source) world).congr fun cache => ?_
      simp only [copyNoninherited, slot?_withCache, found]
  | some record =>
      let copied := record.values.filter fun entry => !world.keyHasFlag entry.key .inherit
      have stores : Unaware fun world => (world.addRefs copied).andThen fun _ world =>
          (world.modify destination fun record => { record with values := copied }).done () :=
        (unaware_addRefs copied).andThen fun _ =>
          unaware_done (fun world => world.modify destination _)
            (fun _ _ => modify_withCache ..) ()
      refine (blind_freeValues_andThen destination (fun _ => stores) world).congr fun cache => ?_
      simp only [copyNoninherited, slot?_withCache, found]
      rfl

/-! ## Declarations -/

theorem SameSources.modify (world : World) (object : Dbref)
    {change : ObjectRecord → ObjectRecord}
    (keeps : ∀ record, (change record).sources = record.sources) :
    world.SameSources (world.modify object change) where
  sources := (SameIn.refl (·.sources) world).modify object keeps
  definitions := by
    intro serial definition found
    rw [registry_modify]
    exact found

theorem blind_modify (object : Dbref) {change : ObjectRecord → ObjectRecord}
    (keeps : ∀ record, (change record).sources = record.sources) :
    Blind fun world => (world.modify object change).done () := by
  intro world
  refine ⟨.ok (), world.modify object change, .inl ⟨fun cache => ?_, .modify world object keeps⟩⟩
  exact congrArg (·.done ()) (modify_withCache ..)

/-- A new definition is registered behind the others. -/
theorem declare_definition? (registry : Registry) (name : Text) (flags : FlagSet AttrFlag)
    (definer : Dbref) {serial : Nat} {definition : AttrDef}
    (found : registry.definition? serial = some definition) :
    (registry.declare name flags definer).2.definition? serial = some definition := by
  obtain ⟨entry, present, rfl⟩ := Option.map_eq_some_iff.mp found
  simp only [Registry.registered?] at present
  simp [Registry.definition?, Registry.registered?, Registry.declare, List.find?_append, present]

theorem SameSources.declare (world : World) (name : Text) (flags : FlagSet AttrFlag)
    (definer : Dbref) :
    world.SameSources { world with registry := (world.registry.declare name flags definer).2 } :=
  ⟨rfl, fun _ _ found => declare_definition? _ name flags definer found⟩

/-- A declaration of a new name, or none because it is refused. -/
theorem declareAttr_withCache_of_new (cache : ReadCache) {object : Dbref} {name : Text}
    (new : world.definedOn? object name = none) (flags : FlagSet AttrFlag) :
    (world.withCache cache).declareAttr object name flags =
      ((world.declareAttr object name flags).1,
        (world.declareAttr object name flags).2.withCache cache) := by
  have config : (world.withCache cache).config.maxAttrDefs = world.config.maxAttrDefs := rfl
  simp only [declareAttr, record?_withCache, definedOn?_withCache, new, findDef?_withCache, config]
  split
  · rfl
  · split
    · rfl
    · split
      · rfl
      · by_cases shadows :
            ((Builtin.ofName? name).isSome || (world.findDef? object name).isSome) = true
        · refine (if_pos shadows).trans ?_
          rw [if_pos shadows]
          rfl
        · refine (if_neg shadows).trans ?_
          rw [if_neg shadows]
          simp only [done, ← modify_withCache]
          rfl

theorem SameSources.declareAttr_of_new {object : Dbref} {name : Text}
    (new : world.definedOn? object name = none) (flags : FlagSet AttrFlag) :
    world.SameSources (world.declareAttr object name flags).2 := by
  simp only [World.declareAttr, new]
  split
  · exact .refl world
  · split
    · exact .refl world
    · split
      · exact .refl world
      · split
        · exact .refl world
        · exact (SameSources.declare world name flags object).trans
            (.modify _ object fun _ => rfl)

theorem blind_declareAttr (object : Dbref) (name : Text) (flags : FlagSet AttrFlag) :
    Blind fun world => world.declareAttr object name flags := by
  intro world
  cases already : world.definedOn? object name with
  | none =>
      refine ⟨(world.declareAttr object name flags).1, (world.declareAttr object name flags).2,
        .inl ⟨fun cache => ?_, .declareAttr_of_new already flags⟩⟩
      exact declareAttr_withCache_of_new cache already flags
  | some existing =>
      by_cases illegal : (!AttrDef.isLegalName name) = true
      · exact (Blind.refuse (.illegalAttributeName name) world).congr fun cache => if_pos illegal
      · cases found : world.record? object with
        | none =>
            refine (Blind.refuse (.objectNotFound object) world).congr fun cache => ?_
            exact (if_neg illegal).trans (by simp only [record?_withCache, found])
        | some record =>
            cases keyed : existing.key with
            | builtin which =>
                refine .of_unchanged (.ok (.flagsSet { existing with flags := flags }))
                  fun cache => (if_neg illegal).trans ?_
                simp only [record?_withCache, found, definedOn?_withCache, already, keyed, done]
            | declared serial =>
                let updated := { world with registry := world.registry.setFlags serial flags }
                refine ⟨.ok (.flagsSet { existing with flags := flags }), updated,
                  .inr fun cache => (if_neg illegal).trans ?_⟩
                simp only [record?_withCache, found, definedOn?_withCache, already, keyed, done]
                rfl

/-! ## Declarations that are taken back -/

theorem clearKeys_withCache (world : World) (cache : ReadCache) (family : List Dbref)
    (key : AttrKey) :
    family.foldl (fun world member => (world.clearKey member key).2) (world.withCache cache) =
      (family.foldl (fun world member => (world.clearKey member key).2) world).withCache
        (if family = [] then cache else cache.flush) := by
  induction family generalizing world cache with
  | nil => rfl
  | cons member family ih =>
      rw [List.foldl_cons, List.foldl_cons, clearKey_withCache]
      dsimp only
      rw [ih, if_neg (List.cons_ne_nil member family)]
      congr 1
      split <;> rfl

/-- An object is of its own family. -/
theorem familyOf_ne_nil (world : World) (object : Dbref) : world.familyOf object ≠ [] := by
  unfold familyOf
  obtain ⟨bound, positive⟩ : ∃ bound, world.walkBound (·.children) [object] = bound + 1 :=
    ⟨_, Nat.add_comm 1 _⟩
  simp only [positive, walk, List.contains_nil, Bool.false_eq_true, if_false]
  exact List.cons_ne_nil _ _

theorem blind_undeclareAttr (object : Dbref) (name : Text) :
    Blind fun world => world.undeclareAttr object name := by
  intro world
  cases declared : world.definedOn? object name with
  | none =>
      refine (Blind.refuse (.definitionNotFound object name) world).congr fun cache => ?_
      simp only [undeclareAttr, definedOn?_withCache, declared]
  | some definition =>
      cases keyed : definition.key with
      | builtin which =>
          refine (Blind.refuse (.builtinAttribute definition.name) world).congr fun cache => ?_
          simp only [undeclareAttr, definedOn?_withCache, declared, keyed]
      | declared serial =>
          refine ⟨(world.undeclareAttr object name).1, (world.undeclareAttr object name).2,
            .inr fun cache => ?_⟩
          have family : (world.withCache cache).familyOf object = world.familyOf object := rfl
          simp only [undeclareAttr, definedOn?_withCache, declared, keyed, modify_withCache, family,
            clearKeys_withCache, if_neg (familyOf_ne_nil world object), release_withCache, done]

theorem blind_undeclareAll (object : Dbref) (names : List Text) :
    Blind fun world => world.undeclareAll object names := by
  induction names with
  | nil => exact fun _ => .of_unchanged _ fun _ => rfl
  | cons name later ih =>
      exact fun world => (blind_undeclareAttr object name world).andThen fun _ => ih

/-! ## Lifecycles -/

theorem blind_create (name : Text) (kind : ObjectKind) (owner location : Dbref) :
    Blind fun world => world.create name kind owner location := by
  apply Blind.ifNothingOrExists
  apply Blind.ifNothingOrExists
  intro world
  by_cases full : world.isFull = true
  · exact ⟨.error (.objectNotFound .nothing), world, .inr fun cache => if_pos full⟩
  · let owner := if owner = .nothing then world.nextObject else owner
    let pushed := world.push (.new name kind owner world.clock)
    refine ⟨.ok world.nextObject,
      if location = .nothing then pushed else pushed.putInto world.nextObject location,
      .inr fun cache => (if_neg full).trans ?_⟩
    dsimp only
    split
    · rfl
    · exact congrArg (World.done · world.nextObject) (putInto_withCache pushed cache.flush _ _)

theorem blind_clone (source owner location : Dbref) :
    Blind fun world => world.clone source owner location := by
  intro world
  cases found : world.record? source with
  | none =>
      refine (Blind.refuse (.objectNotFound source) world).congr fun cache => ?_
      simp only [clone, record?_withCache, found]
  | some template =>
      have copies (object : Dbref) : Blind fun world =>
          (world.copyNoninherited object source).andThen fun _ world => world.done object :=
        fun world => (blind_copyNoninherited object source world).andThen fun _ _ =>
          .of_unchanged _ fun _ => rfl
      have inherits (object : Dbref) : Blind fun world =>
          (world.addParents object template.parents).andThen fun _ world =>
            (world.copyNoninherited object source).andThen fun _ world => world.done object :=
        fun world => (blind_addParents object template.parents world).andThen fun _ => copies object
      have likens (object : Dbref) : Blind fun world =>
          ((world.modify object fun record =>
            { record with
              flags := template.flags, zone := template.zone, link := template.link }).done
              ()).andThen fun _ world => (world.addParents object template.parents).andThen
            fun _ world => (world.copyNoninherited object source).andThen
              fun _ world => world.done object :=
        fun world => (blind_modify object (fun _ => by rfl) world).andThen fun _ => inherits object
      have creates := blind_create template.name template.kind owner location world
      refine (creates.andThen likens).congr fun cache => ?_
      simp only [clone, record?_withCache, found]
      rfl

theorem blind_destroy (object : Dbref) : Blind fun world => world.destroy object := by
  intro world
  by_cases first : object = .system
  · exact (Blind.refuse .objectPermissionDenied world).congr fun cache => if_pos first
  · have buries : Unaware fun world =>
        (((world.takeOut object).letGo object).bury object).done () := by
      refine unaware_done (fun world => ((world.takeOut object).letGo object).bury object) ?_ ()
      intro world cache
      rw [takeOut_withCache, letGo_withCache]
      exact modify_withCache ..
    have frees := blind_freeValues_andThen object fun _ => buries
    have destroys : world.Obeys fun world =>
        (world.undeclareAll object ((world.localDefs object).map (·.name))).andThen fun _ world =>
          (world.freeValues object).andThen fun _ world =>
            (((world.takeOut object).letGo object).bury object).done () :=
      ((blind_undeclareAll object ((world.localDefs object).map (·.name)) world).andThen
        fun _ => frees).congr fun cache => rfl
    by_cases valid : world.isValid object = true
    · exact destroys.congr fun cache => (if_neg first).trans (if_pos valid)
    · exact (Blind.refuse (.objectNotFound object) world).congr fun cache =>
        (if_neg first).trans (if_neg valid)

/-! ## Locks -/

theorem compile_withCache (world : World) (cache : ReadCache) (player : Dbref) (text : Text)
    (bufferLen : Nat) :
    Compiler.compile ⟨world.withCache cache, (world.withCache cache).matcher, player⟩ text
        bufferLen =
      Compiler.compile ⟨world, world.matcher, player⟩ text bufferLen := by
  have subjects (subject : Subject) :
      Compiler.subject ⟨world.withCache cache, (world.withCache cache).matcher, player⟩ subject =
        Compiler.subject ⟨world, world.matcher, player⟩ subject := by
    cases subject <;> rfl
  have items (room : Nat) (items : List LockItem) :
      Compiler.items ⟨world.withCache cache, (world.withCache cache).matcher, player⟩ room items =
        Compiler.items ⟨world, world.matcher, player⟩ room items := by
    induction items generalizing room with
    | nil => rfl
    | cons item items ih => simp only [Compiler.items, subjects, ih]
  simp only [Compiler.compile, items]
  rfl

theorem lockToSet_withCache (world : World) (cache : ReadCache) (limits : Limits)
    (player thing : Dbref) (lock : AttrDef) (text : Text) :
    (world.withCache cache).lockToSet limits player thing lock text =
      world.lockToSet limits player thing lock text := by
  simp only [lockToSet, compile_withCache]
  rfl

theorem blind_storeLock (thing : Dbref) (lock : AttrDef) (text : Text) :
    Blind fun world => world.storeLock thing lock text :=
  fun world => (blind_setValue thing lock text world).andThen fun _ => blind_touch thing

/-! ## All operations -/

theorem Obeys.map {α β : Type} {operation : World → α × World} (obeys : world.Obeys operation)
    (change : α → β) :
    world.Obeys fun world => (change (operation world).1, (operation world).2) := by
  obtain ⟨result, after, ⟨spares, sources⟩ | forgets⟩ := obeys
  · exact ⟨change result, after,
      .inl ⟨fun cache => congrArg (Prod.map change id) (spares cache), sources⟩⟩
  · exact ⟨change result, after, .inr fun cache => congrArg (Prod.map change id) (forgets cache)⟩

end World

/-- An operation with all that it answers. -/
def Operation.report (operation : Operation) (world : World) :
    (Except LockError Answer × List Message) × World :=
  let performed := operation.perform world
  ((performed.result, performed.told), performed.world)

namespace World

theorem Blind.silent {α : Type} {outcome : World → Outcome α} (blind : Blind outcome)
    (answer : α → Operation.Answer) : Blind fun world =>
      (((Operation.silent answer (outcome world)).result,
        (Operation.silent answer (outcome world)).told),
        (Operation.silent answer (outcome world)).world) :=
  fun world => (blind world).map fun result =>
    ((result.map answer).mapError LockError.world, ([] : List Message))

theorem blind_setLock (limits : Limits) (player thing : Dbref) (lock : AttrDef) (text : Text) :
    Blind (Operation.setLock limits player thing lock text).report := by
  intro world
  cases allowed : world.lockToSet limits player thing lock text with
  | error error =>
      refine .of_unchanged (.error error, [(player, error.message)]) fun cache => ?_
      simp only [Operation.report, Operation.perform, setLock, lockToSet_withCache, allowed]
      rfl
  | ok compiled =>
      let settled (stored : Except WorldError Unit) : Except LockError Text :=
        (stored.map fun _ => compiled.text).mapError .world
      have stores := (blind_storeLock thing lock compiled.text world).map fun stored =>
        ((settled stored).map fun _ => Operation.Answer.done,
          (compiled.warnings ++ [settingReport (settled stored)]).map (player, ·))
      refine stores.congr fun cache => ?_
      simp only [Operation.report, Operation.perform, setLock, lockToSet_withCache, allowed]
      rcases (world.withCache cache).storeLock thing lock compiled.text with ⟨_ | _, after⟩ <;> rfl

/-- Every operation treats the cache of a world as a cache. -/
theorem blind_report (operation : Operation) : Blind operation.report := by
  cases operation with
  | create name kind owner location => exact (blind_create name kind owner location).silent _
  | clone source owner location => exact (blind_clone source owner location).silent _
  | destroy object => exact (blind_destroy object).silent _
  | moveTo object destination => exact (blind_moveTo object destination).silent _
  | addParent child parent => exact (blind_addParent child parent).silent _
  | removeParent child parent => exact (blind_removeParent child parent).silent _
  | setFlag object flag on => exact (blind_setFlag object flag on).silent _
  | setZone object zone => exact (blind_setZone object zone).silent _
  | setLink object link => exact (blind_setLink object link).silent _
  | setOwner object owner => exact (blind_setOwner object owner).silent _
  | touch object => exact (blind_touch object).silent _
  | declareAttr object name flags => exact (blind_declareAttr object name flags).silent _
  | undeclareAttr object name => exact (blind_undeclareAttr object name).silent _
  | setValue object handle value => exact (blind_setValue object handle value).silent _
  | clearValue object handle => exact (blind_clearKey object handle.key).silent _
  | freeValues object => exact (blind_freeValues object).silent _
  | copyNoninherited destination source =>
      exact (blind_copyNoninherited destination source).silent _
  | setLock limits player thing lock text => exact blind_setLock limits player thing lock text

end World
end WorldLocks
