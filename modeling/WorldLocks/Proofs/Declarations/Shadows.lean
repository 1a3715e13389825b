import WorldLocks.Proofs.Declarations.Names
import WorldLocks.Proofs.Relations.Descent

/-! Declarations that shadow others.  A name is looked for on the ancestors of an object when the
object declares it, and never again: not on its descendants, and not when an object gets a parent.
So a name comes to be declared twice in one line of descent by a declaration above another one or by
a new parent, and in no other way. -/

set_option autoImplicit false

namespace WorldLocks

deriving instance DecidableEq for DeclareResult

namespace World

variable {start world after : World} {loose : Nat → Nat} {object child parent : Dbref} {name : Text}
  {flags : FlagSet AttrFlag}

/-! ## Shared names -/

theorem localDefs_eq_nil (blank : ∀ record ∈ world.objects, record.declared = [])
    (object : Dbref) : world.localDefs object = [] := by
  have nothing : world.declaredBy object = [] := elim_slot?_of_forall blank object
  rw [localDefs_eq, nothing, List.filterMap_nil]

theorem Declares.mem_slots (declares : world.Declares object name) : object ∈ world.slots := by
  rw [World.mem_slots]
  by_contra missing
  rw [Option.not_isSome_iff_eq_none] at missing
  simp [Declares, definedOn?, localDefs_eq, declaredBy, missing] at declares

/-- Whether an object declares a name that another one declares too. -/
def SharesName (world : World) (first second : Dbref) : Prop :=
  ∃ definition ∈ world.localDefs first, world.Declares second definition.name

/-- Whether no object declares a name that one of its ancestors declares too. -/
def Unshadowed (world : World) : Prop :=
  ∀ object, ∀ ancestor ∈ world.ancestors object, ¬ world.SharesName object ancestor

theorem sharesName_iff {first second : Dbref} : world.SharesName first second ↔
    ∃ label ∈ world.labelsOf first, world.Declares second label.1 := by
  simp only [SharesName, ← map_localDefs_label, List.mem_map, exists_exists_and_eq_and,
    AttrDef.label]

theorem Retracts.declares (retracts : world.Retracts after)
    (declares : after.Declares object name) : world.Declares object name := by
  obtain ⟨label, member, same⟩ := declares_iff.mp declares
  exact declares_iff.mpr ⟨label, (retracts.labels_sublist object).subset member, same⟩

theorem Retracts.sharesName (retracts : world.Retracts after) {first second : Dbref}
    (shares : after.SharesName first second) : world.SharesName first second := by
  obtain ⟨label, member, declares⟩ := sharesName_iff.mp shares
  exact sharesName_iff.mpr ⟨label, (retracts.labels_sublist first).subset member,
    retracts.declares declares⟩

theorem Unshadowed.lessens (unshadowed : world.Unshadowed) (less : world.Lessens after) :
    after.Unshadowed := by
  intro object ancestor member shares
  obtain ⟨apart, descends⟩ := mem_ancestors.mp member
  have before : Relation.TransGen world.IsChildOf object ancestor :=
    Relation.TransGen.mono (fun child parent linked => less.parents child linked) _ _ descends
  exact unshadowed object ancestor (mem_ancestors.mpr ⟨apart, before⟩)
    (less.toRetracts.sharesName shares)

/-! ## New declarations -/

namespace DeclaresAnew

theorem mem_ancestors (anew : DeclaresAnew object name flags world after) {lower upper : Dbref} :
    upper ∈ after.ancestors lower ↔ upper ∈ world.ancestors lower := by
  have links : after.IsChildOf = world.IsChildOf := by
    funext child parent
    rw [IsChildOf, IsChildOf, anew.parents]
  rw [World.mem_ancestors, World.mem_ancestors, links]

theorem declares_iff (anew : DeclaresAnew object name flags world after)
    (balanced : world.Balanced loose) {other : Dbref} {sought : Text} :
    after.Declares other sought ↔ world.Declares other sought ∨
      other = object ∧ Text.sameIgnoringCase name sought = true := by
  rw [World.declares_iff, World.declares_iff]
  constructor
  · rintro ⟨label, member, same⟩
    rcases (anew.mem_labelsOf balanced).mp member with old | ⟨here, rfl⟩
    · exact .inl ⟨label, old, same⟩
    · exact .inr ⟨here, same⟩
  · rintro (⟨label, old, same⟩ | ⟨here, same⟩)
    · exact ⟨label, (anew.mem_labelsOf balanced).mpr (.inl old), same⟩
    · exact ⟨(name, object), (anew.mem_labelsOf balanced).mpr (.inr ⟨here, rfl⟩), same⟩

/-- A new declaration shadows nothing, but others may come to shadow it. -/
theorem unshadowed_iff (anew : DeclaresAnew object name flags world after)
    (balanced : world.Balanced loose) (unshadowed : world.Unshadowed) :
    after.Unshadowed ↔ ¬ ∃ lower, object ∈ world.ancestors lower ∧ world.Declares lower name := by
  constructor
  · rintro unshadowed ⟨lower, above, declares⟩
    obtain ⟨label, member, same⟩ := World.declares_iff.mp declares
    refine unshadowed lower object (anew.mem_ancestors.mpr above) (sharesName_iff.mpr ?_)
    rw [Text.sameIgnoringCase_comm] at same
    exact ⟨label, (anew.mem_labelsOf balanced).mpr (.inl member),
      (anew.declares_iff balanced).mpr (.inr ⟨rfl, same⟩)⟩
  · intro nowhere lower upper member shares
    rw [anew.mem_ancestors] at member
    obtain ⟨label, labelled, declares⟩ := sharesName_iff.mp shares
    rcases (anew.mem_labelsOf balanced).mp labelled with old | ⟨rfl, rfl⟩
    · rcases (anew.declares_iff balanced).mp declares with before | ⟨rfl, same⟩
      · exact unshadowed lower upper member (sharesName_iff.mpr ⟨label, old, before⟩)
      · rw [Text.sameIgnoringCase_comm] at same
        exact nowhere ⟨lower, member, World.declares_iff.mpr ⟨label, old, same⟩⟩
    · rcases (anew.declares_iff balanced).mp declares with before | ⟨rfl, -⟩
      · exact anew.not_declares (List.mem_cons_of_mem _ member) before
      · exact (World.mem_ancestors.mp member).1 rfl

end DeclaresAnew

/-! ## New parents -/

/-- An object that another one may get as a parent does not descend from it.  It gets it as a parent
if it does not have it yet. -/
theorem addParent_cases (world : World) (child parent : Dbref) :
    (∃ error, world.addParent child parent = (.error error, world)) ∨
      ¬ world.Descends parent child ∧
        (world.IsChildOf child parent ∧ world.addParent child parent = (.ok (), world.flush) ∨
          ¬ world.IsChildOf child parent ∧ (world.slot? child).isSome ∧
            world.addParent child parent = (.ok (), world.flush.linkParent child parent)) := by
  by_cases valid : world.isValid child = true
  case neg => exact .inl ⟨_, by rw [World.addParent, ifExists, if_neg valid, refuse]⟩
  by_cases validParent : world.isValid parent = true
  case neg =>
    exact .inl ⟨_, by rw [World.addParent, ifExists, if_pos valid, ifExists, if_neg validParent,
      refuse]⟩
  rw [World.addParent, ifExists, if_pos valid, ifExists, if_pos validParent]
  split
  · exact .inl ⟨_, rfl⟩
  · next unrelated =>
    refine .inr ⟨fun descends => unrelated (isA_iff.mpr (.inr descends)), ?_⟩
    dsimp only
    split
    · next listed => exact .inl ⟨List.contains_iff_mem.mp listed, rfl⟩
    · next unlisted =>
      have new : ¬ world.IsChildOf child parent := fun listed =>
        unlisted (List.contains_iff_mem.mpr listed)
      exact .inr ⟨new, isSome_slot?_of_isValid valid, rfl⟩

theorem localDefs_linkParent (world : World) (child parent object : Dbref) :
    (world.linkParent child parent).localDefs object = world.localDefs object := by
  have declared : world.SameIn ObjectRecord.declared (world.linkParent child parent) :=
    ((SameIn.refl _ world).modify child fun _ => by rfl).modify parent fun _ => by rfl
  have lists : (world.linkParent child parent).declaredBy object = world.declaredBy object :=
    declared.elim [] object
  rw [localDefs_eq, localDefs_eq, lists, linkParent, registry_modify, registry_modify]

theorem isChildOf_linkParent (present : (world.slot? child).isSome) {lower upper : Dbref} :
    (world.linkParent child parent).IsChildOf lower upper ↔
      world.IsChildOf lower upper ∨ lower = child ∧ upper = parent := by
  rw [IsChildOf, IsChildOf, parentsOf_linkParent present]
  by_cases same : lower = child <;> simp [same]

theorem sharesName_linkParent {first second : Dbref} :
    (world.linkParent child parent).SharesName first second ↔ world.SharesName first second := by
  simp only [SharesName, Declares, definedOn?, localDefs_linkParent]

/-- Whether an object that is a child or descends from it declares a name that a parent or an
ancestor of it declares too. -/
def SharesAcross (world : World) (child parent : Dbref) : Prop :=
  ∃ lower upper, world.Descends lower child ∧ world.Descends parent upper ∧
    world.SharesName lower upper

/-- A name that is shared across a link makes a declaration shadow another one. -/
theorem SharesAcross.not_unshadowed (across : world.SharesAcross child parent)
    (apart : ¬ world.Descends parent child)
    (links : ∀ lower upper, world.IsChildOf lower upper → after.IsChildOf lower upper)
    (names : ∀ first second, world.SharesName first second → after.SharesName first second)
    (linked : after.IsChildOf child parent) : ¬ after.Unshadowed := by
  intro unshadowed
  obtain ⟨lower, upper, below, above, shares⟩ := across
  have distinct : upper ≠ lower := fun same => apart (above.trans (same ▸ below))
  have joined := Relation.TransGen.tail' (Relation.ReflTransGen.mono links _ _ below) linked
  have descends := joined.trans_left (Relation.ReflTransGen.mono links _ _ above)
  exact unshadowed lower upper (mem_ancestors.mpr ⟨distinct, descends⟩) (names lower upper shares)

namespace Unshadowed

theorem linkParent_iff (unshadowed : world.Unshadowed) (present : (world.slot? child).isSome)
    (apart : ¬ world.Descends parent child) :
    (world.linkParent child parent).Unshadowed ↔ ¬ world.SharesAcross child parent := by
  constructor
  · intro unshadowed across
    exact across.not_unshadowed apart
      (fun _ _ old => (isChildOf_linkParent present).mpr (.inl old))
      (fun _ _ => sharesName_linkParent.mpr)
      ((isChildOf_linkParent present).mpr (.inr ⟨rfl, rfl⟩)) unshadowed
  · intro nowhere lower upper member shares
    obtain ⟨distinct, descends⟩ := mem_ancestors.mp member
    rw [sharesName_linkParent] at shares
    rcases transGen_of_insert (fun _ _ => (isChildOf_linkParent present).mp) descends with
      old | ⟨below, above⟩
    · exact unshadowed lower upper (mem_ancestors.mpr ⟨distinct, old⟩) shares
    · exact nowhere ⟨lower, upper, below, above, shares⟩

theorem flush (unshadowed : world.Unshadowed) : world.flush.Unshadowed :=
  unshadowed.lessens (Lessens.refl world).flush

theorem addParent_iff (unshadowed : world.Unshadowed) (child parent : Dbref) :
    (world.addParent child parent).2.Unshadowed ↔
      ¬ ((world.addParent child parent).1 = .ok () ∧ world.SharesAcross child parent) := by
  rcases world.addParent_cases child parent with ⟨error, refused⟩ | ⟨apart, known | linked⟩
  · simp [refused, unshadowed]
  · obtain ⟨linked, done⟩ := known
    have nowhere : ¬ world.SharesAcross child parent := fun across =>
      across.not_unshadowed apart (fun _ _ => id) (fun _ _ => id) linked unshadowed
    simp [done, unshadowed.flush, nowhere]
  · obtain ⟨-, present, done⟩ := linked
    rw [done, unshadowed.flush.linkParent_iff present apart]
    simp only [true_and]
    rfl

end Unshadowed

theorem parentsOf_addParent {other : Dbref} (apart : other ≠ child) :
    (world.addParent child parent).2.parentsOf other = world.parentsOf other := by
  rcases world.addParent_cases child parent with ⟨error, refused⟩ | ⟨-, known | linked⟩
  · rw [refused]
  · rw [known.2]
    rfl
  · obtain ⟨-, (present : (world.flush.slot? child).isSome), done⟩ := linked
    rw [done]
    exact (parentsOf_linkParent present parent other).trans (if_neg apart)

theorem parentsOf_addParents {other : Dbref} (apart : other ≠ child) (parents : List Dbref) :
    (world.addParents child parents).2.parentsOf other = world.parentsOf other := by
  induction parents generalizing world with
  | nil => rfl
  | cons parent later ih =>
      refine Outcome.andThen_world (fun next => next.parentsOf other = world.parentsOf other)
        (parentsOf_addParent apart) fun _ next same => ih.trans same

/-- Cloning gives no parent to any object but the new one. -/
theorem parentsOf_clone_subset (source owner location : Dbref) {other : Dbref}
    (apart : other ≠ world.nextObject) :
    (world.clone source owner location).2.parentsOf other ⊆ world.parentsOf other := by
  unfold World.clone
  split
  · exact .refl _
  · next template _ =>
    have created := (Lessens.refl world).create template.name template.kind owner location
    refine Outcome.andThen_world_of_ok (fun next => next.parentsOf other ⊆ world.parentsOf other)
      (created.parents other) fun object made => ?_
    obtain rfl := create_eq_nextObject made
    have likened : world.Lessens
        ((world.create template.name template.kind owner location).2.modify world.nextObject
          fun record => { record with
            flags := template.flags, zone := template.zone, link := template.link }) :=
      created.modify world.nextObject fun _ => by rfl
    refine Outcome.andThen_world (fun next => next.parentsOf other ⊆ world.parentsOf other) ?_
      fun _ related kept => ?_
    · rw [parentsOf_addParents apart]
      exact likened.parents other
    · refine Outcome.andThen_world (fun next => next.parentsOf other ⊆ world.parentsOf other) ?_
        fun _ _ copied => copied
      exact List.Subset.trans (((Lessens.refl related).copyNoninherited _ source).parents other) kept

/-- A clone declares nothing, and nobody inherits from it. -/
theorem Unshadowed.clone (unshadowed : world.Unshadowed) (lists : world.ListsChildren)
    (source owner location : Dbref) : (world.clone source owner location).2.Unshadowed := by
  have retracts := world.retracts_clone source owner location
  have blank : world.labelsOf world.nextObject = [] := by
    rw [labelsOf, declaredBy, slot?_nextObject]
    rfl
  intro lower upper member shares
  obtain ⟨distinct, descends⟩ := mem_ancestors.mp member
  have before := retracts.sharesName shares
  have old : lower ≠ world.nextObject := by
    rintro rfl
    obtain ⟨label, labelled, -⟩ := sharesName_iff.mp before
    simp [blank] at labelled
  -- A way that starts from an old object stays among the old ones.
  have step {object parent : Dbref} (known : object ≠ world.nextObject)
      (linked : (world.clone source owner location).2.IsChildOf object parent) :
      world.IsChildOf object parent := world.parentsOf_clone_subset source owner location known linked
  have way : Relation.TransGen world.IsChildOf lower upper := by
    clear member distinct shares before
    induction descends with
    | single linked => exact .single (step old linked)
    | @tail middle _ _ linked ih =>
        refine .tail ih (step ?_ linked)
        rintro rfl
        obtain ⟨child, -, last⟩ := Relation.TransGen.tail'_iff.mp ih
        exact lists.not_isChildOf_nextObject child last
  exact unshadowed lower upper (mem_ancestors.mpr ⟨distinct, way⟩) before

end World

/-! ## Operations -/

/-- Whether an operation makes a declaration shadow another one: by declaring a name that an object
further down declares, or by giving an object a parent when a name is declared both from the object
down and from the parent up. -/
def Operation.Shadows (world : World) : Operation → Prop
  | .declareAttr object name flags =>
    (∃ definition, (world.declareAttr object name flags).1 = .ok (.declared definition)) ∧
      ∃ lower, object ∈ world.ancestors lower ∧ world.Declares lower name
  | .addParent child parent =>
    (world.addParent child parent).1 = .ok () ∧ world.SharesAcross child parent
  | _ => False

namespace World

variable {start world : World} {loose : Nat → Nat} {allowed : Operation → Prop}

theorem Unshadowed.declareAttr_iff (unshadowed : world.Unshadowed)
    (balanced : world.Balanced loose) (object : Dbref) (name : Text) (flags : FlagSet AttrFlag) :
    (world.declareAttr object name flags).2.Unshadowed ↔
      ¬ (Operation.declareAttr object name flags).Shadows world := by
  rcases declareAttr_cases balanced.wellFormed object name flags with ⟨anew, done⟩ | ⟨less, old⟩
  · rw [anew.unshadowed_iff balanced unshadowed, Operation.Shadows]
    simp [done]
  · simp [Operation.Shadows, old, unshadowed.lessens less]

/-- An operation makes a declaration shadow another one in these two ways and no other. -/
theorem Unshadowed.perform_iff (unshadowed : world.Unshadowed) (balanced : world.Balanced loose)
    (lists : world.ListsChildren) (operation : Operation) :
    (operation.perform world).world.Unshadowed ↔ ¬ operation.Shadows world := by
  cases operation with
  | declareAttr object name flags => exact unshadowed.declareAttr_iff balanced object name flags
  | addParent child parent => exact unshadowed.addParent_iff child parent
  | clone source owner location =>
      exact iff_of_true (unshadowed.clone lists source owner location) id
  | _ => exact iff_of_true (unshadowed.lessens (world.lessens_perform id id)) id

theorem unshadowed_new (config : WorldConfig) (clock : Int) : (new config clock).Unshadowed := by
  rintro object ancestor - ⟨definition, member, -⟩
  rw [localDefs_eq_nil (by simp [new])] at member
  exact List.not_mem_nil member

/-! ## Runs -/

theorem Leads.unshadowed_perform_iff (run : Leads allowed start world) (starts : IsStart start)
    (unshadowed : world.Unshadowed) (operation : Operation) :
    (operation.perform world).world.Unshadowed ↔ ¬ operation.Shadows world := by
  have reachable : Reachable allowed world := ⟨start, starts, run⟩
  obtain ⟨loose, balanced⟩ := reachable.accounted.covered
  exact unshadowed.perform_iff balanced (starts.listsChildren.rearranged (run.rearranged starts))
    operation

theorem LeadsWhile.unshadowed (starts : IsStart start) (unshadowed : start.Unshadowed)
    (run : LeadsWhile (fun world operation => ¬ operation.Shadows world) start world) :
    world.Unshadowed := by
  induction run with
  | refl => exact unshadowed
  | perform operation legal run ih =>
      exact (run.leads.unshadowed_perform_iff starts ih operation).mpr legal
  | read object handle run ih =>
      exact ih.lessens ((Lessens.refl _).of_objects_eq rfl rfl (.refl _))
  | wait clock run ih => exact ih.lessens ((Lessens.refl _).of_objects_eq rfl rfl (.refl _))

theorem declareAttr_apart (balanced : world.Balanced loose) {object : Dbref} {name : Text}
    {flags : FlagSet AttrFlag} {definition : AttrDef}
    (declares : (world.declareAttr object name flags).1 = .ok (.declared definition)) :
    ∀ ancestor ∈ (world.declareAttr object name flags).2.ancestors object,
      ¬ (world.declareAttr object name flags).2.Declares ancestor name := by
  rcases declareAttr_cases balanced.wellFormed object name flags with ⟨anew, -⟩ | ⟨-, old⟩
  · intro ancestor member again
    rw [anew.mem_ancestors] at member
    rcases (anew.declares_iff balanced).mp again with before | ⟨rfl, -⟩
    · exact anew.not_declares (List.mem_cons_of_mem _ member) before
    · exact (mem_ancestors.mp member).1 rfl
  · exact absurd declares (old definition)

/-- In runs from an empty world no object declares a name that one of its ancestors declares too,
unless a name is declared above an object that declares it, or an object gets a parent when a name is
declared from the object down and from the parent up.  Each of these does make a declaration shadow
another one; and what is newly declared never shadows anything at that time. -/
theorem unshadowed_of_not_shadows (config : WorldConfig) (clock : Int) :
    (∀ world, LeadsWhile (fun world operation => ¬ operation.Shadows world) (.new config clock)
      world → world.Unshadowed) ∧
      ∀ world, Leads (fun _ => True) (.new config clock) world →
        (∀ operation : Operation, world.Unshadowed →
          ((operation.perform world).world.Unshadowed ↔ ¬ operation.Shadows world)) ∧
        ∀ object name flags definition,
          (world.declareAttr object name flags).1 = .ok (.declared definition) →
            ∀ ancestor ∈ (world.declareAttr object name flags).2.ancestors object,
              ¬ (world.declareAttr object name flags).2.Declares ancestor name := by
  have starts : IsStart (.new config clock) := .empty config clock
  constructor
  · exact fun world run => run.unshadowed starts (unshadowed_new config clock)
  · intro world run
    constructor
    · exact fun operation unshadowed => run.unshadowed_perform_iff starts unshadowed operation
    · intro object name flags definition declares
      have reachable : Reachable (fun _ => True) world := ⟨_, starts, run⟩
      obtain ⟨loose, balanced⟩ := reachable.accounted.covered
      exact declareAttr_apart balanced declares

/-- A bag inherits from a box, and each declares a word of its own.  Declaring the word of the bag
on the box makes the bag shadow it; a third word on the bag shadows nothing. -/
theorem unshadowed_of_not_shadows_bag :
    ∃ world : World, Leads (fun _ => True) (.new {} 0) world ∧ world.Unshadowed ∧
      ¬ ((Operation.declareAttr .system "Bar".toList .empty).perform world).world.Unshadowed ∧
      ∀ ancestor ∈ (world.declareAttr .root "Baz".toList .empty).2.ancestors .root,
        ¬ (world.declareAttr .root "Baz".toList .empty).2.Declares ancestor "Baz".toList := by
  let unrelated := Operation.performAll (.new {} 0)
    [.create "Box".toList .thing .nothing .nothing, .create "Bag".toList .thing .nothing .nothing]
  let related := Operation.performAll unrelated [.addParent .root .system]
  let boxed := Operation.performAll related [.declareAttr .system "Foo".toList .empty]
  let world := Operation.performAll boxed [.declareAttr .root "Bar".toList .empty]
  obtain ⟨kept, steps⟩ := unshadowed_of_not_shadows {} 0
  let plain (world : World) (operation : Operation) : Prop := ¬ operation.Shadows world
  have created : LeadsWhile plain (.new {} 0) unrelated :=
    .perform (.create "Bag".toList .thing .nothing .nothing) id
      (.perform (.create "Box".toList .thing .nothing .nothing) id .refl)
  have adopted : LeadsWhile plain (.new {} 0) related := by
    refine .perform (.addParent .root .system) ?_ created
    rintro ⟨-, lower, upper, -, -, definition, member, -⟩
    rw [localDefs_eq_nil (by decide +kernel)] at member
    exact List.not_mem_nil member
  have first : LeadsWhile plain (.new {} 0) boxed := by
    refine .perform (.declareAttr .system "Foo".toList .empty) ?_ adopted
    rintro ⟨-, lower, -, declares⟩
    exact (show ∀ lower ∈ related.slots, ¬ related.Declares lower "Foo".toList by
      decide +kernel) lower declares.mem_slots declares
  have second : LeadsWhile plain (.new {} 0) world := by
    refine .perform (.declareAttr .root "Bar".toList .empty) ?_ first
    rintro ⟨-, lower, -, declares⟩
    exact (show ∀ lower ∈ boxed.slots, ¬ boxed.Declares lower "Bar".toList by
      decide +kernel) lower declares.mem_slots declares
  obtain ⟨step, fresh⟩ := steps world second.leads
  have unshadowed := kept world second
  refine ⟨world, second.leads, unshadowed, fun still => ?shadows, ?fresh⟩
  case shadows =>
    refine (step _ unshadowed).mp still ⟨⟨⟨.declared 2, "Bar".toList, .empty, .system⟩, ?_⟩, ?_⟩
    · decide +kernel
    · exact ⟨.root, by decide +kernel, by decide +kernel⟩
  case fresh =>
    exact fresh .root "Baz".toList .empty ⟨.declared 2, "Baz".toList, .empty, .root⟩
      (by decide +kernel)

/-- A bag inherits from a box and declares a word, and then the box is let declare it as well. -/
theorem not_unshadowed_of_late_declaration :
    let history : List Operation :=
      [.create "Box".toList .thing .nothing .nothing,
        .create "Bag".toList .thing .nothing .nothing,
        .addParent .root .system,
        .declareAttr .root "FOO".toList .empty,
        .declareAttr .system "foo".toList .empty]
    let world := Operation.performAll (.new {} 0) history
    Leads (fun _ => True) (.new {} 0) world ∧ ¬ world.Unshadowed := by
  intro history world
  refine ⟨Leads.refl.performAll fun _ _ => trivial, fun unshadowed => ?_⟩
  have above : .system ∈ world.ancestors .root := by decide +kernel
  have both : ∃ definition ∈ world.localDefs .root, world.Declares .system definition.name := by
    decide +kernel
  exact unshadowed .root .system above both

end World
end WorldLocks
