import WorldLocks.Proofs.Relations.Containment

/-! Descent is told from both ends alike: a parent lists a child as often as the child lists the
parent, which in a loaded world may be more than once.  A new parent is looked for among the
descendants of its child, and that search is right in worlds with cycles too, so that no operation
makes a cycle. -/

set_option autoImplicit false

namespace WorldLocks

namespace World

variable {first second world : World}

/-! ## Both ends -/

theorem count_dropped {objects : List Dbref} {object other : Dbref} {own listed : Prop}
    [Decidable own] [Decidable listed] (unlisted : ¬ listed → object ∉ objects) :
    (if own then [] else if listed then objects.filter (· ≠ object) else objects).count other =
      if own ∨ other = object then 0 else objects.count other := by
  by_cases here : own
  · simp [here]
  · by_cases member : listed
    · simp only [here, member, if_true, if_false, count_filter_ne, false_or]
    · by_cases same : other = object
      · simp [here, member, same, List.count_eq_zero, unlisted member]
      · simp [here, member, same]

/-- Whether parents list their children as often as these list them, over all references. -/
def ListsChildren (world : World) : Prop :=
  ∀ child parent, (world.parentsOf child).count parent = (world.childrenOf parent).count child

namespace ListsChildren

theorem mem_childrenOf (lists : world.ListsChildren) {child parent : Dbref} :
    child ∈ world.childrenOf parent ↔ parent ∈ world.parentsOf child := by
  rw [← List.count_pos_iff, ← List.count_pos_iff, lists child parent]

theorem not_isChildOf_nextObject (lists : world.ListsChildren) (child : Dbref) :
    ¬ world.IsChildOf child world.nextObject := by
  intro linked
  have listed := lists.mem_childrenOf.mpr linked
  simp [childrenOf, slot?_nextObject] at listed

theorem of_kinship (lists : first.ListsChildren) (same : first.SameIn ObjectRecord.kinship second) :
    second.ListsChildren := by
  intro child parent
  rw [parentsOf_of_kinship same, childrenOf_of_kinship same]
  exact lists child parent

theorem push_new (lists : world.ListsChildren) (name : Text) (kind : ObjectKind) (owner : Dbref)
    (now : Int) : (world.push (.new name kind owner now)).ListsChildren := by
  intro child parent
  rw [parentsOf_push_new, childrenOf_push_new]
  exact lists child parent

theorem linkParent (lists : world.ListsChildren) {child parent : Dbref}
    (present : (world.slot? child).isSome) (there : (world.slot? parent).isSome) :
    (world.linkParent child parent).ListsChildren := by
  intro lower upper
  have parents : ((world.linkParent child parent).parentsOf lower).count upper =
      (world.parentsOf lower).count upper + if lower = child ∧ parent = upper then 1 else 0 := by
    rw [parentsOf_linkParent present]
    by_cases below : lower = child <;> simp [below, List.count_singleton]
  have children : ((world.linkParent child parent).childrenOf upper).count lower =
      (world.childrenOf upper).count lower + if upper = parent ∧ child = lower then 1 else 0 := by
    rw [childrenOf_linkParent there]
    by_cases above : upper = parent <;> simp [above, List.count_singleton]
  have both : (lower = child ∧ parent = upper) ↔ (upper = parent ∧ child = lower) :=
    ⟨fun ⟨below, above⟩ => ⟨above.symm, below.symm⟩, fun ⟨above, below⟩ => ⟨below.symm, above.symm⟩⟩
  rw [parents, children, lists lower upper]
  simp only [both]

theorem unlinkParent (lists : world.ListsChildren) (child parent : Dbref) :
    (world.unlinkParent child parent).ListsChildren := by
  intro lower upper
  have before := lists lower upper
  rw [parentsOf_unlinkParent, childrenOf_unlinkParent]
  by_cases below : lower = child <;> by_cases above : upper = parent <;>
    simp only [below, above, if_true, if_false, count_filter_ne] at before ⊢
  all_goals exact before

theorem letGo (lists : world.ListsChildren) (object : Dbref) :
    (world.letGo object).ListsChildren := by
  intro child parent
  have parents : child ∉ world.childrenOf object → object ∉ world.parentsOf child :=
    fun unlisted member => unlisted (lists.mem_childrenOf.mpr member)
  have children : parent ∉ world.parentsOf object → object ∉ world.childrenOf parent :=
    fun unlisted member => unlisted (lists.mem_childrenOf.mp member)
  rw [parentsOf_letGo, childrenOf_letGo, count_dropped parents, count_dropped children,
    lists child parent]
  simp only [or_comm]

theorem rearranges (lists : first.ListsChildren) (step : first.Rearranges second) :
    second.ListsChildren := by
  cases step with
  | unrelated same => exact lists.of_kinship same.kinship
  | created name kind owner now => exact lists.push_new name kind owner now
  | putIn nowhere present there outside => exact lists.of_kinship (kinship_putInto first _ _)
  | takenOut object => exact lists.of_kinship (kinship_takeOut first object)
  | adopted present there apart => exact lists.linkParent present there
  | disowned child parent => exact lists.unlinkParent child parent
  | letGo object => exact lists.letGo object

theorem rearranged (lists : first.ListsChildren) (steps : first.Rearranged second) :
    second.ListsChildren := by
  induction steps with
  | refl => exact lists
  | tail _ step ih => exact ih.rearranges step

end ListsChildren

/-! ## No cycles -/

theorem acyclic_isChildOf_of_kinship (acyclic : Acyclic first.IsChildOf)
    (same : first.SameIn ObjectRecord.kinship second) : Acyclic second.IsChildOf := by
  refine acyclic.mono fun child parent related => ?_
  unfold IsChildOf at related
  rwa [parentsOf_of_kinship same] at related

theorem acyclic_isChildOf_rearranges (acyclic : Acyclic first.IsChildOf)
    (step : first.Rearranges second) : Acyclic second.IsChildOf := by
  cases step with
  | unrelated same => exact acyclic_isChildOf_of_kinship acyclic same.kinship
  | created name kind owner now =>
      refine acyclic.mono fun child parent related => ?_
      unfold IsChildOf at related
      rwa [parentsOf_push_new] at related
  | putIn nowhere present there outside =>
      exact acyclic_isChildOf_of_kinship acyclic (kinship_putInto first _ _)
  | takenOut object => exact acyclic_isChildOf_of_kinship acyclic (kinship_takeOut first object)
  | adopted present there apart =>
      refine acyclic.insert (fun child parent related => ?_) apart
      unfold IsChildOf at related
      rw [parentsOf_linkParent present] at related
      split at related
      · next own =>
        exact (List.mem_append.mp related).imp_right fun last => ⟨own, List.mem_singleton.mp last⟩
      · exact .inl related
  | disowned child parent =>
      refine acyclic.mono fun lower upper related => ?_
      unfold IsChildOf at related
      rw [parentsOf_unlinkParent] at related
      split at related
      · exact List.mem_of_mem_filter related
      · exact related
  | letGo object =>
      refine acyclic.mono fun child parent related => ?_
      unfold IsChildOf at related
      rw [parentsOf_letGo] at related
      split at related
      · exact absurd related List.not_mem_nil
      · split at related
        · exact List.mem_of_mem_filter related
        · exact related

theorem acyclic_isChildOf_rearranged (acyclic : Acyclic first.IsChildOf)
    (steps : first.Rearranged second) : Acyclic second.IsChildOf := by
  induction steps with
  | refl => exact acyclic
  | tail _ step ih => exact acyclic_isChildOf_rearranges ih step

/-- A parent is refused exactly for being the child or descending from it. -/
theorem addParent_recursiveParent_iff {child parent : Dbref}
    (validChild : world.isValid child = true) (validParent : world.isValid parent = true) :
    (world.addParent child parent).1 = .error (.recursiveParent child parent) ↔
      world.Descends parent child := by
  have somewhere : parent ≠ .nothing := fun nowhere => by
    simp [nowhere, isValid, record?] at validParent
  have search : world.isA parent child = true ↔ world.Descends parent child := by
    rw [isA_iff, or_iff_right somewhere]
  rw [addParent, ifExists, if_pos validChild, ifExists, if_pos validParent, ← search]
  split
  · next recursive => simp [recursive, refuse]
  · next unrelated =>
    dsimp only [done]
    split <;> simp [unrelated]

/-! ## Starts -/

theorem IsLoose.listsChildren (loose : world.IsLoose) : world.ListsChildren := by
  intro child parent
  rw [loose.parentsOf, loose.childrenOf]
  rfl

theorem IsLoose.acyclic_isChildOf (loose : world.IsLoose) : Acyclic world.IsChildOf := by
  intro object cycle
  obtain ⟨parent, related, -⟩ := Relation.TransGen.head'_iff.mp cycle
  unfold IsChildOf at related
  rw [loose.parentsOf] at related
  exact absurd related List.not_mem_nil

/-- What holds of descent when the round of relations has come to an index. -/
structure BornUpTo (total index : Nat) (world : World) : Prop where
  lists : world.ListsChildren
  waiting : ∀ later, index ≤ later → world.parentsOf (.ofIndex later) = []
  present : ∀ slot < total, (world.slot? (.ofIndex slot)).isSome

theorem BornUpTo.loadRelations {total index : Nat} (born : BornUpTo total index first)
    (within : index < total) {fixture : ObjectFixture}
    (loads : loadRelations first (.ofIndex index) fixture = .ok second) :
    BornUpTo total (index + 1) second := by
  obtain ⟨enlisted, listing, rfl⟩ := loadRelations_ok loads
  have same := kinship_settle enlisted (.ofIndex index) fixture.location
  have parents (other : Dbref) :
      (enlisted.settle (.ofIndex index) fixture.location).parentsOf other =
        if other = .ofIndex index then fixture.parents else first.parentsOf other := by
    rw [parentsOf_of_kinship same, parentsOf_enlistChild listing,
      parentsOf_relate (born.present index within)]
  refine ⟨fun child parent => ?_, fun later waits => ?_, fun slot below => ?_⟩
  · rw [parents, childrenOf_of_kinship same, count_childrenOf_enlistChild listing,
      childrenOf_relate, ← born.lists child parent]
    split
    · next own => rw [own, born.waiting index (Nat.le_refl _), List.count_nil, Nat.zero_add]
    · rw [Nat.add_zero]
  · have apart : Dbref.ofIndex later ≠ .ofIndex index := fun equal => by
      have := Dbref.ofIndex_injective equal
      omega
    rw [parents, if_neg apart]
    exact born.waiting later (Nat.le_of_succ_le waits)
  · rw [same.isSome_slot?, (placing_enlistChild listing).isSome_slot?,
      (placing_relate ..).isSome_slot?]
    exact born.present slot below

theorem IsStart.listsChildren (starts : IsStart world) : world.ListsChildren := by
  cases starts with
  | empty config clock => exact (isLoose_new config clock).listsChildren
  | @loaded fixture _ _ loads =>
      obtain ⟨loose, related, start, relating, same⟩ := ofFixture_related loads
      obtain ⟨unborn, present⟩ := isLoose_of_unrelated start
      have born := loadEach_invariant (BornUpTo fixture.objects.length)
        (fun world index object next within born => born.loadRelations within)
        ⟨unborn.listsChildren, fun later _ => unborn.parentsOf _, present⟩ relating
      exact born.lists.of_kinship (SameRelations.of_sameBare same).kinship

/-! ## Consistent kinship -/

/-- Whether parents and children tell the same of all objects in the table. -/
structure ConsistentKinship (world : World) : Prop where
  count_eq : ∀ child lower parent upper, world.slot? child = some lower →
    world.slot? parent = some upper → lower.parents.count parent = upper.children.count child
  parents_present : ∀ child record, world.slot? child = some record →
    ∀ parent ∈ record.parents, (world.slot? parent).isSome
  children_present : ∀ parent record, world.slot? parent = some record →
    ∀ child ∈ record.children, (world.slot? child).isSome

theorem consistentKinship_of_listsChildren (lists : world.ListsChildren) :
    world.ConsistentKinship := by
  constructor
  · intro child lower parent upper found above
    have count := lists child parent
    simp only [parentsOf, childrenOf, found, above, Option.elim_some] at count
    exact count
  · intro child record found parent member
    refine Option.isSome_iff_ne_none.mpr fun missing => ?_
    have related : parent ∈ world.parentsOf child := by simpa [parentsOf, found] using member
    have listed := lists.mem_childrenOf.mpr related
    simp [childrenOf, missing] at listed
  · intro parent record found child member
    refine Option.isSome_iff_ne_none.mpr fun missing => ?_
    have related : child ∈ world.childrenOf parent := by simpa [childrenOf, found] using member
    have listed := lists.mem_childrenOf.mp related
    simp [parentsOf, missing] at listed

/-- After every run kinship is consistent, there is no cycle unless there is one at the start, and
an object that exists is refused as a parent of one that exists exactly if it is the child or
descends from it. -/
theorem Leads.consistentKinship {allowed : Operation → Prop} {start : World}
    (run : Leads allowed start world) (starts : IsStart start) :
    world.ConsistentKinship ∧ (Acyclic start.IsChildOf → Acyclic world.IsChildOf) ∧
      ∀ child parent, world.isValid child = true → world.isValid parent = true →
        ((world.addParent child parent).1 = .error (.recursiveParent child parent) ↔
          world.Descends parent child) := by
  have steps := run.rearranged starts
  refine ⟨consistentKinship_of_listsChildren (starts.listsChildren.rearranged steps), ?_, ?_⟩
  · exact fun acyclic => acyclic_isChildOf_rearranged acyclic steps
  · exact fun child parent validChild validParent =>
      addParent_recursiveParent_iff validChild validParent

/-- Three generations: the first may not inherit from the last. -/
theorem consistentKinship_of_refused_parent :
    ∃ world : World, Leads (fun _ => True) (.new {} 0) world ∧
      [⟨2⟩, ⟨1⟩, .system].map world.parentsOf = [[⟨1⟩], [.system], []] ∧
      world.ConsistentKinship ∧ Acyclic world.IsChildOf ∧ world.Descends ⟨2⟩ .system := by
  let history : List Operation :=
    [.create "First".toList .thing .nothing .nothing,
      .create "Second".toList .thing .nothing .nothing,
      .create "Third".toList .thing .nothing .nothing,
      .addParent ⟨1⟩ .system,
      .addParent ⟨2⟩ ⟨1⟩,
      .addParent .system ⟨2⟩]
  have run : Leads (fun _ => True) (.new {} 0) (Operation.performAll (.new {} 0) history) :=
    Leads.refl.performAll fun _ _ => trivial
  obtain ⟨consistent, acyclic, refused⟩ := run.consistentKinship (.empty {} 0)
  exact ⟨_, run, by decide +kernel, consistent, acyclic (isLoose_new {} 0).acyclic_isChildOf,
    (refused .system ⟨2⟩ (by decide +kernel) (by decide +kernel)).mp (by decide +kernel)⟩

end World
end WorldLocks
