import WorldLocks.Lock.Evaluate
import WorldLocks.Proofs.Declarations.Names
import WorldLocks.Proofs.Expansion

/-! What an attribute name means.  Locks try the built-in names first, and the resolver looks among
the declarations first, which makes no difference, as no declared name is a built-in one.  Names of
both sorts have no dot in them, so that a dotted name that finds no declaration of its target finds
nothing later on. -/

set_option autoImplicit false

namespace WorldLocks

namespace Text

theorem eq_dot_of_toLower {c : Char} (dot : c.toLower = '.') : c = '.' := by
  unfold Char.toLower at dot
  split at dot
  · have value := congrArg Char.val dot
    grind
  · exact dot

theorem dot_mem_of_same {first second : Text} (same : sameIgnoringCase first second = true)
    (dotted : '.' ∈ second) : '.' ∈ first := by
  have lower : '.' ∈ second.map Char.toLower := List.mem_map.mpr ⟨'.', dotted, rfl⟩
  rw [← sameIgnoringCase_iff.mp same] at lower
  obtain ⟨c, member, dot⟩ := List.mem_map.mp lower
  exact eq_dot_of_toLower dot ▸ member

end Text

theorem Builtin.dot_not_mem_title (builtin : Builtin) : '.' ∉ builtin.title := by
  cases builtin <;> decide

theorem AttrDef.builtin?_of_dot {name : Text} (dotted : '.' ∈ name) :
    AttrDef.builtin? name = none := by
  rw [builtin?, Option.map_eq_none_iff, Builtin.ofName?_eq_none]
  intro builtin
  refine Bool.eq_false_iff.mpr fun same => ?_
  exact builtin.dot_not_mem_title (Text.dot_mem_of_same same dotted)

namespace World

variable {world : World} {object : Dbref} {name : Text}

theorem exists_label_of_definedOn? {definition : AttrDef}
    (declared : world.definedOn? object name = some definition) :
    definition.label ∈ world.labelsOf object ∧
      Text.sameIgnoringCase definition.name name = true := by
  have member := List.mem_of_find?_eq_some declared
  have same := List.find?_some declared
  exact ⟨map_localDefs_label world object ▸ List.mem_map_of_mem member, same⟩

namespace WellNamed

theorem findDef?_of_dot (named : world.WellNamed) (object : Dbref) (dotted : '.' ∈ name) :
    world.findDef? object name = none := by
  rw [Option.eq_none_iff_forall_ne_some]
  intro definition found
  obtain ⟨definer, declared⟩ := exists_of_findDef? found
  obtain ⟨member, same⟩ := exists_label_of_definedOn? declared
  obtain ⟨-, allowed⟩ := AttrDef.isLegalName_iff.mp (named.sound definer _ member).legal
  exact allowed '.' (Text.dot_mem_of_same same dotted) (by simp)

/-- A name that an object can read is no built-in one. -/
theorem builtin?_of_findDef? (named : world.WellNamed) {definition : AttrDef}
    (found : world.findDef? object name = some definition) : AttrDef.builtin? name = none := by
  obtain ⟨definer, declared⟩ := exists_of_findDef? found
  obtain ⟨member, same⟩ := exists_label_of_definedOn? declared
  have foreign := Builtin.ofName?_eq_none.mp (named.sound definer _ member).foreign
  rw [AttrDef.builtin?, Option.map_eq_none_iff, Builtin.ofName?_eq_none]
  intro builtin
  refine Bool.eq_false_iff.mpr fun own => Bool.false_ne_true ((foreign builtin).symm.trans ?_)
  rw [Text.sameIgnoringCase_iff] at own same ⊢
  exact own.trans same.symm

/-- Without a context, an object that exists reads what it can read, else a built-in attribute. -/
theorem plainAttr?_nothing (named : world.WellNamed) (valid : world.isValid object = true)
    (name : Text) : world.plainAttr? object .nothing name =
      (AttrDef.builtin? name).or (world.findDef? object name) := by
  have anything : ∀ ancestor, world.isA .nothing ancestor = true := fun _ => rfl
  have nowhere : world.isValid .nothing = false := rfl
  rw [plainAttr?, if_pos valid, nowhere]
  cases found : world.findDef? object name with
  | none => simp
  | some definition =>
      rw [named.builtin?_of_findDef? found]
      simp [anything]

/-- A dotted name means nothing as it stands. -/
theorem plainAttr?_of_dot (named : world.WellNamed) (actor context : Dbref) (dotted : '.' ∈ name) :
    world.plainAttr? actor context name = none := by
  rw [plainAttr?, named.findDef?_of_dot actor dotted, named.findDef?_of_dot context dotted,
    AttrDef.builtin?_of_dot dotted]
  simp

theorem resolveAttr?_dotted (named : world.WellNamed) (matcher : Matcher)
    (actor context : Dbref) {target : Text} (undotted : '.' ∉ target) (nonempty : target ≠ [])
    (attr : Text) : world.resolveAttr? matcher actor context (target ++ '.' :: attr) =
      world.dottedAttr? matcher actor target attr := by
  have dotted : '.' ∈ target ++ '.' :: attr := by simp
  rw [resolveAttr?, Text.splitOnce_append undotted, named.plainAttr?_of_dot actor context dotted]
  cases target with
  | nil => exact absurd rfl nonempty
  | cons c rest => exact Option.or_none

end WellNamed

theorem dottedAttr?_of_found {matcher : Matcher} {actor : Dbref} {target : Text}
    (found : matcher actor target = .ok (.found object)) (attr : Text) :
    world.dottedAttr? matcher actor target attr = world.definedOn? object attr := by
  rw [dottedAttr?, found]
  rfl

theorem dottedAttr?_of_not_found {matcher : Matcher} {actor : Dbref} {target : Text}
    (missing : ∀ object, matcher actor target ≠ .ok (.found object)) (attr : Text) :
    world.dottedAttr? matcher actor target attr = none := by
  rw [dottedAttr?]
  cases outcome : matcher actor target with
  | error error => rfl
  | ok result =>
      cases result with
      | found object => exact absurd outcome (missing object)
      | notFound => rfl
      | ambiguous candidates => rfl

/-- In a reachable world a lock means by a name what the resolver, without a context, means by it
for an object that exists.  A dotted name with a target means what the target declares itself, for
every actor and in every context, and nothing if there is no such target or declaration. -/
theorem Reachable.attrFor_eq_resolveAttr {allowed : Operation → Prop}
    (reachable : Reachable allowed world) :
    (∀ (ev : Evaluator) subject name, ev.world = world → world.isValid subject = true →
        ev.attrFor? subject name = world.resolveAttr? ev.matcher subject .nothing name) ∧
      ∀ (matcher : Matcher) actor context target attr, '.' ∉ target → target ≠ [] →
        (∀ object, matcher actor target = .ok (.found object) →
          world.resolveAttr? matcher actor context (target ++ '.' :: attr) =
            world.definedOn? object attr) ∧
        ((∀ object, matcher actor target ≠ .ok (.found object)) →
          world.resolveAttr? matcher actor context (target ++ '.' :: attr) = none) := by
  have named := reachable.wellNamed
  constructor
  · rintro ev subject name rfl valid
    rw [Evaluator.attrFor?]
    split
    · rfl
    · next plain =>
      have whole : Text.splitOnce '.' name = none :=
        Text.splitOnce_of_not_mem (by simpa using plain)
      rw [resolveAttr?, whole, named.plainAttr?_nothing valid]
  · intro matcher actor context target attr undotted nonempty
    rw [named.resolveAttr?_dotted matcher actor context undotted nonempty]
    exact ⟨fun object found => dottedAttr?_of_found found attr, fun missing =>
      dottedAttr?_of_not_found missing attr⟩

/-- A bag inherits from a box, which declares a word.  The word of the bag is found, but not behind
the name of the bag, which does not declare it itself. -/
theorem attrFor_eq_resolveAttr_bag :
    let word : AttrDef := ⟨.declared 0, "Word".toList, .empty, ⟨2⟩⟩
    ∃ world : World, Reachable (fun _ => True) world ∧
      world.resolveAttr? world.matcher ⟨3⟩ .nothing "word".toList = some word ∧
      (Evaluator.ofWorld world passthrough {}).attrFor? ⟨3⟩ "word".toList = some word ∧
      world.resolveAttr? world.matcher .root ⟨3⟩ "box.word".toList = some word ∧
      world.resolveAttr? world.matcher .root ⟨3⟩ "bag.word".toList = none ∧
      world.resolveAttr? world.matcher .root ⟨3⟩ "rug.word".toList = none := by
  intro word
  let history : List Operation :=
    [.create "Hall".toList .room .nothing .nothing,
      .create "Alice".toList .player .nothing .system,
      .create "Box".toList .thing .root .system,
      .create "Bag".toList .thing .root .system,
      .addParent ⟨3⟩ ⟨2⟩,
      .declareAttr ⟨2⟩ word.name word.flags]
  have reachable : Reachable (fun _ => True) (Operation.performAll (.new {} 0) history) :=
    ⟨_, .empty {} 0, Leads.refl.performAll fun _ _ => trivial⟩
  generalize reached : Operation.performAll (.new {} 0) history = world at reachable
  obtain ⟨agrees, dotted⟩ := reachable.attrFor_eq_resolveAttr
  obtain ⟨resolved, valid, box, bag, rug, onBox, onBag⟩ :
      world.resolveAttr? world.matcher ⟨3⟩ .nothing "word".toList = some word ∧
        world.isValid ⟨3⟩ = true ∧
        world.matcher .root "box".toList = .ok (.found ⟨2⟩) ∧
        world.matcher .root "bag".toList = .ok (.found ⟨3⟩) ∧
        world.matcher .root "rug".toList = .ok .notFound ∧
        world.definedOn? ⟨2⟩ "word".toList = some word ∧
        world.definedOn? ⟨3⟩ "word".toList = none := by
    subst reached
    decide +kernel
  refine ⟨world, reachable, resolved, ?plain, ?box, ?bag, ?rug⟩
  case plain => exact (agrees (.ofWorld world passthrough {}) ⟨3⟩ _ rfl valid).trans resolved
  case box =>
    obtain ⟨declares, -⟩ := dotted world.matcher .root ⟨3⟩ "box".toList "word".toList (by decide)
      (by decide)
    exact (declares ⟨2⟩ box).trans onBox
  case bag =>
    obtain ⟨declares, -⟩ := dotted world.matcher .root ⟨3⟩ "bag".toList "word".toList (by decide)
      (by decide)
    exact (declares ⟨3⟩ bag).trans onBag
  case rug =>
    obtain ⟨-, nothing⟩ := dotted world.matcher .root ⟨3⟩ "rug".toList "word".toList (by decide)
      (by decide)
    exact nothing fun object found => by simp only [rug, reduceCtorEq, Except.ok.injEq] at found

end World
end WorldLocks
