import Mathlib.Data.List.Forall2
import Mathlib.Data.List.Nodup
import WorldLocks.Proofs.Matching
import WorldLocks.Proofs.Reachable

/-! Names of things nearby.  A name that is no literal and no word of its own means an object nearby
that has exactly this name, else one with a longer name, else a player.  Several objects of the
better sort are all told, each once.  That depends only on what is nearby and on how it is called,
so the order in which things lie there makes no difference. -/

set_option autoImplicit false

namespace WorldLocks

/-- Whether a name is looked for nearby: it is no literal, does not ask for a player, and is none of
the words for the actor and its location. -/
structure IsNearbyName (name : Text) : Prop where
  notEmpty : Text.trim name ≠ []
  noLiteral : Dbref.read? (Text.trim name) = none
  noStar : (Text.trim name).head? ≠ some '*'
  notMe : Text.sameIgnoringCase (Text.trim name) "me".toList = false
  notHere : Text.sameIgnoringCase (Text.trim name) "here".toList = false

/-- Whether an answer settles which objects satisfy a condition: it is the only one that does, or
all of several, each once. -/
structure Settles (answer : Except WorldError MatchResult) (holds : Dbref → Prop) : Prop where
  one : ∀ object, (∀ other, holds other ↔ other = object) → answer = .ok (.found object)
  several : ∀ first second, first ≠ second → holds first → holds second →
    ∃ objects, answer = .ok (.ambiguous objects) ∧ objects.Nodup ∧
      ∀ object, object ∈ objects ↔ holds object

/-- Whether two results are the same but for the order of the candidates. -/
def MatchResult.Alike : MatchResult → MatchResult → Prop
  | ambiguous first, ambiguous second => first.Perm second
  | first, second => first = second

/-- Whether a wanted name only starts a longer one. -/
def Text.Abbreviates (wanted name : Text) : Prop := wanted <+: name ∧ name ≠ wanted

/-- Whether an object has a name that is as it should be when it is in lowercase and without the
blanks around it. -/
def MatchEnvironment.HasName (env : MatchEnvironment) (object : Dbref) (fits : Text → Prop) :
    Prop :=
  ∃ names, env.names object = .ok names ∧ ∃ name ∈ names, fits (Text.lowercase (Text.trim name))

/-! ## Candidates -/

namespace Candidates

variable {candidates : Candidates} {exact partly : Dbref → Prop}

/-- Whether the candidates are the objects that satisfy two conditions, each once. -/
structure Lists (exact partly : Dbref → Prop) (candidates : Candidates) : Prop where
  nodup_exact : candidates.exact.Nodup
  nodup_partly : candidates.partly.Nodup
  mem_exact : ∀ object, object ∈ candidates.exact ↔ exact object
  mem_partly : ∀ object, object ∈ candidates.partly ↔ partly object

theorem mem_enlist_iff {objects : List Dbref} {object other : Dbref} :
    other ∈ enlist objects object ↔ other ∈ objects ∨ other = object := by
  constructor
  · exact mem_enlist
  · intro member
    unfold enlist
    split
    · next listed =>
      cases member with
      | inl old => exact old
      | inr here => simpa [here] using listed
    · simpa using member

theorem nodup_enlist {objects : List Dbref} (nodup : objects.Nodup) (object : Dbref) :
    (enlist objects object).Nodup := by
  unfold enlist
  split
  · exact nodup
  · next unlisted =>
    have new : object ∉ objects := by simpa using unlisted
    exact List.nodup_append.mpr ⟨nodup, List.nodup_singleton object, by grind⟩

theorem Lists.congr {exact' partly' : Dbref → Prop} (lists : candidates.Lists exact partly)
    (sameExact : ∀ object, exact object ↔ exact' object)
    (samePartly : ∀ object, partly object ↔ partly' object) : candidates.Lists exact' partly' where
  nodup_exact := lists.nodup_exact
  nodup_partly := lists.nodup_partly
  mem_exact object := (lists.mem_exact object).trans (sameExact object)
  mem_partly object := (lists.mem_partly object).trans (samePartly object)

/-- A name adds its object to the candidates that it is good for. -/
theorem Lists.weigh (lists : candidates.Lists exact partly) (wanted : Text) (object : Dbref)
    (name : Text) : (Candidates.weigh wanted object candidates name).Lists
      (fun other => exact other ∨ other = object ∧ Text.lowercase (Text.trim name) = wanted)
      (fun other => partly other ∨
        other = object ∧ wanted.Abbreviates (Text.lowercase (Text.trim name))) := by
  unfold Candidates.weigh
  dsimp only
  generalize Text.lowercase (Text.trim name) = own
  unfold Text.Abbreviates
  split
  · next off =>
    have other : ¬ wanted <+: own := by simpa [← List.isPrefixOf_iff_prefix] using off
    have different : own ≠ wanted := by
      intro same
      exact other (same ▸ List.prefix_rfl)
    apply lists.congr <;> simp [other, different]
  · next starts =>
    have starts : wanted <+: own := by simpa [← List.isPrefixOf_iff_prefix] using starts
    split
    · next same =>
      refine ⟨nodup_enlist lists.nodup_exact object, lists.nodup_partly, ?_, ?_⟩
      · intro other
        simp [mem_enlist_iff, lists.mem_exact, same]
      · intro other
        simp [lists.mem_partly, same]
    · next different =>
      refine ⟨lists.nodup_exact, nodup_enlist lists.nodup_partly object, ?_, ?_⟩
      · intro other
        simp [lists.mem_exact, different]
      · intro other
        simp [mem_enlist_iff, lists.mem_partly, starts, different]

theorem Lists.weighAll (lists : candidates.Lists exact partly) (wanted : Text) (object : Dbref)
    (names : List Text) : (names.foldl (Candidates.weigh wanted object) candidates).Lists
      (fun other => exact other ∨
        other = object ∧ ∃ name ∈ names, Text.lowercase (Text.trim name) = wanted)
      (fun other => partly other ∨
        other = object ∧ ∃ name ∈ names, wanted.Abbreviates (Text.lowercase (Text.trim name))) := by
  induction names generalizing candidates exact partly with
  | nil => apply lists.congr <;> simp
  | cons name names ih =>
      apply (ih (lists.weigh wanted object name)).congr <;>
        · intro other
          simp only [List.exists_mem_cons_iff]
          tauto

/-- Exact candidates count as if there were no others. -/
theorem result_of_exact (some : candidates.exact ≠ []) :
    candidates.result = result ⟨[], candidates.exact⟩ := by
  obtain ⟨exact, partly⟩ := candidates
  cases exact with
  | nil => exact absurd rfl some
  | cons first others => rfl

theorem result_of_no_exact (none : candidates.exact = []) :
    candidates.result = result ⟨[], candidates.partly⟩ := by
  unfold result
  rw [none]

theorem settles_result {objects : List Dbref} {holds : Dbref → Prop} (nodup : objects.Nodup)
    (members : ∀ object, object ∈ objects ↔ holds object) :
    Settles (.ok (result ⟨[], objects⟩)) holds where
  one := by
    intro object only
    have single : objects.Perm [object] := by
      rw [List.perm_ext_iff_of_nodup nodup (List.nodup_singleton object)]
      intro other
      rw [members, only, List.mem_singleton]
    rw [List.perm_singleton.mp single]
    rfl
  several := by
    intro first second apart holdsFirst holdsSecond
    rw [← members] at holdsFirst holdsSecond
    match objects with
    | [] => cases holdsFirst
    | [object] =>
        rw [List.mem_singleton] at holdsFirst holdsSecond
        exact absurd (holdsFirst.trans holdsSecond.symm) apart
    | one :: two :: others => exact ⟨_, rfl, nodup, members⟩

end Candidates

namespace Settles

variable {answer : Except WorldError MatchResult} {holds : Dbref → Prop}

theorem of_none (none : ∀ object, ¬ holds object) : Settles answer holds where
  one object only := absurd ((only object).mpr rfl) (none object)
  several first _ _ holdsFirst := absurd holdsFirst (none first)

/-- A result that is replaced only if nothing was found settles the same. -/
theorem orElse {result : MatchResult} (settles : Settles (.ok result) holds)
    (found : result ≠ .notFound → answer = .ok result) : Settles answer holds where
  one := by
    intro object only
    have result := Except.ok.inj (settles.one object only)
    rw [found (by simp [result]), result]
  several := by
    intro first second apart holdsFirst holdsSecond
    obtain ⟨objects, result, nodup, members⟩ :=
      settles.several first second apart holdsFirst holdsSecond
    have result := Except.ok.inj result
    exact ⟨objects, by rw [found (by simp [result]), result], nodup, members⟩

/-- Answers that settle the same are alike. -/
theorem exists_alike {other : Except WorldError MatchResult} (first : Settles answer holds)
    (second : Settles other holds) (some : ∃ object, holds object) :
    ∃ one two, answer = .ok one ∧ other = .ok two ∧ one.Alike two := by
  obtain ⟨object, here⟩ := some
  by_cases only : ∀ other, holds other → other = object
  · have single (other : Dbref) : holds other ↔ other = object :=
      ⟨only other, fun same => same ▸ here⟩
    exact ⟨_, _, first.one object single, second.one object single, rfl⟩
  · push Not at only
    obtain ⟨further, there, apart⟩ := only
    obtain ⟨objects, one, nodup, members⟩ := first.several further object apart there here
    obtain ⟨others, two, nodup', members'⟩ := second.several further object apart there here
    refine ⟨_, _, one, two, ?_⟩
    apply (List.perm_ext_iff_of_nodup nodup nodup').mpr
    intro other
    rw [members, members']

end Settles

/-! ## Environments -/

namespace MatchEnvironment

variable {env : MatchEnvironment} {actor : Dbref} {name : Text}

/-- Objects that have names are weighed without an error, and all that fit are listed. -/
theorem exists_foldlM_lists (wanted : Text)
    (step : Candidates → Dbref → Except WorldError Candidates)
    (steps : ∀ candidates object names, env.names object = .ok names →
      step candidates object = .ok (names.foldl (Candidates.weigh wanted object) candidates))
    {objects : List Dbref} (named : ∀ object ∈ objects, ∃ names, env.names object = .ok names)
    {candidates : Candidates} {exact partly : Dbref → Prop}
    (lists : candidates.Lists exact partly) :
    ∃ last, objects.foldlM step candidates = .ok last ∧ last.Lists
      (fun object => exact object ∨ object ∈ objects ∧ env.HasName object (· = wanted))
      (fun object => partly object ∨ object ∈ objects ∧ env.HasName object wanted.Abbreviates) := by
  induction objects generalizing candidates exact partly with
  | nil => exact ⟨candidates, rfl, by apply lists.congr <;> simp⟩
  | cons object objects ih =>
      obtain ⟨names, here⟩ := named object List.mem_cons_self
      have later := fun other member => named other (List.mem_cons_of_mem object member)
      obtain ⟨last, run, listed⟩ := ih later (lists.weighAll wanted object names)
      have own (other : Dbref) (fits : Text → Prop) :
          other = object ∧ (∃ name ∈ names, fits (Text.lowercase (Text.trim name))) ↔
            other = object ∧ env.HasName other fits := by
        constructor
        · intro ⟨same, name, member, suits⟩
          exact ⟨same, names, same ▸ here, name, member, suits⟩
        · intro ⟨same, names', there, name, member, suits⟩
          rw [same, here] at there
          cases there
          exact ⟨same, name, member, suits⟩
      refine ⟨last, ?_, ?_⟩
      · rw [List.foldlM_cons, steps candidates object names here]
        exact run
      · apply listed.congr
        · intro other
          rw [own other (· = wanted), List.mem_cons]
          tauto
        · intro other
          rw [own other wanted.Abbreviates, List.mem_cons]
          tauto

theorem exists_matchNearby {around : List Dbref} (near : env.surroundings actor = .ok around)
    (named : ∀ object ∈ around.filter env.isValid, ∃ names, env.names object = .ok names) :
    ∃ candidates : Candidates, env.matchNearby actor name = .ok candidates.result ∧ candidates.Lists
      (fun object => object ∈ around.filter env.isValid ∧
        env.HasName object (· = Text.lowercase name))
      (fun object => object ∈ around.filter env.isValid ∧
        env.HasName object (Text.lowercase name).Abbreviates) := by
  have empty : Candidates.Lists (fun _ => False) (fun _ => False) ⟨[], []⟩ := by
    constructor <;> simp
  obtain ⟨candidates, run, lists⟩ := exists_foldlM_lists (Text.lowercase name)
    (fun candidates object => do
      let names ← env.names object
      pure (names.foldl (Candidates.weigh (Text.lowercase name) object) candidates))
    (fun candidates object names here => by rw [here]; rfl) named empty
  refine ⟨candidates, bind_eq_ok.mpr ⟨around, near, bind_eq_ok.mpr ⟨candidates, run, rfl⟩⟩, ?_⟩
  apply lists.congr <;> simp

/-- A name for something nearby is looked for there first, and then among the players. -/
theorem matchObject_of_isNearbyName (plain : IsNearbyName name) (valid : env.isValid actor = true) :
    env.matchObject actor name = (env.matchNearby actor (Text.trim name)).map fun result =>
      if result = .notFound then env.matchPlayer (Text.trim name) else result := by
  obtain ⟨notEmpty, noLiteral, noStar, notMe, notHere⟩ := plain
  have some : (Text.trim name).isEmpty = false := by simpa using notEmpty
  unfold matchObject
  simp only [some, noLiteral, Bool.false_eq_true, if_false]
  generalize Text.trim name = text at *
  unfold matchWord
  split
  · exact absurd rfl noStar
  · rw [valid, notMe, notHere]
    cases env.matchNearby actor text with
    | error error => rfl
    | ok result => cases result <;> rfl

end MatchEnvironment

/-! ## Worlds -/

/-- Whether two records are the same but for the order of what is inside. -/
structure ObjectRecord.Reordered (before after : ObjectRecord) : Prop where
  contents : before.contents.Perm after.contents
  exits : before.exits.Perm after.exits
  rest : { before with contents := after.contents, exits := after.exits } = after

theorem ObjectRecord.Reordered.symm {before after : ObjectRecord} (same : before.Reordered after) :
    after.Reordered before where
  contents := same.contents.symm
  exits := same.exits.symm
  rest := by rw [← same.rest]

namespace World

variable {world before after : World} {actor object : Dbref} {name : Text}

/-- Whether an object exists and is an exit or something else in an actor's location, if that
exists, or something the actor has. -/
def Nearby (world : World) (actor object : Dbref) : Prop :=
  world.isValid object = true ∧ ∃ self, world.record? actor = some self ∧
    (object ∈ self.contents ∨ ∃ place, world.record? self.location = some place ∧
      (object ∈ place.exits ∨ object ∈ place.contents ∧ object ≠ actor))

/-- Whether an object nearby has just the name that an actor says. -/
def IsNamed (world : World) (actor : Dbref) (name : Text) (object : Dbref) : Prop :=
  world.Nearby actor object ∧
    world.environment.HasName object (· = Text.lowercase (Text.trim name))

/-- Whether an object nearby has a longer name that starts with the one that an actor says. -/
def IsNamedPartly (world : World) (actor : Dbref) (name : Text) (object : Dbref) : Prop :=
  world.Nearby actor object ∧
    world.environment.HasName object (Text.lowercase (Text.trim name)).Abbreviates

/-- What a name means among the objects nearby. -/
structure FindsNearby (world : World) (actor : Dbref) (name : Text) : Prop where
  exact : Settles (world.matcher actor name) (world.IsNamed actor name)
  partly : (∀ object, ¬ world.IsNamed actor name object) →
    Settles (world.matcher actor name) (world.IsNamedPartly actor name)
  player : (∀ object, ¬ world.IsNamed actor name object) →
    (∀ object, ¬ world.IsNamedPartly actor name object) →
      world.matcher actor name = .ok (world.environment.matchPlayer (Text.trim name))
  answers : ∃ result, world.matcher actor name = .ok result
  sound : ∀ object, world.matcher actor name = .ok (.found object) → world.isValid object = true

theorem mem_surroundings {self : ObjectRecord} (found : world.record? actor = some self) :
    ∃ around, world.surroundings actor = .ok around ∧
      ∀ object, object ∈ around.filter world.isValid ↔ world.Nearby actor object := by
  unfold surroundings
  rw [found]
  refine ⟨_, rfl, ?_⟩
  intro object
  unfold Nearby
  rw [List.mem_filter, found]
  cases there : world.record? self.location with
  | none => simp [there, and_comm]
  | some place =>
      simp [there]
      tauto

theorem exists_candidates (plain : IsNearbyName name) (valid : world.isValid actor = true) :
    ∃ candidates : Candidates,
      candidates.Lists (world.IsNamed actor name) (world.IsNamedPartly actor name) ∧
        world.matcher actor name = .ok (if candidates.result = .notFound
          then world.environment.matchPlayer (Text.trim name) else candidates.result) := by
  obtain ⟨self, found⟩ := isValid_iff.mp valid
  obtain ⟨around, near, members⟩ := mem_surroundings found
  have named : ∀ object ∈ around.filter world.isValid, ∃ names,
      world.environment.names object = .ok names := by
    intro object member
    obtain ⟨record, living⟩ := isValid_iff.mp (List.mem_filter.mp member).2
    exact ⟨recordNames record, by simp [environment, namesOf, living]⟩
  obtain ⟨candidates, nearby, lists⟩ := MatchEnvironment.exists_matchNearby
    (show world.environment.surroundings actor = .ok around from near) named
  refine ⟨candidates, ?_, ?_⟩
  · apply lists.congr
    · intro object
      exact and_congr_left' (members object)
    · intro object
      exact and_congr_left' (members object)
  · rw [matcher, MatchEnvironment.matchObject_of_isNearbyName plain valid, nearby]
    rfl

/-- In every world, whatever lies around. -/
theorem findsNearby (plain : IsNearbyName name) (valid : world.isValid actor = true) :
    world.FindsNearby actor name := by
  obtain ⟨candidates, lists, answer⟩ := exists_candidates plain valid
  have settled {holds : Dbref → Prop} (settles : Settles (.ok candidates.result) holds) :
      Settles (world.matcher actor name) holds := by
    apply settles.orElse
    intro found
    rw [answer, if_neg found]
  have noExact (none : ∀ object, ¬ world.IsNamed actor name object) : candidates.exact = [] := by
    apply List.eq_nil_iff_forall_not_mem.mpr
    intro object
    rw [lists.mem_exact]
    exact none object
  refine ⟨?_, ?_, ?_, ⟨_, answer⟩, fun object => isValid_of_matcher⟩
  · by_cases none : candidates.exact = []
    · apply Settles.of_none
      intro object
      rw [← lists.mem_exact, none]
      exact List.not_mem_nil
    · apply settled
      rw [Candidates.result_of_exact none]
      exact Candidates.settles_result lists.nodup_exact lists.mem_exact
  · intro none
    apply settled
    rw [Candidates.result_of_no_exact (noExact none)]
    exact Candidates.settles_result lists.nodup_partly lists.mem_partly
  · intro none noPartly
    have nothing : candidates.partly = [] := by
      apply List.eq_nil_iff_forall_not_mem.mpr
      intro object
      rw [lists.mem_partly]
      exact noPartly object
    have missed : candidates.result = .notFound := by
      rw [Candidates.result_of_no_exact (noExact none), nothing]
      rfl
    rw [answer, if_pos missed]

/-! ## Order -/

/-- Whether the tables of two worlds are the same but for the order of what is inside each object.
What a world has besides its table has no part in names. -/
def Reordered (before after : World) : Prop :=
  List.Forall₂ ObjectRecord.Reordered before.objects after.objects

namespace Reordered

theorem symm (same : before.Reordered after) : after.Reordered before :=
  List.Forall₂.flip (same.imp fun _ _ records => records.symm)

theorem slot? (same : before.Reordered after) {record : ObjectRecord}
    (found : before.slot? object = some record) :
    ∃ other, after.slot? object = some other ∧ record.Reordered other := by
  obtain ⟨index, rfl, present⟩ := slot?_eq_some.mp found
  obtain ⟨within, rfl⟩ := List.getElem?_eq_some_iff.mp present
  obtain ⟨lengths, records⟩ := List.forall₂_iff_get.mp same
  have there : index < after.objects.length := lengths ▸ within
  refine ⟨after.objects[index], ?_, records index within there⟩
  rw [slot?_ofIndex, List.getElem?_eq_getElem there]

theorem record? (same : before.Reordered after) {record : ObjectRecord}
    (found : before.record? object = some record) :
    ∃ other, after.record? object = some other ∧ record.Reordered other := by
  obtain ⟨slot, living⟩ := record?_eq_some.mp found
  obtain ⟨other, there, records⟩ := same.slot? slot
  refine ⟨other, record?_eq_some.mpr ⟨there, ?_⟩, records⟩
  rw [← records.rest]
  exact living

theorem isValid_of (same : before.Reordered after) (valid : before.isValid object = true) :
    after.isValid object = true := by
  obtain ⟨record, found⟩ := isValid_iff.mp valid
  obtain ⟨other, there, -⟩ := same.record? found
  exact isValid_iff.mpr ⟨other, there⟩

theorem isValid_eq (same : before.Reordered after) : after.isValid = before.isValid := by
  funext object
  rw [Bool.eq_iff_iff]
  exact ⟨same.symm.isValid_of, same.isValid_of⟩

theorem nearby_of (same : before.Reordered after) (near : before.Nearby actor object) :
    after.Nearby actor object := by
  obtain ⟨valid, self, found, places⟩ := near
  obtain ⟨self', found', selves⟩ := same.record? found
  refine ⟨same.isValid_of valid, self', found', ?_⟩
  cases places with
  | inl carried => exact .inl (selves.contents.mem_iff.mp carried)
  | inr beside =>
      obtain ⟨place, there, lies⟩ := beside
      obtain ⟨place', there', places⟩ := same.record? there
      have location : self'.location = self.location := by rw [← selves.rest]
      rw [places.exits.mem_iff, places.contents.mem_iff] at lies
      exact .inr ⟨place', location ▸ there', lies⟩

theorem namesOf_of (same : before.Reordered after) {names : List Text}
    (called : before.namesOf object = .ok names) : after.namesOf object = .ok names := by
  unfold namesOf at called ⊢
  cases found : before.record? object with
  | none => simp [found] at called
  | some record =>
      obtain ⟨other, there, records⟩ := same.record? found
      rw [found] at called
      rw [there, ← called, ← records.rest]
      rfl

theorem named_of (same : before.Reordered after) {fits : Text → Prop}
    (named : before.Nearby actor object ∧ before.environment.HasName object fits) :
    after.Nearby actor object ∧ after.environment.HasName object fits := by
  obtain ⟨near, names, called, fitting⟩ := named
  exact ⟨same.nearby_of near, names, same.namesOf_of called, fitting⟩

theorem isNamed_eq (same : before.Reordered after) (actor : Dbref) (name : Text) :
    after.IsNamed actor name = before.IsNamed actor name := by
  funext object
  exact propext ⟨same.symm.named_of, same.named_of⟩

theorem isNamedPartly_eq (same : before.Reordered after) (actor : Dbref) (name : Text) :
    after.IsNamedPartly actor name = before.IsNamedPartly actor name := by
  funext object
  exact propext ⟨same.symm.named_of, same.named_of⟩

theorem findPlayer_eq (same : before.Reordered after) : after.findPlayer = before.findPlayer := by
  funext name
  have valid : after.validObjects = before.validObjects := by
    rw [validObjects, validObjects, slots, slots, same.isValid_eq, List.Forall₂.length_eq same]
  have named (object : Dbref) : (after.slot? object).any (isPlayerNamed name) =
      (before.slot? object).any (isPlayerNamed name) := by
    cases found : before.slot? object with
    | none =>
        have missing : after.slot? object = none := by
          rw [Option.eq_none_iff_forall_ne_some]
          intro other there
          obtain ⟨record, here, -⟩ := same.symm.slot? there
          simp [found] at here
        rw [missing]
    | some record =>
        obtain ⟨other, there, records⟩ := same.slot? found
        rw [there, ← records.rest]
        rfl
  simp only [findPlayer, valid, named]

theorem exists_alike (same : before.Reordered after) (here : before.FindsNearby actor name)
    (there : after.FindsNearby actor name) :
    ∃ one two, before.matcher actor name = .ok one ∧ after.matcher actor name = .ok two ∧
      one.Alike two := by
  obtain ⟨exact, partly, player, -, -⟩ := here
  obtain ⟨exact', partly', player', -, -⟩ := there
  rw [same.isNamed_eq] at exact' partly' player'
  rw [same.isNamedPartly_eq] at partly' player'
  by_cases named : ∃ object, before.IsNamed actor name object
  · exact exact.exists_alike exact' named
  · have none := not_exists.mp named
    by_cases namedPartly : ∃ object, before.IsNamedPartly actor name object
    · exact (partly none).exists_alike (partly' none) namedPartly
    · have nonePartly := not_exists.mp namedPartly
      have players : after.environment.matchPlayer (Text.trim name) =
          before.environment.matchPlayer (Text.trim name) := by
        unfold MatchEnvironment.matchPlayer environment
        rw [same.findPlayer_eq]
      refine ⟨_, _, player none nonePartly, player' none nonePartly, ?_⟩
      rw [players]
      unfold MatchEnvironment.matchPlayer
      split <;> rfl

end Reordered

/-- A name that is looked for nearby means what is called so there, in whatever order things lie. -/
theorem findsNearby_inAnyOrder (plain : IsNearbyName name) (valid : world.isValid actor = true) :
    world.FindsNearby actor name ∧ ∀ other, world.Reordered other →
      ∃ one two, world.matcher actor name = .ok one ∧ other.matcher actor name = .ok two ∧
        one.Alike two := by
  have here := findsNearby plain valid
  refine ⟨here, ?_⟩
  intro other same
  exact same.exists_alike here (findsNearby plain (same.isValid_of valid))

/-- A box in the hall and one that Alice has are both told, but not the boxer beside her. -/
theorem findsNearby_inAnyOrder_boxes :
    ∃ world : World, Reachable (fun _ => True) world ∧ IsNearbyName " Box".toList ∧
      world.isValid .root = true ∧ world.FindsNearby .root " Box".toList ∧
      (∀ other, world.Reordered other → ∃ one two, world.matcher .root " Box".toList = .ok one ∧
        other.matcher .root " Box".toList = .ok two ∧ one.Alike two) ∧
      world.matcher .root " Box".toList = .ok (.ambiguous [⟨2⟩, ⟨4⟩]) := by
  let history : List Operation :=
    [.create "Hall".toList .room .nothing .nothing,
      .create "Alice".toList .player .nothing .system,
      .create "box".toList .thing .root .system,
      .create "boxer".toList .thing .root .system,
      .create "BOX".toList .thing .root .root]
  have reachable : Reachable (fun _ => True) (Operation.performAll (.new {} 0) history) :=
    ⟨_, .empty {} 0, Leads.refl.performAll fun _ _ => trivial⟩
  have plain : IsNearbyName " Box".toList := by constructor <;> decide +kernel
  have valid : (Operation.performAll (.new {} 0) history).isValid .root = true := by decide +kernel
  obtain ⟨finds, inAnyOrder⟩ := findsNearby_inAnyOrder plain valid
  exact ⟨_, reachable, plain, valid, finds, inAnyOrder, by decide +kernel⟩

end World
end WorldLocks
