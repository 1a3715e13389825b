import WorldLocks.Proofs.Numbers
import WorldLocks.Proofs.Results
import WorldLocks.Proofs.Table
import WorldLocks.World.Naming

/-! Name matching finds only objects that exist, and finds every object that exists by its literal,
as long as its number can be written. -/

set_option autoImplicit false

namespace WorldLocks

/-! ## Candidates -/

namespace Candidates

def All (holds : Dbref → Prop) (candidates : Candidates) : Prop :=
  (∀ object ∈ candidates.exact, holds object) ∧ ∀ object ∈ candidates.partly, holds object

variable {holds : Dbref → Prop} {candidates : Candidates}

theorem mem_enlist {objects : List Dbref} {object other : Dbref}
    (member : other ∈ enlist objects object) : other ∈ objects ∨ other = object := by
  unfold enlist at member
  split at member
  · exact .inl member
  · simpa using member

theorem All.weigh (all : candidates.All holds) {object : Dbref} (here : holds object)
    (wanted name : Text) : (Candidates.weigh wanted object candidates name).All holds := by
  obtain ⟨exact, partly⟩ := all
  unfold Candidates.weigh
  dsimp only
  split
  · exact ⟨exact, partly⟩
  · split
    · refine ⟨fun other member => ?_, partly⟩
      rcases mem_enlist member with old | rfl
      · exact exact other old
      · exact here
    · refine ⟨exact, fun other member => ?_⟩
      rcases mem_enlist member with old | rfl
      · exact partly other old
      · exact here

theorem All.weighAll (all : candidates.All holds) {object : Dbref} (here : holds object)
    (wanted : Text) (names : List Text) :
    (names.foldl (Candidates.weigh wanted object) candidates).All holds := by
  induction names generalizing candidates with
  | nil => exact all
  | cons name names ih => exact ih (all.weigh here wanted name)

theorem All.found (all : candidates.All holds) {object : Dbref}
    (found : candidates.result = .found object) : holds object := by
  unfold result at found
  dsimp only at found
  split at found
  · cases found
  · next single best =>
    obtain rfl := MatchResult.found.inj found
    have member : single ∈ if candidates.exact.isEmpty then candidates.partly
        else candidates.exact := by
      rw [best]
      exact List.mem_singleton_self single
    split at member
    · exact all.2 single member
    · exact all.1 single member
  · cases found

end Candidates

/-! ## Environments -/

namespace MatchEnvironment

variable {env : MatchEnvironment} {actor object : Dbref} {name : Text}

theorem isValid_of_matchNearby (found : env.matchNearby actor name = .ok (.found object)) :
    env.isValid object := by
  unfold matchNearby at found
  dsimp only at found
  obtain ⟨nearby, -, found⟩ := bind_eq_ok.mp found
  obtain ⟨candidates, weighed, found⟩ := bind_eq_ok.mp found
  have all : candidates.All fun object => env.isValid object = true := by
    refine foldlM_invariant (Candidates.All fun object => env.isValid object = true)
      (fun before item member after all step => ?_) ⟨by simp, by simp⟩ weighed
    obtain ⟨names, -, done⟩ := bind_eq_ok.mp step
    obtain rfl := Except.ok.inj done
    exact all.weighAll (List.mem_filter.mp member).2 _ names
  exact all.found (Except.ok.inj found)

theorem isValid_of_matchExisting {target : Dbref} (found : env.matchExisting target = .found object) :
    env.isValid object := by
  unfold matchExisting at found
  split at found
  · next valid =>
    obtain rfl := MatchResult.found.inj found
    exact valid
  · cases found

theorem isValid_of_found (players : ∀ name player, env.findPlayer name = some player →
    env.isValid player) (found : env.matchObject actor name = .ok (.found object)) :
    env.isValid object := by
  have player : ∀ name, env.matchPlayer name = .found object → env.isValid object := by
    intro name found
    unfold matchPlayer at found
    split at found
    · next player named =>
      obtain rfl := MatchResult.found.inj found
      exact players name player named
    · cases found
  unfold matchObject at found
  dsimp only at found
  split at found
  · cases Except.ok.inj found
  · split at found
    · exact isValid_of_matchExisting (Except.ok.inj found)
    · unfold matchWord at found
      split at found
      · exact player _ (Except.ok.inj found)
      · split at found
        · cases Except.ok.inj found
        · next actorValid =>
          split at found
          · obtain rfl := MatchResult.found.inj (Except.ok.inj found)
            simpa using actorValid
          · split at found
            · obtain ⟨location, -, there⟩ := map_eq_ok.mp found
              exact isValid_of_matchExisting there
            · obtain ⟨result, nearby, found⟩ := bind_eq_ok.mp found
              split at found
              · exact player _ (Except.ok.inj found)
              · obtain rfl := Except.ok.inj found
                exact isValid_of_matchNearby nearby

end MatchEnvironment

/-! ## Worlds -/

namespace World

variable {world : World}

theorem isValid_iff {object : Dbref} :
    world.isValid object ↔ ∃ record, world.record? object = some record :=
  Option.isSome_iff_exists

theorem isValid_of_matcher {actor object : Dbref} {name : Text}
    (found : world.matcher actor name = .ok (.found object)) : world.isValid object := by
  refine MatchEnvironment.isValid_of_found (fun name player named => ?_) found
  have listed := List.mem_of_find?_eq_some named
  exact (List.mem_filter.mp listed).2

theorem exists_index_of_isValid {object : Dbref} (valid : world.isValid object) :
    ∃ index, object = .ofIndex index ∧ index < world.objects.length := by
  obtain ⟨record, living⟩ := isValid_iff.mp valid
  obtain ⟨index, rfl, present⟩ := slot?_eq_some.mp (record?_eq_some.mp living).1
  exact ⟨index, rfl, (List.getElem?_eq_some_iff.mp present).1⟩

/-- The literal of an object that exists finds it. -/
theorem matcher_literal {object : Dbref} (fits : world.Fits)
    (valid : world.isValid object) (actor : Dbref) :
    world.matcher actor object.literal = .ok (.found object) := by
  obtain ⟨index, rfl, within⟩ := exists_index_of_isValid valid
  have read := Dbref.read?_literal (fits.le_maxNumber within)
  have environment : world.environment.isValid (.ofIndex index) = true := valid
  unfold matcher MatchEnvironment.matchObject
  simp only [Dbref.trim_literal, read, MatchEnvironment.matchExisting, environment, if_true]
  rfl

end World
end WorldLocks
