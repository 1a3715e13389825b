import WorldLocks.Proofs.Walks
import WorldLocks.World.Naming

/-! What a search along the parents answers is the answer of some object that it has come to. -/

set_option autoImplicit false

namespace WorldLocks

/-- The answer of a round of visits, each made only while there is no answer, comes from a visit. -/
theorem exists_of_foldl_visits {α : Type} {visit : Dbref → List Dbref → Option α × List Dbref}
    {objects : List Dbref} {start : Option α × List Dbref} {found : α}
    (finds : (objects.foldl (fun (found, seen) next =>
      if found.isSome then (found, seen) else visit next seen) start).1 = some found) :
    start.1 = some found ∨ ∃ next ∈ objects, ∃ seen, (visit next seen).1 = some found := by
  induction objects generalizing start with
  | nil => exact .inl finds
  | cons next objects ih =>
      obtain ⟨answered, seen⟩ := start
      rcases ih finds with here | ⟨other, member, later⟩
      · cases answered with
        | some answer => exact .inl here
        | none => exact .inr ⟨next, List.mem_cons_self, seen, here⟩
      · exact .inr ⟨other, List.mem_cons_of_mem next member, later⟩

theorem exists_of_search {α : Type} {links : Dbref → List Dbref} {answer : Dbref → Option α}
    {depth : Nat} {object : Dbref} {seen : List Dbref} {found : α}
    (finds : (search links answer depth object seen).1 = some found) :
    ∃ other, Relation.ReflTransGen (fun object next => next ∈ links object) object other ∧
      answer other = some found := by
  induction depth generalizing object seen with
  | zero => cases finds
  | succ depth ih =>
      unfold search at finds
      split at finds
      · cases finds
      · split at finds
        · next here => exact ⟨object, .refl, here.trans finds⟩
        · rcases exists_of_foldl_visits finds with none | ⟨next, linked, passed, later⟩
          · cases none
          · obtain ⟨other, way, answers⟩ := ih later
            exact ⟨other, .head linked way, answers⟩

namespace World

variable {world : World}

/-- An inherited value is some ancestor's own. -/
theorem exists_of_inheritedValue? {object : Dbref} {key : AttrKey} {value : Text}
    (inherits : world.inheritedValue? object key = some value) :
    ∃ ancestor, Relation.TransGen world.IsChildOf object ancestor ∧
      world.ownValue? key ancestor = some value := by
  rcases exists_of_foldl_visits inherits with none | ⟨parent, linked, passed, found⟩
  · cases none
  · obtain ⟨ancestor, descends, own⟩ := exists_of_search found
    exact ⟨ancestor, .head' linked descends, own⟩

theorem exists_of_findDef? {object : Dbref} {name : Text} {definition : AttrDef}
    (found : world.findDef? object name = some definition) :
    ∃ other, world.definedOn? other name = some definition := by
  obtain ⟨other, -, declared⟩ := exists_of_search found
  exact ⟨other, declared⟩

end World
end WorldLocks
