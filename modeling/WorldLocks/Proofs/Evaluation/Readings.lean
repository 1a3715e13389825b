import WorldLocks.Lock.Evaluate
import WorldLocks.Proofs.Cache.Reading
import WorldLocks.Proofs.References.Definitions

/-! What locks read.  The attribute that a lock tests is named in it, so it is read through a
definition that the world provides, which is up to date. -/

set_option autoImplicit false

namespace WorldLocks

namespace World

variable {world : World} {object : Dbref} {name : Text} {definition handle : AttrDef}
  {one two : ReadCache}

/-! ## Named attributes -/

theorem provides_of_builtin? (named : AttrDef.builtin? name = some definition) :
    world.Provides definition := by
  obtain ⟨which, -, rfl⟩ := Option.map_eq_some_iff.mp named
  exact .inl ⟨which, rfl⟩

theorem provides_of_definedOn? (declared : world.definedOn? object name = some definition) :
    world.Provides definition := by
  obtain ⟨-, serial, -, -, registered⟩ := exists_of_definedOn? declared
  exact .inr ⟨serial, registered⟩

theorem provides_of_findDef? (found : world.findDef? object name = some definition) :
    world.Provides definition := by
  obtain ⟨other, declared⟩ := exists_of_findDef? found
  exact provides_of_definedOn? declared

theorem provides_of_plainAttr? {actor : Dbref}
    (resolved : world.plainAttr? actor object name = some definition) :
    world.Provides definition := by
  unfold plainAttr? at resolved
  rcases Option.or_eq_some_iff.mp resolved with readable | ⟨-, other⟩
  · obtain ⟨found, -⟩ := Option.filter_eq_some_iff.mp readable
    split at found
    · exact provides_of_findDef? found
    · cases found
  · rcases Option.or_eq_some_iff.mp other with named | ⟨-, found⟩
    · exact provides_of_builtin? named
    · split at found
      · exact provides_of_findDef? found
      · cases found

theorem provides_of_resolveAttr? {matcher : Matcher} {actor : Dbref}
    (resolved : world.resolveAttr? matcher actor object name = some definition) :
    world.Provides definition := by
  unfold resolveAttr? at resolved
  split at resolved
  · exact provides_of_builtin? resolved
  · rcases Option.or_eq_some_iff.mp resolved with dotted | ⟨-, plain⟩
    · unfold dottedAttr? at dotted
      obtain ⟨found, -, dotted⟩ := Option.bind_eq_some_iff.mp dotted
      obtain ⟨target, -, declared⟩ := Option.bind_eq_some_iff.mp dotted
      exact provides_of_definedOn? declared
    · exact provides_of_plainAttr? plain
  · exact provides_of_plainAttr? resolved

theorem provides_of_attrFor? {ev : Evaluator} (named : ev.attrFor? object name = some definition) :
    ev.world.Provides definition := by
  unfold Evaluator.attrFor? at named
  split at named
  · exact provides_of_resolveAttr? named
  · rcases Option.or_eq_some_iff.mp named with builtin | ⟨-, found⟩
    · exact provides_of_builtin? builtin
    · exact provides_of_findDef? found

/-! ## Caches that answer alike -/

/-- Whether two caches give the same answers through all handles that are up to date. -/
def AlikeNow (world : World) (first second : ReadCache) : Prop :=
  world.AlikeAmong (fun _ handle => world.IsCurrent handle) first second

/-- A reading through a handle that is up to date does not show in later ones. -/
theorem Covered.alikeNow_read (covered : world.Covered) (current : world.IsCurrent handle)
    (object : Dbref) (cache : ReadCache) :
    world.AlikeNow (world.readWith cache object handle).2 cache :=
  AlikeAmong.read (fun object _ _ first second => first.agreeOn covered second object) current cache

theorem Covered.isCurrent_of_provides (covered : world.Covered)
    (provides : world.Provides definition) : world.IsCurrent definition := by
  obtain ⟨loose, balanced⟩ := covered
  exact provides.isCurrent balanced.wellFormed

end World
end WorldLocks
