import WorldLocks.Proofs.Cache.Operations
import WorldLocks.Proofs.Evaluation.Alike

/-! Evaluations and the cache.  An evaluation looks at the world's cache only through the readings
that it makes, and these are readings of attributes that the world provides.  So caches that cannot
be told apart by such readings lead to the same verdict and to the same messages. -/

set_option autoImplicit false

namespace WorldLocks

/-- A relation between caches that readings of what the world provides keep, and that makes them
answer alike. -/
def World.KeptByReading (world : World) (related : ReadCache → ReadCache → Prop) : Prop :=
  ∀ one two, related one two → ∀ object definition, world.Provides definition →
    (world.readWith one object definition).1 = (world.readWith two object definition).1 ∧
      related (world.readWith one object definition).2 (world.readWith two object definition).2

namespace Evaluator

/-- The evaluator in the same world with another cache. -/
def withCache (ev : Evaluator) (cache : ReadCache) : Evaluator :=
  { ev with world := ev.world.withCache cache }

variable {ev : Evaluator} {related : ReadCache → ReadCache → Prop}

theorem alike_withCache (keeps : ev.world.KeptByReading related) (fresh : ReadCache) :
    ev.Alike (ev.withCache fresh) related (fun _ _ => False) where
  limits := rfl
  functions := rfl
  isValid := rfl
  ownerOf := rfl
  shown := rfl
  carries := rfl
  resolve := rfl
  canSee := rfl
  attrFor? := rfl
  reads := by
    intro first second caches object definition provides _ _
    obtain ⟨answer, behind⟩ := keeps first second caches object definition provides
    exact ⟨answer.symm, behind⟩
  locks := fun _ => id

/-- Caches that cannot be told apart lead to the same verdict and the same messages, and cannot be
told apart afterwards. -/
theorem evaluate_of_related (keeps : ev.world.KeptByReading related) {one two : ReadCache}
    (alike : related one two) (fresh : ReadCache) (actor locked : Dbref) (text : Text)
    (zone : Dbref) :
    ((ev.withCache fresh).evaluate two actor locked text zone).1 =
        (ev.evaluate one actor locked text zone).1 ∧
      SameButCache related (ev.evaluate one actor locked text zone).2
        ((ev.withCache fresh).evaluate two actor locked text zone).2 :=
  (alike_withCache keeps fresh).evaluate alike actor locked text zone

end Evaluator
end WorldLocks
