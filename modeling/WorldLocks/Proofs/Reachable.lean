import WorldLocks.Fixture.Load
import WorldLocks.Operation

/-! Runs of a world.  A run starts from an empty world or a loaded fixture.  Its operations may be
refused; between them time passes and attributes are read, which changes only the cache. -/

set_option autoImplicit false

namespace WorldLocks

/-- Worlds in which a run can start. -/
inductive World.IsStart : World → Prop where
  | empty (config : WorldConfig) (clock : Int) : IsStart (.new config clock)
  | loaded {fixture : WorldFixture} {clock : Int} {world : World}
      (loads : ofFixture fixture clock = .ok world) : IsStart world

/-- A run from one world to another in which every operation is allowed. -/
inductive World.Leads (allowed : Operation → Prop) (start : World) : World → Prop where
  | refl : Leads allowed start start
  | perform {world : World} (operation : Operation) (legal : allowed operation)
      (run : Leads allowed start world) : Leads allowed start (operation.perform world).world
  | read {world : World} (object : Dbref) (handle : AttrDef) (run : Leads allowed start world) :
      Leads allowed start (world.read object handle).2
  | wait {world : World} (clock : Int) (run : Leads allowed start world) :
      Leads allowed start { world with clock := clock }

/-- A run in which every operation is allowed in the world that it is performed in. -/
inductive World.LeadsWhile (allowed : World → Operation → Prop) (start : World) : World → Prop where
  | refl : LeadsWhile allowed start start
  | perform {world : World} (operation : Operation) (legal : allowed world operation)
      (run : LeadsWhile allowed start world) :
      LeadsWhile allowed start (operation.perform world).world
  | read {world : World} (object : Dbref) (handle : AttrDef)
      (run : LeadsWhile allowed start world) :
      LeadsWhile allowed start (world.read object handle).2
  | wait {world : World} (clock : Int) (run : LeadsWhile allowed start world) :
      LeadsWhile allowed start { world with clock := clock }

/-- A world that some run with allowed operations ends in. -/
def World.Reachable (allowed : Operation → Prop) (world : World) : Prop :=
  ∃ start, IsStart start ∧ Leads allowed start world

namespace World

theorem Leads.performAll {allowed : Operation → Prop} {start world : World}
    (run : Leads allowed start world) {history : List Operation}
    (legal : ∀ operation ∈ history, allowed operation) :
    Leads allowed start (Operation.performAll world history) := by
  induction history generalizing world with
  | nil => exact run
  | cons operation history ih =>
      exact ih (run.perform operation (legal operation (by simp)))
        fun later member => legal later (by simp [member])

/-- What holds at the start, is kept by every allowed operation and depends neither on the cache
nor on the time holds after every run. -/
theorem LeadsWhile.invariant {allowed : World → Operation → Prop} {start world : World}
    (run : LeadsWhile allowed start world) (holds : World → Prop) (starts : holds start)
    (performs : ∀ world operation, allowed world operation → holds world →
      holds (operation.perform world).world)
    (reads : ∀ (world : World) cache, holds world → holds { world with cache := cache })
    (waits : ∀ (world : World) clock, holds world → holds { world with clock := clock }) :
    holds world := by
  induction run with
  | refl => exact starts
  | perform operation legal _ ih => exact performs _ operation legal ih
  | read object handle _ ih => exact reads _ _ ih
  | wait clock _ ih => exact waits _ clock ih

theorem Leads.leadsWhile {allowed : Operation → Prop} {limited : World → Operation → Prop}
    {start world : World} (run : Leads allowed start world)
    (legal : ∀ world operation, allowed operation → limited world operation) :
    LeadsWhile limited start world := by
  induction run with
  | refl => exact .refl
  | perform operation permitted _ ih => exact .perform operation (legal _ operation permitted) ih
  | read object handle _ ih => exact .read object handle ih
  | wait clock _ ih => exact .wait clock ih

theorem LeadsWhile.leads {limited : World → Operation → Prop} {start world : World}
    (run : LeadsWhile limited start world) : Leads (fun _ => True) start world := by
  induction run with
  | refl => exact .refl
  | perform operation _ _ ih => exact .perform operation trivial ih
  | read object handle _ ih => exact .read object handle ih
  | wait clock _ ih => exact .wait clock ih

theorem Leads.invariant {allowed : Operation → Prop} {start world : World}
    (run : Leads allowed start world) (holds : World → Prop) (starts : holds start)
    (performs : ∀ world operation, allowed operation → holds world →
      holds (operation.perform world).world)
    (reads : ∀ (world : World) cache, holds world → holds { world with cache := cache })
    (waits : ∀ (world : World) clock, holds world → holds { world with clock := clock }) :
    holds world :=
  (run.leadsWhile fun _ _ legal => legal).invariant holds starts performs reads waits

end World
end WorldLocks
