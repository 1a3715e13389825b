import WorldLocks.Proofs.Walks

/-! Walks and searches come to the same objects in the same order.  A walk marks an object when it
takes it from its stack, a search when it enters it, and a search hands what it has seen from one
link to the next.  Both follow one tour, whatever cycles, repeated links and ways that meet again
there are, so a search answers what is found first along a walk. -/

set_option autoImplicit false

namespace WorldLocks

/-- The tour of what is on a stack, top first: what is visited, in order, when nothing is that has
been seen.  The links of what is visited are put on top of the stack. -/
inductive Tour (links : Dbref → List Dbref) : (seen stack visited : List Dbref) → Prop where
  | done {seen : List Dbref} : Tour links seen [] []
  | skip {seen stack visited : List Dbref} {object : Dbref} (passed : object ∈ seen)
      (rest : Tour links seen stack visited) : Tour links seen (object :: stack) visited
  | visit {seen stack visited : List Dbref} {object : Dbref} (unseen : object ∉ seen)
      (rest : Tour links (object :: seen) (links object ++ stack) visited) :
      Tour links seen (object :: stack) (object :: visited)

section Tours

variable {links : Dbref → List Dbref} {table seen stack visited : List Dbref}

/-- With enough steps a walk is the tour of its stack. -/
theorem tour_walk (distinct : table.Nodup)
    (within : ∀ object, object ∉ table → links object = []) {bound : Nat}
    (enough : stepsLeft links table stack seen ≤ bound) :
    Tour links seen stack (walk links bound stack seen) := by
  induction bound generalizing stack seen with
  | zero =>
      cases stack with
      | nil => exact .done
      | cons object stack => simp [stepsLeft] at enough
  | succ bound ih =>
      cases stack with
      | nil => exact .done
      | cons object stack =>
          unfold walk
          by_cases passed : object ∈ seen
          · rw [if_pos (by simpa using passed)]
            refine .skip passed (ih ?_)
            simp only [stepsLeft, List.length_cons] at enough ⊢
            omega
          · rw [if_neg (by simpa using passed)]
            have visited := stepsLeft_visit distinct within passed stack
            exact .visit passed (ih (by omega))

/-- The tour of a stack is the tour of its upper part and then that of the lower part, which visits
nothing again. -/
theorem Tour.split {upper lower : List Dbref} (tour : Tour links seen (upper ++ lower) visited) :
    ∃ before behind, visited = before ++ behind ∧ Tour links seen upper before ∧
      Tour links (before.reverse ++ seen) lower behind := by
  generalize whole : upper ++ lower = stack at tour
  induction tour generalizing upper with
  | done =>
      obtain ⟨rfl, rfl⟩ := List.append_eq_nil_iff.mp whole
      exact ⟨[], [], rfl, .done, .done⟩
  | @skip seen stack visited object passed rest ih =>
      cases upper with
      | nil =>
          obtain rfl : lower = object :: stack := whole
          exact ⟨[], visited, rfl, .done, .skip passed rest⟩
      | cons first upper =>
          obtain ⟨rfl, later⟩ := List.cons.inj whole
          obtain ⟨before, behind, joined, above, below⟩ := ih later
          exact ⟨before, behind, joined, .skip passed above, below⟩
  | @visit seen stack visited object unseen rest ih =>
      cases upper with
      | nil =>
          obtain rfl : lower = object :: stack := whole
          exact ⟨[], object :: visited, rfl, .done, .visit unseen rest⟩
      | cons first upper =>
          obtain ⟨rfl, later⟩ := List.cons.inj whole
          obtain ⟨before, behind, rfl, above, below⟩ :=
            @ih (links first ++ upper)
              ((List.append_assoc ..).trans (congrArg (links first ++ ·) later))
          refine ⟨first :: before, behind, rfl, .visit unseen above, ?_⟩
          simpa using below

/-- A tour visits nothing twice, and nothing that has been seen. -/
theorem Tour.distinct (tour : Tour links seen stack visited) :
    visited.Nodup ∧ ∀ object ∈ visited, object ∉ seen := by
  induction tour with
  | done => exact ⟨List.nodup_nil, by simp⟩
  | skip _ _ ih => exact ih
  | visit unseen _ ih =>
      obtain ⟨once, fresh⟩ := ih
      refine ⟨List.nodup_cons.mpr ⟨fun again => fresh _ again List.mem_cons_self, once⟩, ?_⟩
      exact List.forall_mem_cons.mpr ⟨unseen, fun other later passed =>
        fresh other later (List.mem_cons_of_mem _ passed)⟩

/-- A tour comes to everything on its stack that has not been seen. -/
theorem Tour.covers (tour : Tour links seen stack visited) {object : Dbref}
    (member : object ∈ stack) : object ∈ visited.reverse ++ seen := by
  induction tour with
  | done => cases member
  | skip passed _ ih =>
      cases member with
      | head => exact List.mem_append_right _ passed
      | tail _ later => exact ih later
  | visit _ _ ih =>
      cases member with
      | head => simp
      | tail _ later => simpa using ih (List.mem_append_right _ later)

/-- The tours of two parts of a stack, the lower one when what the upper one visits has been seen,
are a tour of the whole. -/
theorem Tour.join {upper lower before behind : List Dbref} (above : Tour links seen upper before)
    (below : Tour links (before.reverse ++ seen) lower behind) :
    Tour links seen (upper ++ lower) (before ++ behind) := by
  induction above with
  | done => exact below
  | skip passed _ ih => exact .skip passed (ih below)
  | visit unseen _ ih =>
      have whole := ih (by simpa using below)
      rw [List.append_assoc] at whole
      exact .visit unseen whole

/-- What has been seen can be left out of the stack. -/
theorem Tour.filter_ne {object : Dbref} (tour : Tour links seen stack visited)
    (passed : object ∈ seen) : Tour links seen (stack.filter (· ≠ object)) visited := by
  induction stack generalizing seen visited with
  | nil => exact tour
  | cons first stack ih =>
      by_cases same : first = object
      · rw [List.filter_cons_of_neg (by simpa using same)]
        cases tour with
        | skip _ rest => exact ih rest passed
        | visit unseen _ => exact absurd (same ▸ passed) unseen
      · rw [List.filter_cons_of_pos (by simpa using same)]
        rw [← List.singleton_append] at tour
        obtain ⟨before, behind, rfl, above, below⟩ := tour.split
        exact above.join (ih below (List.mem_append_right _ passed))

/-- Repetitions in a stack make no difference. -/
theorem Tour.eraseDups (tour : Tour links seen stack visited) :
    Tour links seen stack.eraseDups visited := by
  -- The rest without the first object is no part of the stack, but it is shorter.
  induction length : stack.length using Nat.strong_induction_on generalizing stack seen visited with
  | _ size ih =>
      cases stack with
      | nil => exact tour
      | cons first stack =>
          rw [← List.singleton_append] at tour
          obtain ⟨before, behind, rfl, above, below⟩ := tour.split
          have rest := below.filter_ne (above.covers List.mem_cons_self)
          have shorter := List.length_filter_le (· ≠ first) stack
          rw [List.length_cons] at length
          have others : (stack.filter fun other => !other == first) = stack.filter (· ≠ first) := by
            simp [beq_eq_decide]
          rw [List.eraseDups_cons, others]
          exact above.join (ih _ (by omega) rest rfl)

/-- Only what can be reached has to have been seen alike. -/
theorem Tour.congr_seen {other : List Dbref} (tour : Tour links seen stack visited)
    (known : Dbref → Prop) (stacked : ∀ object ∈ stack, known object)
    (linked : ∀ object, known object → ∀ next ∈ links object, known next)
    (same : ∀ object, known object → (object ∈ seen ↔ object ∈ other)) :
    Tour links other stack visited := by
  induction tour generalizing other with
  | done => exact .done
  | skip passed _ ih =>
      obtain ⟨here, later⟩ := List.forall_mem_cons.mp stacked
      exact .skip ((same _ here).mp passed) (ih later same)
  | @visit seen stack visited object unseen _ ih =>
      obtain ⟨here, later⟩ := List.forall_mem_cons.mp stacked
      apply Tour.visit fun passed => unseen ((same _ here).mpr passed)
      apply ih
      · exact List.forall_mem_append.mpr ⟨linked object here, later⟩
      · intro next reached
        rw [List.mem_cons, List.mem_cons, same next reached]

/-! ## Searches -/

/-- How many objects of the table can still be visited. -/
def unvisited (table seen : List Dbref) : Nat := (table.filter (· ∉ seen)).length

theorem unvisited_mono {later : List Dbref} (more : seen ⊆ later) :
    unvisited table later ≤ unvisited table seen := by
  refine (List.monotone_filter_right table fun object unseen => ?_).length_le
  have missing : object ∉ later := by simpa using unseen
  simpa using fun member => missing (more member)

theorem unvisited_cons_lt {object : Dbref} (listed : object ∈ table) (unseen : object ∉ seen) :
    unvisited table (object :: seen) < unvisited table seen := by
  have kept : table.filter (· ∉ object :: seen) = (table.filter (· ∉ seen)).filter (· ≠ object) := by
    rw [List.filter_filter]
    refine List.filter_congr fun other _ => ?_
    simp [not_or]
  rw [unvisited, unvisited, kept]
  exact List.length_filter_lt_length_iff_exists.mpr
    ⟨object, List.mem_filter.mpr ⟨listed, by simpa using unseen⟩, by simp⟩

variable {α : Type} {answer : Dbref → Option α}

/-- Whether a search comes to the first answer along a tour or, if there is none, has seen all of
the tour. -/
structure FindsFirst (answer : Dbref → Option α) (seen visited : List Dbref)
    (outcome : Option α × List Dbref) : Prop where
  found : outcome.1 = visited.findSome? answer
  seen : outcome.1 = none → outcome.2 = visited.reverse ++ seen

theorem foldl_visits_of_some {visit : Dbref → List Dbref → Option α × List Dbref} (answered : α)
    (objects : List Dbref) :
    objects.foldl (fun (found, seen) next =>
      if found.isSome then (found, seen) else visit next seen) (some answered, seen) =
      (some answered, seen) := by
  induction objects with
  | nil => rfl
  | cons next objects ih => exact ih

/-- A round of visits, each made only while there is no answer, comes to the first answer along the
tour if every visit does. -/
theorem FindsFirst.round {visit : Dbref → List Dbref → Option α × List Dbref}
    {objects : List Dbref} (tour : Tour links seen objects visited)
    (visits : ∀ next later visited, seen ⊆ later → Tour links later [next] visited →
      FindsFirst answer later visited (visit next later)) :
    FindsFirst answer seen visited (objects.foldl (fun (found, seen) next =>
      if found.isSome then (found, seen) else visit next seen) (none, seen)) := by
  induction objects generalizing seen visited with
  | nil =>
      cases tour
      exact ⟨rfl, fun _ => rfl⟩
  | cons next objects ih =>
      rw [← List.singleton_append] at tour
      obtain ⟨before, behind, rfl, first, rest⟩ := tour.split
      have one := visits next seen before (List.Subset.refl _) first
      rw [List.foldl_cons]
      change FindsFirst answer seen (before ++ behind) (objects.foldl _ (visit next seen))
      cases answered : (visit next seen).1 with
      | some found =>
          have here : before.findSome? answer = some found := one.found.symm.trans answered
          have outcome : visit next seen = (some found, (visit next seen).2) :=
            Prod.ext answered rfl
          rw [outcome, foldl_visits_of_some]
          exact ⟨by rw [List.findSome?_append, here, Option.some_or], nofun⟩
      | none =>
          have nothing : before.findSome? answer = none := one.found.symm.trans answered
          have outcome : visit next seen = (none, before.reverse ++ seen) :=
            Prod.ext answered (one.seen answered)
          rw [outcome]
          have later := ih rest fun other past visited more =>
            visits other past visited fun _ member => more (List.mem_append_right _ member)
          constructor
          · rw [later.found, List.findSome?_append, nothing, Option.none_or]
          · intro none
            rw [later.seen none, List.reverse_append, List.append_assoc]

/-- A search that may go deeper than there are objects left to visit comes to the first answer along
the tour. -/
theorem findsFirst_search (within : ∀ object, object ∉ table → links object = []) {depth : Nat}
    {object : Dbref} (enough : unvisited table seen < depth)
    (tour : Tour links seen [object] visited) :
    FindsFirst answer seen visited (search links answer depth object seen) := by
  induction depth generalizing object seen visited with
  | zero => cases enough
  | succ depth ih =>
      unfold search
      cases tour with
      | skip passed rest =>
          cases rest
          rw [if_pos (by simpa using passed)]
          exact ⟨rfl, fun _ => rfl⟩
      | @visit _ _ rest _ unseen tour =>
          rw [if_neg (by simpa using unseen)]
          cases here : answer object with
          | some found => exact ⟨by simp [here], nofun⟩
          | none =>
              -- Out of the table there is nowhere to go, and in it one object less is left.
              have round : FindsFirst answer (object :: seen) rest ((links object).foldl
                  (fun (found, seen) next => if found.isSome then (found, seen)
                    else search links answer depth next seen) (none, object :: seen)) := by
                rw [List.append_nil] at tour
                by_cases listed : object ∈ table
                · refine .round tour fun next later visited more tour => ih ?_ tour
                  have fewer := unvisited_cons_lt listed unseen
                  have left : unvisited table later ≤ unvisited table (object :: seen) :=
                    unvisited_mono more
                  omega
                · rw [within object listed] at tour ⊢
                  cases tour
                  exact ⟨rfl, fun _ => rfl⟩
              constructor
              · rw [List.findSome?_cons, here]
                exact round.found
              · intro none
                rw [List.reverse_cons, List.append_assoc]
                exact round.seen none

end Tours
end WorldLocks
