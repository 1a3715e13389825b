import WorldLocks.Lock.Cursor

/-! What the calls of a cursor take and leave. -/

set_option autoImplicit false

namespace WorldLocks.Cursor

theorem eat?_eq_some {mark : Char} {ahead behind : Cursor} :
    eat? mark ahead = some behind ↔ ahead = mark :: behind := by
  cases ahead with
  | nil => simp [eat?]
  | cons c rest => simp [eat?]

theorem head?_dropWhile {test : Char → Bool} {ahead : Cursor} {c : Char}
    (first : c ∈ (ahead.dropWhile test).head?) : test c = false := by
  have stopped := List.head?_dropWhile_not test ahead
  rw [Option.mem_def.mp first] at stopped
  simpa using stopped

/-- A run takes characters that satisfy the test, and stops before one that does not. -/
theorem run_spec (test : Char → Bool) (ahead : Cursor) :
    (run test ahead).1 ++ (run test ahead).2 = ahead ∧
      (∀ c ∈ (run test ahead).1, test c = true) ∧
        ∀ c ∈ (run test ahead).2.head?, test c = false :=
  ⟨List.takeWhile_append_dropWhile,
    fun c member => List.all_eq_true.mp List.all_takeWhile c member,
    fun _ first => head?_dropWhile first⟩

theorem wordFrom_split (inCall : Bool) (ahead : Text) :
    (wordFrom inCall ahead).1 ++ (wordFrom inCall ahead).2 = ahead := by
  induction ahead generalizing inCall with
  | nil => cases inCall <;> rfl
  | cons c rest ih =>
      cases inCall with
      | true => simp [wordFrom, ih]
      | false =>
          unfold wordFrom
          split
          · rfl
          · simp [ih]

/-- From a `[` on a word goes on to the next `]`, where it is read on as outside of a call. -/
theorem wordFrom_true (ahead : Text) :
    wordFrom true ahead =
      ((run (· != ']') ahead).1 ++ (wordFrom false (run (· != ']') ahead).2).1,
        (wordFrom false (run (· != ']') ahead).2).2) := by
  induction ahead with
  | nil => rfl
  | cons c rest ih =>
      by_cases closes : c = ']'
      · subst closes
        rfl
      · have inside : (c != ']') = true := bne_iff_ne.mpr closes
        simp only [run, List.takeWhile_cons, List.dropWhile_cons, inside, if_true] at ih ⊢
        rw [wordFrom, inside, ih]
        rfl

/-- A test takes its name, a colon and its pattern, which runs up to a mark that ends patterns. -/
theorem attrTest?_eq_some {ahead : Cursor} {name pattern : Text} {behind : Cursor}
    (reads : attrTest? ahead = some ((name, pattern), behind)) :
    ahead = name ++ ':' :: (pattern ++ behind) ∧ (∀ c ∈ pattern, endsPattern c = false) ∧
      ∀ c ∈ behind.head?, endsPattern c = true := by
  unfold attrTest? at reads
  dsimp only at reads
  split at reads
  · cases reads
  · next afterColon colon =>
    simp only [Option.some.injEq, Prod.mk.injEq] at reads
    obtain ⟨⟨rfl, rfl⟩, rfl⟩ := reads
    obtain ⟨named, -, -⟩ := run_spec (fun c => c == '.' || !isRightMark c) ahead
    obtain ⟨matched, inside, stops⟩ := run_spec (fun c => !endsPattern c) afterColon
    refine ⟨?_, by simpa using inside, by simpa using stops⟩
    rw [matched, ← eat?_eq_some.mp colon, named]

/-! ## Suffixes -/

theorem skipBlanks_suffix (ahead : Cursor) : skipBlanks ahead <:+ ahead := List.dropWhile_suffix _

theorem run_suffix (test : Char → Bool) (ahead : Cursor) : (run test ahead).2 <:+ ahead :=
  List.dropWhile_suffix _

theorem suffix_of_eat? {mark : Char} {ahead behind : Cursor}
    (eats : eat? mark ahead = some behind) : behind <:+ ahead := by
  rw [eat?_eq_some.mp eats]
  exact List.suffix_cons mark behind

theorem eat_suffix (mark : Char) (ahead : Cursor) : eat mark ahead <:+ ahead := by
  unfold eat
  cases eats : eat? mark ahead with
  | none => exact List.suffix_rfl
  | some behind => exact suffix_of_eat? eats

end WorldLocks.Cursor
