import Mathlib.Data.List.Infix
import WorldLocks.Pattern

/-! What globs mean.  The scan remembers only the last star that it has passed and is over as soon
as the value is used up.  It misses nothing by that: between two stars a glob takes one character
for each of its own, so whatever an earlier star could still take, the last one can take as well. -/

set_option autoImplicit false

namespace WorldLocks.Pattern

/-! ## Meaning -/

/-- Whether a character of a glob can take a piece of a value before what is behind the piece.  A
star takes any piece, a question mark one character, or none if the value is used up, and every
other character takes one that is like it. -/
def Takes (alike : Char → Char → Prop) (mark : Char) (piece behind : Text) : Prop :=
  if mark = '*' then True
  else if mark = '?' then piece.length = 1 ∨ piece = [] ∧ behind = []
  else ∃ c, piece = [c] ∧ alike mark c

/-- Whether a value can be split into pieces that the characters of a glob take one after the
other. -/
inductive Matches (alike : Char → Char → Prop) : (glob value : Text) → Prop where
  | done : Matches alike [] []
  | next {mark : Char} {glob piece behind : Text} (takes : Takes alike mark piece behind)
      (rest : Matches alike glob behind) : Matches alike (mark :: glob) (piece ++ behind)

section Meaning

variable {alike : Char → Char → Prop} {mark c : Char} {glob value : Text}

theorem matches_nil_iff : Matches alike [] value ↔ value = [] := by
  constructor
  · intro fits
    cases fits with
    | done => rfl
  · intro nothing
    rw [nothing]
    exact .done

theorem matches_star_iff :
    Matches alike ('*' :: glob) value ↔ ∃ count, Matches alike glob (value.drop count) := by
  constructor
  · intro fits
    cases fits with
    | @next _ _ piece _ _ rest => exact ⟨piece.length, by rwa [List.drop_left]⟩
  · intro ⟨count, rest⟩
    rw [← List.take_append_drop count value]
    exact .next trivial rest

/-- Before a character that is left a mark other than a star takes just that character. -/
theorem matches_cons_iff (plain : mark ≠ '*') : Matches alike (mark :: glob) (c :: value) ↔
    (mark = '?' ∨ alike mark c) ∧ Matches alike glob value := by
  constructor
  · intro fits
    generalize whole : c :: value = text at fits
    cases fits with
    | @next _ _ piece behind takes rest =>
        by_cases single : mark = '?'
        · simp only [Takes, if_neg plain, if_pos single] at takes
          cases takes with
          | inl one =>
              obtain ⟨d, rfl⟩ := List.length_eq_one_iff.mp one
              cases whole
              exact ⟨.inl single, rest⟩
          | inr none =>
              obtain ⟨rfl, rfl⟩ := none
              cases whole
        · simp only [Takes, if_neg plain, if_neg single] at takes
          obtain ⟨d, rfl, same⟩ := takes
          cases whole
          exact ⟨.inr same, rest⟩
  · intro ⟨suits, rest⟩
    have takes : Takes alike mark [c] value := by
      by_cases single : mark = '?'
      · simp [Takes, single]
      · simp [Takes, plain, single, suits.resolve_left single]
    exact Matches.next takes rest

/-- Nothing is taken from a value that is used up. -/
theorem matches_empty_iff : Matches alike glob [] ↔ matchesNothing glob = true := by
  induction glob with
  | nil => simp [matches_nil_iff, matchesNothing]
  | cons mark glob ih =>
      have later : matchesNothing (mark :: glob) = true ↔
          (mark = '*' ∨ mark = '?') ∧ matchesNothing glob = true := by simp [matchesNothing]
      rw [later, ← ih]
      constructor
      · intro fits
        generalize whole : [] = text at fits
        cases fits with
        | @next _ _ piece behind takes rest =>
            obtain ⟨rfl, rfl⟩ := List.append_eq_nil_iff.mp whole.symm
            refine ⟨?_, rest⟩
            by_contra other
            obtain ⟨noStar, noSingle⟩ := not_or.mp other
            simp [Takes, noStar, noSingle] at takes
      · intro ⟨skips, rest⟩
        have takes : Takes alike mark [] [] := by
          cases skips with
          | inl star => simp [Takes, star]
          | inr single => simp [Takes, single]
        exact Matches.next takes rest

/-- A part of a glob without stars takes one character for each of its own, as long as there are
any. -/
theorem Matches.drop {passed : Text} (noStar : '*' ∉ passed)
    (fits : Matches alike (passed ++ glob) value) :
    Matches alike glob (value.drop passed.length) := by
  induction passed generalizing value with
  | nil => exact fits
  | cons mark passed ih =>
      obtain ⟨plain, later⟩ := List.ne_and_not_mem_of_not_mem_cons noStar
      cases value with
      | nil =>
          have nothing := matches_empty_iff.mp fits
          simp only [matchesNothing, List.all_append, Bool.and_eq_true] at nothing
          rw [List.drop_nil]
          exact matches_empty_iff.mpr nothing.2
      | cons c value =>
          rw [List.cons_append, matches_cons_iff plain.symm] at fits
          exact ih later fits.2

end Meaning

/-! ## Scans -/

namespace Scan

variable {scan : Scan} {width : Nat}

/-- Whether a scan has a match ahead: as it stands, or when the last star takes more. -/
def CanMatch (scan : Scan) : Prop :=
  Matches Eq scan.glob scan.value ∨ ∃ after later, scan.retry = some (after, later) ∧
    ∃ count, Matches Eq after (later.drop (count + 1))

/-- Whether a scan of a glob of some width has, behind the last star, passed as many characters of
the glob as of the value, and no further star. -/
structure Sound (width : Nat) (scan : Scan) : Prop where
  narrow : scan.glob.length ≤ width
  aligned : ∀ after later, scan.retry = some (after, later) → after.length ≤ width ∧
    ∃ passed taken, after = passed ++ scan.glob ∧ later = taken ++ scan.value ∧
      passed.length = taken.length ∧ '*' ∉ passed

/-- What goes down when a star is passed or the last star takes more. -/
def weight (scan : Scan) : Nat :=
  match scan.retry with
  | none => scan.glob.length + scan.value.length
  | some (after, later) => after.length + later.length

/-- A bound on the steps that a scan still takes. -/
def stepsLeft (width : Nat) (scan : Scan) : Nat := scan.weight * (width + 1) + scan.glob.length

/-- Whether a step is right: it gives up only if there is no match ahead, and otherwise it keeps
what is ahead and comes closer to the end. -/
def Follows (width : Nat) (scan : Scan) : Option Scan → Prop
  | none => ¬ scan.CanMatch
  | some next => next.Sound width ∧ (next.CanMatch ↔ scan.CanMatch) ∧
      next.stepsLeft width < scan.stepsLeft width

theorem stepsLeft_lt (next : Scan) (lighter : next.weight < scan.weight)
    (narrow : next.glob.length ≤ width) : next.stepsLeft width < scan.stepsLeft width := by
  have steps := Nat.mul_le_mul_right (width + 1) (Nat.succ_le_of_lt lighter)
  rw [Nat.succ_mul] at steps
  unfold stepsLeft
  omega

/-- What the last star could leave to the glob behind it can be left to the rest of the glob too. -/
theorem Sound.matches_drop (sound : scan.Sound width) {after later : Text}
    (passed : scan.retry = some (after, later)) {count : Nat}
    (fits : Matches Eq after (later.drop count)) :
    Matches Eq scan.glob (scan.value.drop count) := by
  obtain ⟨-, before, taken, split, behind, even, noStar⟩ := sound.aligned after later passed
  rw [split] at fits
  have rest := fits.drop noStar
  rwa [behind, List.drop_drop, even, Nat.add_comm, ← List.drop_drop, List.drop_left] at rest

/-! ### Starting again behind a star -/

section Restart

variable {glob value : Text}

theorem sound_restart (narrow : glob.length ≤ width) :
    Sound width ⟨glob, value, some (glob, value)⟩ where
  narrow := narrow
  aligned := by
    intro _ _ same
    cases same
    exact ⟨narrow, [], [], rfl, rfl, rfl, List.not_mem_nil⟩

theorem canMatch_restart_iff :
    CanMatch ⟨glob, value, some (glob, value)⟩ ↔ ∃ count, Matches Eq glob (value.drop count) := by
  constructor
  · intro can
    cases can with
    | inl here => exact ⟨0, here⟩
    | inr further =>
        obtain ⟨_, _, same, count, there⟩ := further
        cases same
        exact ⟨count + 1, there⟩
  · intro ⟨count, there⟩
    cases count with
    | zero => exact .inl there
    | succ count => exact .inr ⟨glob, value, rfl, count, there⟩

end Restart

/-! ### Steps -/

/-- A star that has passed the character that does not fit takes it. -/
theorem follows_goBack (sound : scan.Sound width) (unread : scan.value ≠ [])
    (stuck : ¬ Matches Eq scan.glob scan.value) : scan.Follows width scan.goBack := by
  cases passed : scan.retry with
  | none =>
      have gaveUp : scan.goBack = none := by simp [goBack, passed]
      rw [gaveUp]
      simpa [Follows, CanMatch, passed] using stuck
  | some place =>
      obtain ⟨after, later⟩ := place
      obtain ⟨narrow, before, taken, -, behind, -, -⟩ := sound.aligned after later passed
      cases later with
      | nil => exact absurd (List.append_eq_nil_iff.mp behind.symm).2 unread
      | cons c later =>
          have back : scan.goBack = some ⟨after, later, some (after, later)⟩ := by
            simp [goBack, passed]
          have old : scan.CanMatch ↔ ∃ count, Matches Eq after (later.drop count) := by
            simp [CanMatch, passed, stuck]
          rw [back]
          refine ⟨sound_restart narrow, canMatch_restart_iff.trans old.symm, ?_⟩
          apply stepsLeft_lt ⟨after, later, some (after, later)⟩ _ narrow
          simp [weight, passed]

/-- A new star can take whatever the star before it could still take. -/
theorem follows_star {glob : Text} (sound : scan.Sound width) (star : scan.glob = '*' :: glob) :
    scan.Follows width (some ⟨glob, scan.value, some (glob, scan.value)⟩) := by
  have shorter : scan.glob.length = glob.length + 1 := by rw [star, List.length_cons]
  have narrow : glob.length ≤ width := by
    have whole := sound.narrow
    omega
  have old : scan.CanMatch ↔ ∃ count, Matches Eq glob (scan.value.drop count) := by
    rw [← matches_star_iff, ← star]
    constructor
    · intro can
      cases can with
      | inl here => exact here
      | inr further =>
          obtain ⟨after, later, passed, count, there⟩ := further
          have fits := sound.matches_drop passed there
          rw [star, matches_star_iff] at fits ⊢
          obtain ⟨more, rest⟩ := fits
          exact ⟨count + 1 + more, by rwa [← List.drop_drop]⟩
    · exact .inl
  refine ⟨sound_restart narrow, canMatch_restart_iff.trans old.symm, ?_⟩
  apply stepsLeft_lt ⟨glob, scan.value, some (glob, scan.value)⟩ _ narrow
  cases passed : scan.retry with
  | none =>
      simp only [weight, passed]
      omega
  | some place =>
      obtain ⟨after, later⟩ := place
      obtain ⟨-, before, taken, split, behind, -, -⟩ := sound.aligned after later passed
      simp only [weight, passed, split, behind, List.length_append]
      omega

/-- A character that fits is passed in the glob and in the value. -/
theorem follows_char {mark c : Char} {glob value : Text} (sound : scan.Sound width)
    (next : scan.glob = mark :: glob) (unread : scan.value = c :: value) (plain : mark ≠ '*')
    (fits : mark = '?' ∨ mark = c) :
    scan.Follows width (some ⟨glob, value, scan.retry⟩) := by
  have shorter : scan.glob.length = glob.length + 1 := by rw [next, List.length_cons]
  have fewer : scan.value.length = value.length + 1 := by rw [unread, List.length_cons]
  have narrow : glob.length ≤ width := by
    have whole := sound.narrow
    omega
  refine ⟨⟨narrow, ?_⟩, ?_, ?_⟩
  · intro after later passed
    obtain ⟨narrow, before, taken, split, behind, even, noStar⟩ := sound.aligned after later passed
    refine ⟨narrow, before ++ [mark], taken ++ [c], ?_, ?_, ?_, ?_⟩
    · rw [split, next, List.append_assoc, List.singleton_append]
    · rw [behind, unread, List.append_assoc, List.singleton_append]
    · rw [List.length_append, List.length_append, even]
      rfl
    · simp [noStar, plain.symm]
  · have here : Matches Eq scan.glob scan.value ↔ Matches Eq glob value := by
      rw [next, unread, matches_cons_iff plain, and_iff_right fits]
    rw [CanMatch, CanMatch, here]
  · cases passed : scan.retry with
    | none =>
        apply stepsLeft_lt ⟨glob, value, none⟩ _ narrow
        simp only [weight, passed]
        omega
    | some place =>
        obtain ⟨after, later⟩ := place
        simp only [stepsLeft, weight, passed]
        omega

theorem follows_step {c : Char} {value : Text} (sound : scan.Sound width)
    (unread : scan.value = c :: value) : scan.Follows width (scan.step c value) := by
  have some : scan.value ≠ [] := by simp [unread]
  unfold step
  split
  · next ended =>
    apply follows_goBack sound some
    rw [ended, unread, matches_nil_iff]
    exact List.cons_ne_nil c value
  · next glob star =>
    rw [← unread]
    exact follows_star sound star
  · next mark glob plain next =>
    split
    · next fits => exact follows_char sound next unread plain fits
    · next misfits =>
      apply follows_goBack sound some
      rw [next, unread, matches_cons_iff plain]
      exact fun fits => misfits fits.1

/-! ### Runs -/

theorem run_iff {bound : Nat} (sound : scan.Sound width) (enough : scan.stepsLeft width < bound) :
    scan.run bound = true ↔ scan.CanMatch := by
  induction bound generalizing scan with
  | zero => cases enough
  | succ bound ih =>
      unfold run
      split
      · next ended =>
        rw [← matches_empty_iff, CanMatch, ended]
        constructor
        · exact .inl
        · intro can
          cases can with
          | inl here => exact here
          | inr further =>
              obtain ⟨after, later, passed, count, there⟩ := further
              have rest := sound.matches_drop passed there
              rwa [ended, List.drop_nil] at rest
      · next none => cases none
      · next c value unread less =>
        cases less
        have follows := follows_step sound unread
        split
        · next next steps =>
          rw [steps] at follows
          obtain ⟨nextSound, same, fewer⟩ := follows
          rw [ih nextSound (by omega), same]
        · next gaveUp =>
          rw [gaveUp] at follows
          simpa [Follows] using follows

end Scan

/-- The scan finds a match exactly if there is one. -/
theorem matchesGlob_iff {glob value : Text} :
    matchesGlob glob value = true ↔ Matches Eq glob value := by
  have sound : Scan.Sound glob.length ⟨glob, value, none⟩ := ⟨Nat.le_refl _, nofun⟩
  have enough : Scan.stepsLeft glob.length ⟨glob, value, none⟩ < scanBound glob value := by
    simp only [Scan.stepsLeft, Scan.weight, scanBound, Nat.succ_mul]
    omega
  rw [matchesGlob, Scan.run_iff sound enough]
  simp [Scan.CanMatch]

/-! ## Patterns -/

theorem hasDoubleStar_iff {glob : Text} : hasDoubleStar glob = true ↔ ['*', '*'] <:+: glob := by
  fun_induction hasDoubleStar glob with
  | case1 rest => exact iff_of_true rfl ⟨[], rest, rfl⟩
  | case2 c rest apart ih =>
      have elsewhere : ¬ ['*', '*'] <+: c :: rest := by
        intro ⟨behind, same⟩
        obtain ⟨rfl, later⟩ := List.cons.inj same
        exact apart behind rfl later.symm
      rw [ih, List.infix_cons_iff, or_iff_right elsewhere]
  | case3 => simp

/-- Two characters that are equal when the case of ASCII letters is ignored. -/
def SameLetter (first second : Char) : Prop := first.toUpper = second.toUpper

instance (first second : Char) : Decidable (SameLetter first second) :=
  inferInstanceAs (Decidable (_ = _))

/-- Only letters have an upper case of their own. -/
theorem toUpper_eq_iff {mark : Char} (low : mark.val < 'A'.val) (c : Char) :
    c.toUpper = mark ↔ c = mark := by
  unfold Char.toUpper
  split
  · next letter =>
    constructor
    · intro raised
      have value := congrArg Char.val raised
      grind
    · intro same
      grind
  · rfl

theorem matchesNothing_map {change : Char → Char} (star : ∀ c, change c = '*' ↔ c = '*')
    (single : ∀ c, change c = '?' ↔ c = '?') (glob : Text) :
    matchesNothing (glob.map change) = matchesNothing glob := by
  rw [matchesNothing, matchesNothing, List.all_map]
  congr 1
  funext c
  simp [beq_eq_decide, star, single]

/-- A change of characters that leaves stars and question marks apart from the others can be made
in the glob and in the value, or when their characters are compared. -/
theorem matches_map_iff {change : Char → Char} (star : ∀ c, change c = '*' ↔ c = '*')
    (single : ∀ c, change c = '?' ↔ c = '?') {glob value : Text} :
    Matches Eq (glob.map change) (value.map change) ↔
      Matches (fun mark c => change mark = change c) glob value := by
  induction glob generalizing value with
  | nil => rw [List.map_nil, matches_nil_iff, matches_nil_iff, List.map_eq_nil_iff]
  | cons mark glob ih =>
      by_cases plain : mark = '*'
      · rw [plain, List.map_cons, (star '*').mpr rfl, matches_star_iff, matches_star_iff]
        apply exists_congr
        intro count
        rw [← List.map_drop, ih]
      · cases value with
        | nil =>
            rw [List.map_nil, matches_empty_iff, matches_empty_iff, matchesNothing_map star single]
        | cons c value =>
            have plainToo : change mark ≠ '*' := fun same => plain ((star mark).mp same)
            rw [List.map_cons, List.map_cons, matches_cons_iff plainToo, matches_cons_iff plain,
              single, ih]

/-- A pattern that is no bound accepts exactly the values that can be split along it, characters
being compared without regard to the case of ASCII letters, and none at all if two of its stars
stand side by side. -/
theorem accepts_glob_iff {pattern : Text} (noBound : ∀ c ∈ pattern.head?, c ≠ '>' ∧ c ≠ '<')
    (value : Text) : accepts pattern value = true ↔
      ¬ ['*', '*'] <:+: pattern ∧ Matches SameLetter pattern value := by
  have glob : accepts pattern value =
      (!hasDoubleStar pattern &&
        matchesGlob (pattern.map Char.toUpper) (value.map Char.toUpper)) := by
    unfold accepts
    split
    · exact absurd rfl (noBound '>' rfl).1
    · exact absurd rfl (noBound '<' rfl).2
    · rfl
  have star : ∀ c : Char, c.toUpper = '*' ↔ c = '*' := toUpper_eq_iff (by decide)
  have single : ∀ c : Char, c.toUpper = '?' ↔ c = '?' := toUpper_eq_iff (by decide)
  rw [glob, Bool.and_eq_true, Bool.not_eq_true', Bool.eq_false_iff, Ne, hasDoubleStar_iff,
    matchesGlob_iff, matches_map_iff star single]
  rfl

/-- The star has to take more than once, and the question mark takes nothing. -/
theorem accepts_glob_iff_again :
    (∀ c ∈ "*ab?".toList.head?, c ≠ '>' ∧ c ≠ '<') ∧ accepts "*ab?".toList "xaAB".toList = true ∧
      ¬ ['*', '*'] <:+: "*ab?".toList ∧ Matches SameLetter "*ab?".toList "xaAB".toList := by
  have noBound : ∀ c ∈ "*ab?".toList.head?, c ≠ '>' ∧ c ≠ '<' := by simp
  have accepted : accepts "*ab?".toList "xaAB".toList = true := by decide +kernel
  exact ⟨noBound, accepted, (accepts_glob_iff noBound _).mp accepted⟩

end WorldLocks.Pattern
