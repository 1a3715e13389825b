import WorldLocks.Proofs.Expansion
import WorldLocks.Proofs.Parts.RoundTrip

/-! Locks that do not fit.  What is compiled or shown is written piece by piece into a buffer, and
each piece is cut on its own.  So the text starts with all that fits of the whole, but behind a cut
before a wide character a later piece may still find room. -/

set_option autoImplicit false

namespace WorldLocks

open Cursor LockPart

/-! ## Cuts -/

namespace Text

/-- The first character that is cut off does not fit. -/
theorem lt_of_cut {room : Nat} {text rest : Text} {c : Char}
    (cut : text = takeBytes room text ++ c :: rest) :
    room < bytes (takeBytes room text) + c.utf8Size := by
  induction text generalizing room with
  | nil => simp [takeBytes] at cut
  | cons d text ih =>
      by_cases fits : d.utf8Size ≤ room
      · rw [takeBytes, if_pos fits] at cut ⊢
        have later := ih (List.cons.inj cut).2
        rw [bytes_cons]
        omega
      · rw [takeBytes, if_neg fits] at cut ⊢
        obtain rfl : d = c := (List.cons.inj cut).1
        rw [bytes_nil]
        omega

/-- With less room a text is cut at the same place, or earlier, and then what is behind the later
cut is out of reach. -/
theorem takeBytes_of_le {small large : Nat} (smaller : small ≤ large) (text : Text) :
    takeBytes small text = takeBytes large text ∨
      small < bytes (takeBytes large text) ∧
        ∀ behind, takeBytes small (takeBytes large text ++ behind) = takeBytes small text := by
  induction text generalizing small large with
  | nil => exact .inl rfl
  | cons c rest ih =>
      by_cases fits : c.utf8Size ≤ small
      · have fitsToo : c.utf8Size ≤ large := Nat.le_trans fits smaller
        rw [takeBytes, if_pos fits, takeBytes, if_pos fitsToo]
        rcases @ih (small - c.utf8Size) (large - c.utf8Size) (by omega) with same | ⟨short, behind⟩
        · exact .inl (by rw [same])
        · refine .inr ⟨?_, fun later => ?_⟩
          · rw [bytes_cons]
            omega
          · rw [List.cons_append, takeBytes, if_pos fits, behind]
      · rw [takeBytes, if_neg fits]
        by_cases fitsLarge : c.utf8Size ≤ large
        · rw [takeBytes, if_pos fitsLarge]
          refine .inr ⟨?_, fun later => ?_⟩
          · rw [bytes_cons]
            omega
          · rw [List.cons_append, takeBytes, if_neg fits]
        · rw [takeBytes, if_neg fitsLarge]
          exact .inl rfl

/-! ## Pieces in a buffer -/

/-- What is left of a long text in a buffer with less room.  It starts with as much of the long text
as fits.  It may go on behind the cut, by fewer bytes than the character takes that was cut off, and
then it is no beginning of the long text any more. -/
structure CutShort (room : Nat) (long short : Text) : Prop where
  within : bytes short ≤ room
  starts : takeBytes room long <+: short
  whole : bytes long ≤ room → short = long
  beyond : ∀ c rest, long = takeBytes room long ++ c :: rest →
    bytes short < bytes (takeBytes room long) + c.utf8Size
  isPrefix_iff : short <+: long ↔ short = takeBytes room long

theorem CutShort.of_starts {room : Nat} {long short : Text} (within : bytes short ≤ room)
    (starts : takeBytes room long <+: short) (whole : bytes long ≤ room → short = long) :
    CutShort room long short where
  within := within
  starts := starts
  whole := whole
  beyond := by
    intro c rest cut
    have wide := lt_of_cut cut
    omega
  isPrefix_iff := by
    constructor
    · intro part
      have kept := isPrefix_takeBytes_of_bytes_le part within
      exact kept.eq_of_length (Nat.le_antisymm kept.length_le starts.length_le)
    · intro same
      rw [same]
      exact takeBytes_prefix room long

theorem takeBytes_fit_isPrefix {small large : Nat} (smaller : small ≤ large)
    (pieces : List Text) : takeBytes small (fit large pieces) <+: fit small pieces := by
  induction pieces generalizing small large with
  | nil => exact List.prefix_rfl
  | cons piece later ih =>
      rw [fit, fit]
      rcases takeBytes_of_le smaller piece with same | ⟨-, behind⟩
      · have fits := bytes_takeBytes_le small piece
        rw [← same, takeBytes_append_of_bytes_le fits, List.prefix_append_right_inj]
        exact ih (by omega)
      · rw [behind]
        exact List.prefix_append ..

theorem fit_eq_of_bytes_le {small large : Nat} (smaller : small ≤ large) {pieces : List Text}
    (fits : bytes (fit large pieces) ≤ small) : fit small pieces = fit large pieces := by
  induction pieces generalizing small large with
  | nil => rfl
  | cons piece later ih =>
      rw [fit, bytes_append] at fits
      rw [fit, fit]
      rcases takeBytes_of_le smaller piece with same | ⟨short, -⟩
      · rw [← same] at fits ⊢
        rw [@ih (small - bytes (takeBytes small piece)) (large - bytes (takeBytes small piece))
          (by omega) (by omega)]
      · omega

theorem cutShort_fit {small large : Nat} (smaller : small ≤ large) (pieces : List Text) :
    CutShort small (fit large pieces) (fit small pieces) :=
  .of_starts (bytes_fit_le small pieces) (takeBytes_fit_isPrefix smaller pieces)
    (fit_eq_of_bytes_le smaller)

theorem cutShort_flatten (room : Nat) (pieces : List Text) :
    CutShort room pieces.flatten (fit room pieces) := by
  have whole : fit (max room (bytes pieces.flatten)) pieces = pieces.flatten :=
    fit_of_bytes_le (Nat.le_max_right ..)
  rw [← whole]
  exact cutShort_fit (Nat.le_max_left ..) pieces

end Text

open Text

/-! ## Locks -/

/-- What is compiled or shown with a smaller buffer is what is with a longer one, cut short: it
starts with all that fits, and it is a beginning of the longer text exactly if nothing is written
behind the cut. -/
theorem cutShort_of_smaller_buffer {small large : Nat} (smaller : small ≤ large) :
    (∀ (compiler : Compiler) (text : Text) (short long : CompiledLock),
      compiler.compile text small = .ok short → compiler.compile text large = .ok long →
        CutShort (small - 1) long.text short.text) ∧
    ∀ (decompiler : Decompiler) (text : Text),
      CutShort (small - 1) (decompiler.decompile text large) (decompiler.decompile text small) := by
  have rooms : small - 1 ≤ large - 1 := Nat.sub_le_sub_right smaller 1
  constructor
  · intro compiler text short long shortCompiles longCompiles
    rw [Compiler.text_of_compile shortCompiles, Compiler.text_of_compile longCompiles]
    exact cutShort_fit rooms _
  · intro decompiler text
    rw [Decompiler.decompile, Decompiler.decompile, Decompiler.items_eq_fit,
      Decompiler.items_eq_fit]
    exact cutShort_fit rooms _

/-- A bar finds room behind the cut of a pattern, so the shorter lock is no beginning of the longer. -/
theorem cutShort_of_smaller_buffer_wide :
    let compiler : Compiler := ⟨.ofPlayer ['p'], (World.ofPlayer ['p']).matcher, .system⟩
    let decompiler : Decompiler := ⟨.ofPlayer ['p'], (World.ofPlayer ['p']).matcher, .system⟩
    CutShort 5 "sex:é|#0".toList "sex:|".toList ∧ CutShort 5 "sex:é|p".toList "sex:|".toList ∧
      compiler.compile "sex:é|p".toList 6 = .ok ⟨"sex:|".toList, []⟩ ∧
        decompiler.decompile "sex:é|#0".toList 6 = "sex:|".toList ∧
          ¬ "sex:|".toList <+: "sex:é|#0".toList := by
  intro compiler decompiler
  have short : compiler.compile "sex:é|p".toList 6 = .ok ⟨"sex:|".toList, []⟩ := rfl
  have long : compiler.compile "sex:é|p".toList 16 = .ok ⟨"sex:é|#0".toList, []⟩ := rfl
  have shortShown : decompiler.decompile "sex:é|#0".toList 6 = "sex:|".toList := by decide +kernel
  have longShown : decompiler.decompile "sex:é|#0".toList 16 = "sex:é|p".toList := by
    decide +kernel
  obtain ⟨compiles, shows⟩ := @cutShort_of_smaller_buffer 6 16 (by decide)
  have shown := shows decompiler "sex:é|#0".toList
  rw [shortShown, longShown] at shown
  exact ⟨compiles compiler _ _ _ short long, shown, short, shortShown, by decide +kernel⟩

end WorldLocks
