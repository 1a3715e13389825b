/-! Laws of computations that may fail. -/

set_option autoImplicit false

namespace WorldLocks

theorem bind_eq_ok {ε α β : Type} {first : Except ε α} {later : α → Except ε β} {result : β} :
    (first >>= later) = .ok result ↔ ∃ value, first = .ok value ∧ later value = .ok result := by
  cases first with
  | error error => simp [bind, Except.bind]
  | ok value => simp [bind, Except.bind]

theorem map_eq_ok {ε α β : Type} {first : Except ε α} {change : α → β} {result : β} :
    first.map change = .ok result ↔ ∃ value, first = .ok value ∧ change value = result := by
  cases first <;> simp [Except.map]

/-- What every step of a fold keeps holds after the fold, if no step fails. -/
theorem foldlM_invariant {ε α β : Type} (holds : β → Prop) {step : β → α → Except ε β}
    {items : List α} {first last : β}
    (keeps : ∀ state, ∀ item ∈ items, ∀ next, holds state → step state item = .ok next → holds next)
    (before : holds first) (run : items.foldlM step first = .ok last) : holds last := by
  induction items generalizing first with
  | nil =>
      obtain rfl := Except.ok.inj run
      exact before
  | cons item items ih =>
      rw [List.foldlM_cons] at run
      obtain ⟨next, stepped, rest⟩ := bind_eq_ok.mp run
      exact ih (fun state later member => keeps state later (by simp [member]))
        (keeps first item (by simp) next before stepped) rest

/-- As `foldlM_invariant`, for what depends on how far a fold over numbered items has come. -/
theorem foldlM_zipIdx_invariant {ε α β : Type} (holds : Nat → β → Prop)
    {step : β → α × Nat → Except ε β} {items : List α} {start : Nat} {first last : β}
    (keeps : ∀ state item index next, index < start + items.length → holds index state →
      step state (item, index) = .ok next → holds (index + 1) next)
    (before : holds start first) (run : (items.zipIdx start).foldlM step first = .ok last) :
    holds (start + items.length) last := by
  induction items generalizing start first with
  | nil =>
      obtain rfl := Except.ok.inj run
      exact before
  | cons item items ih =>
      rw [List.zipIdx_cons, List.foldlM_cons] at run
      obtain ⟨next, stepped, rest⟩ := bind_eq_ok.mp run
      rw [List.length_cons, Nat.add_comm items.length 1, ← Nat.add_assoc] at keeps ⊢
      refine ih keeps ?_ rest
      exact keeps first item start next (by omega) before stepped

end WorldLocks
