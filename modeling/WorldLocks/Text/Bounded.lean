import WorldLocks.Text.Basic

/-!
# Bounded writing

Pieces are written one after the other into a buffer with room for some bytes.  A piece that does
not fit is cut between characters, and a later, smaller piece may still go behind the cut.
-/

set_option autoImplicit false

namespace WorldLocks.Text

def fit : (room : Nat) → (pieces : List Text) → Text
  | _, [] => []
  | room, piece :: later =>
    let written := takeBytes room piece
    written ++ fit (room - bytes written) later

def roomAfter (room : Nat) (written : Text) : Nat := room - bytes written

theorem bytes_fit_le (room : Nat) (pieces : List Text) : bytes (fit room pieces) ≤ room := by
  induction pieces generalizing room with
  | nil => simp [fit]
  | cons piece later ih =>
    have first := bytes_takeBytes_le room piece
    have rest := ih (room - bytes (takeBytes room piece))
    simp only [fit, bytes_append]
    omega

theorem fit_of_bytes_le {room : Nat} {pieces : List Text} (fits : bytes pieces.flatten ≤ room) :
    fit room pieces = pieces.flatten := by
  induction pieces generalizing room with
  | nil => rfl
  | cons piece later ih =>
    simp only [List.flatten_cons, bytes_append] at fits
    have whole : takeBytes room piece = piece := takeBytes_of_bytes_le (by omega)
    have rest : bytes later.flatten ≤ room - bytes piece := by omega
    simp [fit, whole, ih rest]

end WorldLocks.Text
