import WorldLocks.Proofs.Parts.Patterns
import WorldLocks.Proofs.Parts.Truncation

/-! The objects of a lock that is cut off.  A word that ends before the cut is read as in the whole
lock, so it still is the number of an object that was found, and so it is if it ends just at the
cut.  Otherwise the last word before the cut may have lost digits, and then it means another object
or none. -/

set_option autoImplicit false

namespace WorldLocks

open Cursor LockPart Text

/-! ## Words before a cut -/

theorem split_at_object {first second before after : List LockPart} {word : Text}
    (same : first ++ second = before ++ object word :: after) :
    (∃ later, first = before ++ object word :: later) ∨
      ∃ inner, before = first ++ inner ∧ second = inner ++ object word :: after :=
  @split_of_object first [] second before after word same (by simp)

namespace Phase

variable {phase : Phase} {word : Text} {before after : List LockPart}

theorem length_le_of_copy {first : Text} {rest : List LockPart}
    (same : copy first ++ rest = before ++ object word :: after) :
    first.length ≤ (textOf before ++ word).length := by
  rcases List.append_eq_append_iff.mp same with ⟨inner, rfl, -⟩ | ⟨inner, copies, tail⟩
  · rw [textOf_append, textOf_copy, List.append_assoc, List.length_append]
    exact Nat.le_add_right ..
  · cases inner with
    | nil =>
        rw [List.append_nil] at copies
        rw [← copies, textOf_copy, List.length_append]
        exact Nat.le_add_right ..
    | cons part inner =>
        obtain ⟨rfl, -⟩ := List.cons.inj tail
        exact absurd (by simp [copies]) (object_not_mem_copy word first)

theorem length_le_of_object {first : Text} {rest : List LockPart}
    (same : object first :: rest = before ++ object word :: after) :
    first.length ≤ (textOf before ++ word).length := by
  cases before with
  | nil =>
      obtain ⟨here, -⟩ := List.cons.inj same
      rw [LockPart.object.inj here]
      exact Nat.le_refl _
  | cons part before =>
      obtain ⟨rfl, -⟩ := List.cons.inj same
      rw [textOf_cons, List.append_assoc, List.length_append]
      exact Nat.le_add_right ..

theorem length_le_of_alone {first : Text} {rest : List LockPart}
    (same : alone first ++ rest = before ++ object word :: after) :
    first.length ≤ (textOf before ++ word).length := by
  by_cases call : '[' ∈ first
  · rw [alone_of_mem call] at same
    exact length_le_of_copy same
  · rw [alone_of_not_mem call] at same
    exact length_le_of_object same

/-- The first word that is looked up takes in all that is pending. -/
theorem length_pending_le {text : Text} (same : cut phase text = before ++ object word :: after) :
    phase.pending.length ≤ (textOf before ++ word).length := by
  induction text generalizing phase with
  | nil =>
      cases phase with
      | subject first inCall =>
          rw [cut_nil, ← List.append_nil (finish _)] at same
          exact length_le_of_alone same
      | start | attr _ | pattern _ | behind => exact Nat.zero_le _
  | cons c rest ih =>
      cases phase with
      | subject first inCall =>
          rw [cut_cons] at same
          simp only [next, subjectNext] at same
          split at same
          · split at same
            · rw [List.append_assoc] at same
              exact length_le_of_copy same
            · split at same
              · exact length_le_of_object same
              · rw [List.append_assoc] at same
                exact length_le_of_alone same
          · have longer := ih same
            rw [pending, List.length_append] at longer
            exact Nat.le_of_add_right_le longer
      | start | attr _ | pattern _ | behind => exact Nat.zero_le _

/-- A word that ends before a place in the text is read before that place. -/
theorem scan_of_length_lt {first second : Text}
    (same : cut phase (first ++ second) = before ++ object word :: after)
    (early : (textOf before ++ word).length < (phase.pending ++ first).length) :
    ∃ later, (scan phase first).1 = before ++ object word :: later := by
  rw [cut_append] at same
  rcases split_at_object same with found | ⟨inner, rfl, behind⟩
  · exact found
  · have reaches := length_pending_le behind
    rw [← textOf_scan] at early
    simp only [textOf_append, List.length_append] at early reaches
    omega

/-! ## Words at a cut -/

/-- Whether a call that the scan stands in was opened in the word so far. -/
def Opened : Phase → Prop
  | subject word true => '[' ∈ word
  | _ => True

theorem opened_subjectNext {first : Text} {inCall : Bool} (opened : (subject first inCall).Opened)
    (c : Char) : (subjectNext first inCall c).2.Opened := by
  unfold subjectNext
  split
  · split
    · trivial
    · split <;> trivial
  · dsimp only
    cases within : callAfter inCall c with
    | false => trivial
    | true =>
        cases inCall with
        | true => exact List.mem_append_left [c] opened
        | false =>
            obtain rfl : c = '[' := by simpa [callAfter] using within
            exact List.mem_append_right first List.mem_cons_self

theorem opened_startNext (c : Char) : (startNext c).2.Opened := by
  unfold startNext
  split
  · trivial
  · exact @opened_subjectNext [] false trivial c

theorem opened_next (opened : phase.Opened) (c : Char) : (phase.next c).2.Opened := by
  cases phase with
  | start => exact opened_startNext c
  | subject first inCall => exact opened_subjectNext opened c
  | attr inCall =>
      rw [next]
      split
      · split <;> trivial
      · trivial
  | pattern inCall =>
      rw [next]
      split <;> trivial
  | behind =>
      rw [next]
      split
      · trivial
      · exact opened_startNext c

theorem opened_scan (opened : phase.Opened) (text : Text) : (scan phase text).2.Opened := by
  induction text generalizing phase with
  | nil => exact opened
  | cons c rest ih => exact ih (opened_next opened c)

/-- A word at the end of a text is the same word if a mark follows that ends words. -/
theorem cut_of_finish (opened : phase.Opened) (present : word ≠ [])
    (finishes : phase.finish = before ++ object word :: after) {c : Char}
    (marked : isRightMark c = true) (notColon : c ≠ ':') (rest : Text) :
    ∃ later, cut phase (c :: rest) = before ++ object word :: later := by
  have member : object word ∈ phase.finish := by simp [finishes]
  cases phase with
  | start => exact absurd (by simpa [finish, alone] using member) present
  | subject first inCall =>
      by_cases call : '[' ∈ first
      · rw [finish, alone_of_mem call] at member
        exact absurd member (object_not_mem_copy word first)
      · rw [finish, alone_of_not_mem call] at finishes
        obtain ⟨rfl, here⟩ : before = [] ∧ object first = object word := by
          cases before with
          | nil => exact ⟨rfl, (List.cons.inj finishes).1⟩
          | cons part before => simp at finishes
        obtain rfl := LockPart.object.inj here
        cases inCall with
        | true => exact absurd opened call
        | false =>
            have ended : ends false c = true := by simp [ends, marked]
            rw [cut_cons, next, subjectNext, if_pos ended, if_neg notColon]
            split
            · exact ⟨_, rfl⟩
            · rw [alone_of_not_mem call]
              exact ⟨_, rfl⟩
  | attr inCall => simp [finish] at member
  | pattern inCall => cases member
  | behind => cases member

end Phase

namespace Compiler

variable {compiler : Compiler} {text : Text} {bufferLen : Nat} {compiled : CompiledLock}

/-! ## The whole lock -/

/-- What a lock is compiled to if there is room for all of it, up to the first word that is
refused. -/
def unbounded (compiler : Compiler) (text : Text) : Text :=
  (compiler.pushes (LockItem.ofText text)).flatten

theorem exists_write_pushes (compiler : Compiler) (items : List LockItem) :
    ∃ seen, seen <+: items.flatMap LockItem.parts ∧
      compiler.write seen = .ok (compiler.pushes items).flatten := by
  induction items with
  | nil => exact ⟨[], List.nil_prefix, rfl⟩
  | cons item later ih =>
      cases subjectDone : compiler.subject item.subject with
      | error error =>
          refine ⟨copy item.left, ?_, ?_⟩
          · rw [List.flatMap_cons, LockItem.parts, List.append_assoc, List.append_assoc]
            exact List.prefix_append ..
          · simp [pushes, subjectDone]
      | ok subject =>
          obtain ⟨seen, part, written⟩ := ih
          refine ⟨item.parts ++ seen, ?_, ?_⟩
          · rw [List.flatMap_cons, List.prefix_append_right_inj]
            exact part
          · refine write_append_eq_ok.mpr ⟨_, _, write_item subjectDone, written, ?_⟩
            simp [pushes, subjectDone]

/-- What a word is replaced by: its number, or a number that no object has. -/
def replacement (compiler : Compiler) (word : Text) : Text :=
  match compiler.objectOf ⟨word⟩ with
  | .ok target => target.literal
  | .error _ => Dbref.nothing.literal

theorem isObjectWord_replacement (compiler : Compiler) (word : Text) :
    IsObjectWord (compiler.replacement word) := by
  unfold replacement
  split
  · exact isObjectWord_literal _
  · exact isObjectWord_literal _

theorem textOf_replaced {parts : List LockPart} {written : Text}
    (writes : compiler.write parts = .ok written) :
    textOf (parts.map (rename compiler.replacement)) = written := by
  obtain ⟨⟨-, objects⟩, rfl⟩ := write_eq_ok.mp writes
  refine congrArg textOf (List.map_congr_left fun part member => ?_)
  cases part with
  | object word =>
      obtain ⟨target, found⟩ := objects word member
      simp [rename, replacement, numberOf, found]
  | copied c | noPattern => rfl

/-! ## References -/

/-- Whether a word is the number of an object that the matcher finds for a word of the lock. -/
def Refers (compiler : Compiler) (text word : Text) : Prop :=
  ∃ original target, object original ∈ lockParts text ∧
    compiler.matcher compiler.actor (Text.trim original) = .ok (.found target) ∧
      word = target.literal

theorem matcher_of_objectOf {word : Text} {target : Dbref}
    (found : compiler.objectOf ⟨word⟩ = .ok target) :
    compiler.matcher compiler.actor (Text.trim word) = .ok (.found target) := by
  unfold objectOf at found
  dsimp only at found
  split at found
  · next object matched =>
    obtain rfl := Except.ok.inj found
    exact matched
  · cases found
  · cases found
  · cases found

theorem refers_of_write {parts : List LockPart} {written word : Text}
    (part : parts <+: lockParts text) (writes : compiler.write parts = .ok written)
    (member : object word ∈ parts.map (rename compiler.replacement)) :
    compiler.Refers text word := by
  obtain ⟨⟨-, objects⟩, -⟩ := write_eq_ok.mp writes
  obtain ⟨original, present, rfl⟩ := object_mem_map_rename.mp member
  obtain ⟨target, found⟩ := objects original present
  refine ⟨original, target, part.subset present, matcher_of_objectOf found, ?_⟩
  simp [replacement, found]

/-- What is left of the objects of a lock in the compiled text: a word that ends before the place
where something was cut off is the number of an object that was found, and so is one that ends there
as a word, and every word if nothing was cut off. -/
structure KeepsReferences (compiler : Compiler) (text : Text) (bufferLen : Nat)
    (compiled : Text) : Prop where
  cut : CutShort (bufferLen - 1) (compiler.unbounded text) compiled
  present : 2 ≤ bufferLen → ∃ c rest, compiler.unbounded text = c :: rest ∧
    (c.utf8Size < bufferLen → compiled ≠ [])
  before_cut : ∀ before word after, lockParts compiled = before ++ object word :: after →
    (textOf before ++ word).length <
        (takeBytes (bufferLen - 1) (compiler.unbounded text)).length →
      compiler.Refers text word
  at_cut : ∀ before word after c rest, lockParts compiled = before ++ object word :: after →
    textOf before ++ word = takeBytes (bufferLen - 1) (compiler.unbounded text) → word ≠ [] →
    compiler.unbounded text = (textOf before ++ word) ++ c :: rest →
    isRightMark c = true → c ≠ ':' → compiler.Refers text word
  whole : compiler.Untruncated text bufferLen →
    ∀ word, object word ∈ lockParts compiled → compiler.Refers text word

theorem cutShort_of_compile (compiles : compiler.compile text bufferLen = .ok compiled) :
    CutShort (bufferLen - 1) (compiler.unbounded text) compiled.text := by
  rw [text_of_compile compiles]
  exact cutShort_flatten ..

theorem exists_unbounded_eq_cons (nonempty : text ≠ [])
    (compiles : compiler.compile text bufferLen = .ok compiled) (room : 2 ≤ bufferLen) :
    ∃ c rest, compiler.unbounded text = c :: rest := by
  refine List.exists_cons_of_ne_nil fun nothing => nonempty ?_
  unfold compile at compiles
  split at compiles
  · have spare : bytes (compiler.unbounded text) < bufferLen - 1 := by
      rw [nothing, bytes_nil]
      omega
    have writes : compiler.write (lockParts text) = .ok (compiler.unbounded text) :=
      write_of_pushes compiles spare
    have parts := lockParts_of_write writes
    rw [nothing] at parts
    rw [← textOf_lockParts text, List.map_eq_nil_iff.mp parts.symm, textOf_nil]
  · cases compiles

theorem ne_nil_of_cutShort {c : Char} {rest compiled : Text} (room : c.utf8Size < bufferLen)
    (cut : CutShort (bufferLen - 1) (c :: rest) compiled) : compiled ≠ [] := by
  rintro rfl
  have starts := cut.starts
  rw [takeBytes, if_pos (Nat.le_sub_one_of_lt room)] at starts
  exact absurd starts.length_le (Nat.not_succ_le_zero _)

/-- A word that is read in the whole lock, before the first word that is refused. -/
theorem refers_of_unbounded (before : List LockPart) {word kept tail : Text}
    (uncut : compiler.unbounded text = kept ++ tail)
    (reads : ∀ behind, ∃ after,
      Phase.cut .start (kept ++ (tail ++ behind)) = before ++ object word :: after)
    (early : (textOf before).length < (kept ++ tail).length) : compiler.Refers text word := by
  obtain ⟨seen, ⟨rest, split⟩, written⟩ :=
    compiler.exists_write_pushes (LockItem.ofText text)
  change seen ++ rest = lockParts text at split
  change compiler.write seen = .ok (compiler.unbounded text) at written
  rw [uncut] at written
  have renamed := lockParts_rename fun word (_ : object word ∈ lockParts text) =>
    compiler.isObjectWord_replacement word
  have whole : textOf ((lockParts text).map (rename compiler.replacement)) =
      kept ++ (tail ++ textOf (rest.map (rename compiler.replacement))) := by
    rw [← split, List.map_append, textOf_append, textOf_replaced written, List.append_assoc]
  obtain ⟨after, same⟩ := reads (textOf (rest.map (rename compiler.replacement)))
  have present : kept ++ (tail ++ textOf (rest.map (rename compiler.replacement))) ≠ [] := by
    rw [← List.append_assoc]
    refine List.append_ne_nil_of_left_ne_nil (List.ne_nil_of_length_pos ?_) _
    omega
  rw [whole, Phase.lockParts_eq_cut present, same, ← split, List.map_append] at renamed
  rcases split_at_object renamed.symm with ⟨_, found⟩ | ⟨inner, rfl, -⟩
  · refine refers_of_write ⟨rest, split⟩ written ?_
    rw [found]
    simp
  · rw [textOf_append, textOf_replaced written, List.length_append] at early
    omega

theorem refers_before_cut (compiles : compiler.compile text bufferLen = .ok compiled)
    {before after : List LockPart} {word : Text}
    (parts : lockParts compiled.text = before ++ object word :: after)
    (early : (textOf before ++ word).length <
      (takeBytes (bufferLen - 1) (compiler.unbounded text)).length) :
    compiler.Refers text word := by
  obtain ⟨behind, same⟩ := (cutShort_of_compile compiles).starts
  obtain ⟨tail, uncut⟩ := takeBytes_prefix (bufferLen - 1) (compiler.unbounded text)
  generalize takeBytes (bufferLen - 1) (compiler.unbounded text) = kept at early same uncut
  have present : kept ≠ [] := by
    rintro rfl
    exact absurd early (Nat.not_lt_zero _)
  rw [← same, Phase.lockParts_eq_cut (by simp [present])] at parts
  -- The word is read before the cut, so it is read there in the whole lock too.
  obtain ⟨later, inKept⟩ := Phase.scan_of_length_lt parts early
  refine refers_of_unbounded before uncut.symm (fun behind => ?_) ?_
  · rw [Phase.cut_append, inKept, List.append_assoc]
    exact ⟨_, rfl⟩
  · rw [List.length_append] at early ⊢
    omega

theorem refers_at_cut (compiles : compiler.compile text bufferLen = .ok compiled)
    {before after : List LockPart} {word rest : Text} {c : Char}
    (parts : lockParts compiled.text = before ++ object word :: after)
    (ends : textOf before ++ word = takeBytes (bufferLen - 1) (compiler.unbounded text))
    (present : word ≠ [])
    (uncut : compiler.unbounded text = (textOf before ++ word) ++ c :: rest)
    (marked : isRightMark c = true) (notColon : c ≠ ':') : compiler.Refers text word := by
  have cut := cutShort_of_compile compiles
  -- The mark takes one byte and did not fit, so nothing is written behind the cut.
  have size : c.utf8Size = 1 := by
    simp only [isRightMark, Bool.or_eq_true, beq_iff_eq] at marked
    rcases marked with ((((rfl | rfl) | rfl) | rfl) | rfl) | rfl <;> rfl
  obtain ⟨behind, same⟩ := cut.starts
  have full := cut.beyond c rest (by rw [← ends]; exact uncut)
  rw [← same, bytes_append, size] at full
  have nothing : behind = [] := eq_nil_of_bytes (by omega)
  rw [nothing, List.append_nil, ← ends] at same
  rw [← same, Phase.lockParts_eq_cut (by simp [present])] at parts
  refine refers_of_unbounded before uncut (fun behind => ?_) ?_
  · rcases split_at_object parts with ⟨later, inside⟩ | ⟨inner, split, finishes⟩
    · rw [Phase.cut_append, inside, List.append_assoc]
      exact ⟨_, rfl⟩
    · obtain ⟨later, reads⟩ := Phase.cut_of_finish (@Phase.opened_scan .start trivial _) present
        finishes marked notColon (rest ++ behind)
      rw [Phase.cut_append, List.cons_append, reads, ← List.append_assoc, ← split]
      exact ⟨_, rfl⟩
  · simp only [List.length_append, List.length_cons]
    omega

/-- Compiling keeps the objects of a lock up to the place where its text is cut off. -/
theorem keepsReferences_of_compile (nonempty : text ≠ [])
    (compiles : compiler.compile text bufferLen = .ok compiled) :
    compiler.KeepsReferences text bufferLen compiled.text where
  cut := cutShort_of_compile compiles
  present := by
    intro room
    obtain ⟨c, rest, whole⟩ := exists_unbounded_eq_cons nonempty compiles room
    have cut := cutShort_of_compile compiles
    rw [whole] at cut
    exact ⟨c, rest, whole, fun fits => ne_nil_of_cutShort fits cut⟩
  before_cut _ _ _ parts early := refers_before_cut compiles parts early
  at_cut _ _ _ _ _ parts ends present uncut marked notColon :=
    refers_at_cut compiles parts ends present uncut marked notColon
  whole := by
    intro untruncated word member
    have writes := write_of_untruncated compiles untruncated
    have replaced := textOf_replaced writes
    rw [← replaced, lockParts_rename fun word _ => compiler.isObjectWord_replacement word] at member
    exact refers_of_write List.prefix_rfl writes member

end Compiler

/-- A world of some players who are called `p`. -/
def World.ofPlayers (count : Nat) : World :=
  (List.range count).foldl (fun world _ => (world.create ['p'] .player .nothing .nothing).2)
    (World.new {} 0)

/-- The first of two numbers of two digits is whole and the second is cut off. -/
theorem Compiler.keepsReferences_of_compile_players :
    let compiler : Compiler := ⟨.ofPlayers 11, (World.ofPlayers 11).matcher, ⟨10⟩⟩
    compiler.compile "me|me".toList 6 = .ok ⟨"#10|#".toList, []⟩ ∧
      compiler.KeepsReferences "me|me".toList 6 "#10|#".toList ∧
        compiler.Refers "me|me".toList "#10".toList := by
  intro compiler
  have compiles : compiler.compile "me|me".toList 6 = .ok ⟨"#10|#".toList, []⟩ := by
    decide +kernel
  have keeps := Compiler.keepsReferences_of_compile (by decide) compiles
  refine ⟨compiles, keeps, ?_⟩
  exact keeps.before_cut [] "#10".toList [copied '|', object ['#']] (by decide +kernel)
    (by decide +kernel)

/-- A number that is cut off may be the number of another object. -/
theorem Compiler.not_refers_of_cut :
    ¬ ∀ (compiler : Compiler) (text : Text) (bufferLen : Nat) (compiled : CompiledLock),
      compiler.world.isValid compiler.actor → text ≠ [] →
      compiler.compile text bufferLen = .ok compiled →
      compiled.text ≠ [] ∧
        ∀ word number, object word ∈ lockParts compiled.text →
          Decompiler.numbered? (Text.trim word) = some number →
          ∃ original, object original ∈ lockParts text ∧
            compiler.matcher compiler.actor (Text.trim original) = .ok (.found number) := by
  intro claim
  obtain ⟨-, numbers⟩ := claim ⟨.ofPlayers 11, (World.ofPlayers 11).matcher, ⟨10⟩⟩
    "me".toList 3 ⟨"#1".toList, []⟩ (by decide +kernel) (by decide) (by decide +kernel)
  obtain ⟨original, member, matched⟩ :=
    numbers "#1".toList ⟨1⟩ (by decide +kernel) (by decide +kernel)
  have parts : lockParts "me".toList = [object "me".toList] := by decide +kernel
  rw [parts, List.mem_singleton] at member
  obtain rfl := LockPart.object.inj member
  have found : (World.ofPlayers 11).matcher ⟨10⟩ (Text.trim "me".toList) = .ok (.found ⟨10⟩) := by
    decide +kernel
  exact absurd (Except.ok.inj (found.symm.trans matched)) (by decide)

end WorldLocks
