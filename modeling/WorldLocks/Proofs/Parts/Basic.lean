import Mathlib.Tactic.SplitIfs
import WorldLocks.Lock.Item
import WorldLocks.Proofs.Cursor

/-! Locks cut into parts.  The compiler and the decompiler look up some words of a lock and copy
everything else, so to them a lock is a list of characters that are copied and words that name
objects.  The items of a lock have such parts; a scan from left to right with a few phases finds the
same parts character by character, and the scan of a text is made of the scans of its pieces. -/

set_option autoImplicit false

namespace WorldLocks

open Cursor

/-! ## Parts -/

/-- A part of a lock. -/
inductive LockPart where
  | copied (c : Char)
  | object (word : Text)
  /-- The end of an attribute of an object that has no pattern. -/
  | noPattern
  deriving DecidableEq, Repr

namespace LockPart

def text : LockPart → Text
  | copied c => [c]
  | object word => word
  | noPattern => []

def textOf (parts : List LockPart) : Text := parts.flatMap text

/-- The characters of a text, all copied. -/
def copy (text : Text) : List LockPart := text.map copied

/-- A word that stands alone: a function call is copied, and any other word names an object. -/
def alone (word : Text) : List LockPart :=
  if word.contains '[' then copy word else [object word]

/-- A part with the name of its object replaced. -/
def rename (names : Text → Text) : LockPart → LockPart
  | object word => object (names word)
  | part => part

@[simp] theorem copy_nil : copy [] = [] := rfl

@[simp] theorem copy_cons (c : Char) (rest : Text) : copy (c :: rest) = copied c :: copy rest := rfl

@[simp] theorem copy_append (first second : Text) :
    copy (first ++ second) = copy first ++ copy second := List.map_append

@[simp] theorem textOf_nil : textOf [] = [] := rfl

@[simp] theorem textOf_cons (part : LockPart) (parts : List LockPart) :
    textOf (part :: parts) = part.text ++ textOf parts := rfl

@[simp] theorem textOf_append (first second : List LockPart) :
    textOf (first ++ second) = textOf first ++ textOf second := List.flatMap_append

@[simp] theorem textOf_copy (written : Text) : textOf (copy written) = written := by
  induction written with
  | nil => rfl
  | cons c rest ih => simp [ih, text]

theorem alone_of_mem {word : Text} (call : '[' ∈ word) : alone word = copy word := by
  simp [alone, call]

theorem alone_of_not_mem {word : Text} (noCall : '[' ∉ word) : alone word = [object word] := by
  simp [alone, noCall]

@[simp] theorem textOf_alone (word : Text) : textOf (alone word) = word := by
  unfold alone
  split
  · exact textOf_copy word
  · simp [text]

@[simp] theorem map_rename_copy (names : Text → Text) (written : Text) :
    (copy written).map (rename names) = copy written := by
  simp [copy, rename]

@[simp] theorem noPattern_mem_map_rename {names : Text → Text} {parts : List LockPart} :
    noPattern ∈ parts.map (rename names) ↔ noPattern ∈ parts := by
  rw [List.mem_map]
  constructor
  · rintro ⟨part, member, same⟩
    cases part with
    | noPattern => exact member
    | copied c => cases same
    | object word => cases same
  · exact fun member => ⟨noPattern, member, rfl⟩

theorem object_mem_map_rename {names : Text → Text} {parts : List LockPart} {word : Text} :
    object word ∈ parts.map (rename names) ↔ ∃ first, object first ∈ parts ∧ names first = word := by
  rw [List.mem_map]
  constructor
  · rintro ⟨part, member, same⟩
    cases part with
    | object first => exact ⟨first, member, LockPart.object.inj same⟩
    | copied c => cases same
    | noPattern => cases same
  · rintro ⟨first, member, rfl⟩
    exact ⟨object first, member, rfl⟩

@[simp] theorem object_not_mem_copy (word written : Text) : object word ∉ copy written := by
  simp [copy]

end LockPart

open LockPart

def Subject.parts : Subject → List LockPart
  | test name pattern => copy (name.text ++ ':' :: pattern.text)
  | dotted target name none => object target.text :: copy ('.' :: name.text) ++ [noPattern]
  | dotted target name (some pattern) =>
    object target.text :: copy ('.' :: name.text ++ ':' :: pattern.text)
  | plain word => alone word.text

def LockItem.parts (item : LockItem) : List LockPart :=
  copy item.left ++ item.subject.parts ++ copy item.right

theorem LockItem.parts_ne_nil (item : LockItem) : item.parts ≠ [] := by
  intro none
  have nothing : item.subject.parts = [] := by
    simp only [LockItem.parts, List.append_eq_nil_iff] at none
    exact none.1.2
  cases subject : item.subject with
  | test name pattern => simp [subject, Subject.parts] at nothing
  | dotted target name pattern =>
      cases pattern <;> simp [subject, Subject.parts] at nothing
  | plain word =>
      have written := textOf_alone word.text
      rw [subject] at nothing
      simp only [Subject.parts] at nothing
      rw [nothing] at written
      rw [← written] at nothing
      simp [alone] at nothing

/-- The parts of a lock. -/
def lockParts (text : Text) : List LockPart := (LockItem.ofText text).flatMap LockItem.parts

/-! ## The scan -/

/-- Where in an item the scan stands.  The words outside of subjects need not be remembered, since
they are copied anyway. -/
inductive Phase where
  /-- Before the subject, where left marks may stand. -/
  | start
  /-- In the first word of the subject, which is known so far. -/
  | subject (word : Text) (inCall : Bool)
  | attr (inCall : Bool)
  | pattern (inCall : Bool)
  /-- Behind the subject, where right marks may stand. -/
  | behind
  deriving DecidableEq, Repr

namespace Phase

def callAfter (inCall : Bool) (c : Char) : Bool := if inCall then c != ']' else c == '['

def ends (inCall : Bool) (c : Char) : Bool := !inCall && isRightMark c

/-- The next character in the first word of a subject: the parts that it completes and the phase
behind it. -/
def subjectNext (word : Text) (inCall : Bool) (c : Char) : List LockPart × Phase :=
  if ends inCall c then
    if c = ':' then (copy word ++ [copied c], pattern false)
    else if c = '.' then ([object word, copied c], attr false)
    else (alone word ++ [copied c], behind)
  else ([], subject (word ++ [c]) (callAfter inCall c))

def startNext (c : Char) : List LockPart × Phase :=
  if isLeftMark c then ([copied c], start) else subjectNext [] false c

def next : Phase → Char → List LockPart × Phase
  | start, c => startNext c
  | subject word inCall, c => subjectNext word inCall c
  | attr inCall, c =>
    if ends inCall c then
      if c = ':' then ([copied c], pattern false) else ([noPattern, copied c], behind)
    else ([copied c], attr (callAfter inCall c))
  | pattern inCall, c =>
    if ends inCall c then ([copied c], behind)
    else ([copied c], pattern (callAfter inCall c))
  | behind, c => if isRightMark c then ([copied c], behind) else startNext c

def finish : Phase → List LockPart
  | start => alone []
  | subject word _ => alone word
  | attr _ => [noPattern]
  | pattern _ | behind => []

/-- The first word of the subject, as far as it is known. -/
def pending : Phase → Text
  | subject word _ => word
  | _ => []

/-- The parts that a text completes and the phase behind it. -/
def scan : Phase → Text → List LockPart × Phase
  | phase, [] => ([], phase)
  | phase, c :: rest =>
    let (parts, later) := phase.next c
    (parts ++ (scan later rest).1, (scan later rest).2)

/-- The parts of a text that ends the lock. -/
def cut (phase : Phase) (text : Text) : List LockPart :=
  (scan phase text).1 ++ (scan phase text).2.finish

@[simp] theorem scan_nil (phase : Phase) : scan phase [] = ([], phase) := rfl

theorem scan_append (phase : Phase) (first second : Text) :
    scan phase (first ++ second) =
      ((scan phase first).1 ++ (scan (scan phase first).2 second).1,
        (scan (scan phase first).2 second).2) := by
  induction first generalizing phase with
  | nil => simp
  | cons c first ih => simp [scan, ih]

@[simp] theorem cut_nil (phase : Phase) : cut phase [] = phase.finish := rfl

theorem cut_cons (phase : Phase) (c : Char) (rest : Text) :
    cut phase (c :: rest) = (phase.next c).1 ++ cut (phase.next c).2 rest := by
  simp [cut, scan]

theorem cut_append (phase : Phase) (first second : Text) :
    cut phase (first ++ second) = (scan phase first).1 ++ cut (scan phase first).2 second := by
  simp [cut, scan_append]

/-- The parts of a text, with the first word of a subject that was begun before it, are the text. -/
theorem textOf_cut (phase : Phase) (text : Text) :
    textOf (cut phase text) = phase.pending ++ text := by
  induction text generalizing phase with
  | nil => cases phase <;> simp [finish, pending, LockPart.text]
  | cons c rest ih =>
      have step : textOf (phase.next c).1 ++ (phase.next c).2.pending = phase.pending ++ [c] := by
        cases phase <;> simp only [next, startNext, subjectNext] <;>
          split_ifs <;> simp [pending, LockPart.text]
      rw [cut_cons, textOf_append, ih, ← List.append_assoc, step, List.append_assoc]
      rfl

theorem textOf_finish (phase : Phase) : textOf phase.finish = phase.pending := by
  have written := textOf_cut phase []
  rwa [cut_nil, List.append_nil] at written

theorem textOf_scan (phase : Phase) (text : Text) :
    textOf (scan phase text).1 ++ (scan phase text).2.pending = phase.pending ++ text := by
  rw [← textOf_finish, ← textOf_append, ← textOf_cut]
  rfl

/-! ## Items and the scan -/

/-- Whether the next character, if there is one, is a right mark. -/
def Faces (marked : Bool) (ahead : Text) : Prop := ∀ c ∈ ahead.head?, isRightMark c = marked

theorem cut_left (marks : Text) (left : ∀ c ∈ marks, isLeftMark c) (rest : Text) :
    cut start (marks ++ rest) = copy marks ++ cut start rest := by
  induction marks with
  | nil => rfl
  | cons c marks ih =>
      have here : isLeftMark c := left c (by simp)
      rw [List.cons_append, cut_cons]
      simp [next, startNext, here, ih fun c member => left c (by simp [member])]

theorem cut_right (marks : Text) (right : ∀ c ∈ marks, isRightMark c) (rest : Text) :
    cut behind (marks ++ rest) = copy marks ++ cut behind rest := by
  induction marks with
  | nil => rfl
  | cons c marks ih =>
      have here : isRightMark c := right c (by simp)
      rw [List.cons_append, cut_cons]
      simp [next, here, ih fun c member => right c (by simp [member])]

theorem cut_behind_of_faces {ahead : Text} (faces : Faces false ahead) (more : ahead ≠ []) :
    cut behind ahead = cut start ahead := by
  cases ahead with
  | nil => exact absurd rfl more
  | cons c rest =>
      have here : isRightMark c = false := faces c (by simp)
      simp [cut_cons, next, here]

/-! ### Words -/

theorem wordFrom_of_ends {inCall : Bool} {c : Char} (ended : ends inCall c) (rest : Text) :
    wordFrom inCall (c :: rest) = ([], c :: rest) := by
  simp only [ends, Bool.and_eq_true, Bool.not_eq_true'] at ended
  obtain ⟨rfl, marked⟩ := ended
  simp [wordFrom, marked]

theorem wordFrom_cons {inCall : Bool} {c : Char} (inside : ends inCall c = false) (rest : Text) :
    wordFrom inCall (c :: rest) =
      (c :: (wordFrom (callAfter inCall c) rest).1, (wordFrom (callAfter inCall c) rest).2) := by
  cases inCall with
  | false =>
      have unmarked : isRightMark c = false := by simpa [ends] using inside
      simp [wordFrom, callAfter, unmarked]
  | true => simp [wordFrom, callAfter]

theorem faces_wordFrom (inCall : Bool) (ahead : Text) : Faces true (wordFrom inCall ahead).2 := by
  induction ahead generalizing inCall with
  | nil => cases inCall <;> simp [wordFrom, Faces]
  | cons c rest ih =>
      cases ended : ends inCall c with
      | true =>
          rw [wordFrom_of_ends ended]
          simp_all [Faces, ends]
      | false =>
          rw [wordFrom_cons ended]
          exact ih _

theorem cut_subject (word : Text) (inCall : Bool) (ahead : Text) :
    cut (subject word inCall) ahead =
      cut (subject (word ++ (wordFrom inCall ahead).1) false) (wordFrom inCall ahead).2 := by
  induction ahead generalizing word inCall with
  | nil => cases inCall <;> simp [wordFrom, finish]
  | cons c rest ih =>
      cases ended : ends inCall c with
      | true =>
          rw [wordFrom_of_ends ended]
          simp only [ends, Bool.and_eq_true, Bool.not_eq_true'] at ended
          simp [ended.1]
      | false =>
          rw [wordFrom_cons ended, cut_cons]
          simp [next, subjectNext, ended, ih]

theorem cut_word {reads : Bool → Phase}
    (finished : ∀ first second, (reads first).finish = (reads second).finish)
    (passes : ∀ inCall c, ends inCall c = false →
      (reads inCall).next c = ([copied c], reads (callAfter inCall c)))
    (inCall : Bool) (ahead : Text) :
    cut (reads inCall) ahead =
      copy (wordFrom inCall ahead).1 ++ cut (reads false) (wordFrom inCall ahead).2 := by
  induction ahead generalizing inCall with
  | nil => cases inCall <;> simp [wordFrom, finished _ false]
  | cons c rest ih =>
      cases ended : ends inCall c with
      | true =>
          rw [wordFrom_of_ends ended]
          simp only [ends, Bool.and_eq_true, Bool.not_eq_true'] at ended
          simp [ended.1]
      | false =>
          rw [wordFrom_cons ended, cut_cons, passes inCall c ended, ih]
          simp

theorem cut_attr (ahead : Text) :
    cut (attr false) ahead = copy (word ahead).1.text ++ cut (attr false) (word ahead).2 :=
  cut_word (fun _ _ => rfl) (fun _ _ inside => by simp [next, inside]) false ahead

theorem cut_pattern (ahead : Text) :
    cut (pattern false) ahead = copy (word ahead).1.text ++ cut behind (word ahead).2 := by
  have read := @cut_word pattern (fun _ _ => rfl) (fun _ _ inside => by simp [next, inside]) false ahead
  rw [read]
  have faces := faces_wordFrom false ahead
  change _ ++ _ = copy (wordFrom false ahead).1 ++ cut behind (wordFrom false ahead).2
  cases rest : (wordFrom false ahead).2 with
  | nil => rfl
  | cons c rest =>
      have marked : isRightMark c = true := faces c (by simp [*])
      simp [cut_cons, next, ends, marked]

/-! ### Subjects and items -/

theorem cut_behind_of_isRightMark {c : Char} (marked : isRightMark c) (rest : Text) :
    cut behind (c :: rest) = copied c :: cut behind rest := by
  simp [cut_cons, next, marked]

theorem cut_attr_of_faces {ahead : Text} (faces : Faces true ahead) (bare : eat? ':' ahead = none) :
    cut (attr false) ahead = noPattern :: cut behind ahead := by
  cases ahead with
  | nil => rfl
  | cons c rest =>
      have marked : isRightMark c = true := faces c (by simp)
      have notColon : c ≠ ':' := by
        rintro rfl
        simp [eat?] at bare
      rw [cut_behind_of_isRightMark marked]
      simp [cut_cons, next, ends, marked, notColon]

theorem cut_subject_read {ahead : Text} (bare : ∀ c ∈ ahead.head?, isLeftMark c = false) :
    cut start ahead = (Subject.read ahead).1.parts ++ cut behind (Subject.read ahead).2 := by
  have begun : cut start ahead = cut (subject [] false) ahead := by
    cases ahead with
    | nil => rfl
    | cons c rest => simp [cut_cons, next, startNext, bare c (by simp)]
  have faces := faces_wordFrom false ahead
  rw [begun, cut_subject, List.nil_append]
  unfold Subject.read word
  generalize wordFrom false ahead = first at faces ⊢
  obtain ⟨first, later⟩ := first
  dsimp only at faces ⊢
  split
  · next later =>
    rw [cut_cons]
    change copy first ++ [copied ':'] ++ cut (pattern false) later = _
    rw [cut_pattern]
    simp [Subject.parts, word]
  · next later =>
    have faces := faces_wordFrom false later
    rw [cut_cons]
    change [object first, copied '.'] ++ cut (attr false) later = _
    rw [cut_attr]
    unfold word
    generalize wordFrom false later = name at faces ⊢
    obtain ⟨name, later⟩ := name
    dsimp only at faces ⊢
    cases colon : eat? ':' later with
    | none => simp [cut_attr_of_faces faces colon, Subject.parts]
    | some later =>
        obtain rfl := eat?_eq_some.mp colon
        rw [cut_cons]
        change _ ++ (copy name ++ ([copied ':'] ++ cut (pattern false) later)) = _
        rw [cut_pattern]
        simp [Subject.parts, word]
  · next notColon notDot =>
    cases later with
    | nil => simp [finish, Subject.parts]
    | cons c later =>
        have marked : isRightMark c = true := faces c (by simp)
        have notColon : c ≠ ':' := fun same => notColon later (by rw [same])
        have notDot : c ≠ '.' := fun same => notDot later (by rw [same])
        rw [cut_behind_of_isRightMark marked]
        simp [cut_cons, next, subjectNext, ends, marked, notColon, notDot, Subject.parts]

theorem cut_item (ahead : Text) :
    cut start ahead = (LockItem.read ahead).1.parts ++ cut behind (LockItem.read ahead).2 := by
  have left := cut_left (ahead.takeWhile isLeftMark)
    (fun c member => List.all_eq_true.mp List.all_takeWhile c member) (ahead.dropWhile isLeftMark)
  rw [List.takeWhile_append_dropWhile, cut_subject_read fun c first => head?_dropWhile first] at left
  have right := cut_right
    ((Subject.read (ahead.dropWhile isLeftMark)).2.takeWhile isRightMark)
    (fun c member => List.all_eq_true.mp List.all_takeWhile c member)
    ((Subject.read (ahead.dropWhile isLeftMark)).2.dropWhile isRightMark)
  rw [List.takeWhile_append_dropWhile] at right
  rw [left, right]
  simp [LockItem.read, LockItem.parts, leftMarks, rightMarks, run]

theorem faces_item (ahead : Text) : Faces false (LockItem.read ahead).2 :=
  fun _ first => head?_dropWhile first

theorem length_item {ahead : Text} (more : ahead ≠ []) :
    (LockItem.read ahead).2.length < ahead.length := by
  have written := congrArg textOf (cut_item ahead)
  rw [textOf_append, textOf_cut, textOf_cut] at written
  simp only [pending, List.nil_append] at written
  have lengths := congrArg List.length written
  rw [List.length_append] at lengths
  refine Nat.lt_of_not_le fun notShorter => ?_
  have nothing : textOf (LockItem.read ahead).1.parts = [] :=
    List.eq_nil_of_length_eq_zero (by omega)
  have stays : (LockItem.read ahead).2 = ahead := by
    rw [nothing, List.nil_append] at written
    exact written.symm
  have parts := cut_item ahead
  have faces : Faces false ahead := by
    have after := faces_item ahead
    rwa [stays] at after
  rw [stays, cut_behind_of_faces faces more] at parts
  exact LockItem.parts_ne_nil _ (List.self_eq_append_left.mp parts)

/-- The parts of a lock are those that the scan finds. -/
theorem lockParts_eq_cut {text : Text} (present : text ≠ []) : lockParts text = cut start text := by
  have all : ∀ bound, ∀ ahead : Text, ahead.length ≤ bound →
      (LockItem.readAll bound ahead).flatMap LockItem.parts =
        if ahead = [] then [] else cut start ahead := by
    intro bound
    induction bound with
    | zero =>
        intro ahead short
        obtain rfl := List.eq_nil_of_length_eq_zero (Nat.le_zero.mp short)
        rfl
    | succ bound ih =>
        intro ahead short
        cases ahead with
        | nil => rfl
        | cons c rest =>
            have shorter := length_item (List.cons_ne_nil c rest)
            have later := ih (LockItem.read (c :: rest)).2 (by omega)
            rw [if_neg (by simp), cut_item]
            simp only [LockItem.readAll, List.flatMap_cons, later]
            split
            · next ended => rw [ended]; rfl
            · next more => rw [cut_behind_of_faces (faces_item _) more]
  rw [lockParts, LockItem.ofText, all _ _ (Nat.le_refl _), if_neg present]

end Phase

theorem textOf_lockParts (text : Text) : textOf (lockParts text) = text := by
  by_cases present : text = []
  · subst present
    rfl
  · rw [Phase.lockParts_eq_cut present, Phase.textOf_cut]
    rfl

end WorldLocks
