import WorldLocks.Dbref
import WorldLocks.Lock.Cursor

/-!
# Function calls in locks

A stored lock may hold calls `[...]`, which are replaced by what the host makes of them before the
lock is read.  The host is given everything behind the `[` and says how many bytes of it the call
took; the `]` behind them is dropped.  The result is cut to the room of a buffer.
-/

set_option autoImplicit false

namespace WorldLocks

structure CallOutput where
  output : Text
  /-- How many bytes the call took, the closing bracket not counted. -/
  consumed : Nat
  deriving DecidableEq, Repr

/-- Runs the call at the start of a text, for an actor and with the privileges of an object. -/
abbrev FunctionEvaluator := (text : Text) → (actor privileged : Dbref) → CallOutput

/-! ## Hosts -/

/-- A text up to the first `]` that closes none of its own brackets.  The number counts the
brackets that are open. -/
def callSpan : Nat → Text → Text
  | _, [] => []
  | opened, '[' :: rest => '[' :: callSpan (opened + 1) rest
  | 0, ']' :: _ => []
  | opened + 1, ']' :: rest => ']' :: callSpan opened rest
  | opened, c :: rest => c :: callSpan opened rest

def passthrough : FunctionEvaluator := fun text _ _ =>
  let span := callSpan 0 text
  ⟨span, Text.bytes span⟩

/-- A call that a table host knows, told by the text that it starts with. -/
structure TableEntry where
  start : Text
  /-- What the call becomes; `%a` and `%p` stand for the actor and the privileged object. -/
  output : Text
  /-- The bytes that the call takes, or none for everything before the next `]`. -/
  consumed : Option Nat

def fillIn (mark : Char) (value : Text) : Text → Text
  | '%' :: c :: rest =>
    if c = mark then value ++ fillIn mark value rest else '%' :: fillIn mark value (c :: rest)
  | c :: rest => c :: fillIn mark value rest
  | [] => []

/-- The host that looks calls up in a table; the first entry whose start fits answers, and an
unknown call becomes nothing. -/
def tableHost (table : List TableEntry) : FunctionEvaluator := fun text actor privileged =>
  let toBracket := Text.bytes (text.takeWhile (· ≠ ']'))
  match table.find? (·.start.isPrefixOf text) with
  | some entry =>
    ⟨fillIn 'p' privileged.literal (fillIn 'a' actor.literal entry.output),
      entry.consumed.getD toBracket⟩
  | none => ⟨[], toBracket⟩

/-! ## Expansion -/

/-- What is left behind a call of some bytes: a character that they end inside is skipped whole,
and so is one closing bracket. -/
def afterCall (consumed : Nat) (call : Text) : Text := Cursor.eat ']' (Text.dropBytes consumed call)

/-- Puts the expansion of a text behind `out`.  Once `out` takes `limit` bytes no more calls are run:
the text is put behind it as it stands, where it is cut off in the end.  The first argument bounds
the number of calls. -/
def expandOnto (functions : FunctionEvaluator) (actor privileged : Dbref) (limit : Nat) :
    Nat → Text → Text → Text
  | bound, out, ahead =>
    match bound, Text.splitOnce '[' ahead with
    | bound + 1, some (before, call) =>
      let out := out ++ before
      if limit ≤ Text.bytes out then out ++ ahead
      else
        let result := functions call actor privileged
        expandOnto functions actor privileged limit bound (out ++ result.output)
          (afterCall result.consumed call)
    | _, _ => out ++ ahead

/-- A text with its calls replaced, cut to fit a buffer with one byte to spare. -/
def expand (functions : FunctionEvaluator) (text : Text) (actor privileged : Dbref)
    (bufferLen : Nat) : Text :=
  let limit := bufferLen - 1
  Text.takeBytes limit (expandOnto functions actor privileged limit text.length [] text)

end WorldLocks
