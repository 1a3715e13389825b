import WorldLocks.Lock.Compile
import WorldLocks.Lock.Decompile
import WorldLocks.Lock.Expansion
import WorldLocks.Lock.Parser
import WorldLocks.Pattern
import WorldLocks.World.Control

/-!
# Evaluating locks

Whether an actor passes a lock is decided in the state of one evaluation.  Names are matched from
the object whose lock is being evaluated, which changes while an indirect lock is evaluated and is
put back afterwards.  Every lock that is entered counts, wherever it is met, and when too many have
been entered the next ones are refused.  All terms of a chain are evaluated, so that nothing that
there is to be told is left out.

The evaluator of a tree is given the way to enter a further lock.  Entering recurses on the number
of locks that may still be entered.
-/

set_option autoImplicit false

namespace WorldLocks

abbrev Message := Dbref × Text

/-- The limits that locks are held to. -/
structure Limits where
  /-- Every lock text has to be shorter than this number of bytes. -/
  bufferLen : Nat := 8192
  /-- How many locks one evaluation may enter, the one that it starts with included. -/
  maxLockDepth : Nat := 10
  deriving DecidableEq, Repr

/-- What an evaluation depends on and does not change. -/
structure Evaluator where
  world : World
  matcher : Matcher
  canSee : VisibilityRule
  functions : FunctionEvaluator
  limits : Limits

structure Evaluation where
  actor : Dbref
  locked : Dbref
  /-- The object whose lock the evaluation started with. -/
  origin : Dbref
  zone : Dbref
  /-- How many locks have been entered or refused for being too many. -/
  depth : Nat
  cache : ReadCache
  told : List Message
  /-- The objects whose locks have been entered, with the texts, oldest first. -/
  entered : List (Dbref × Text)
  deriving DecidableEq

abbrev EvalStep (α : Type) := Evaluation → α × Evaluation

abbrev EnterLock := Text → EvalStep Bool

namespace Evaluation

def start (actor locked zone : Dbref) (cache : ReadCache) : Evaluation where
  actor := actor
  locked := locked
  origin := locked
  zone := zone
  depth := 0
  cache := cache
  told := []
  entered := []

def tell (state : Evaluation) (player : Dbref) (message : Text) : Evaluation :=
  { state with told := state.told ++ [(player, message)] }

end Evaluation

namespace Evaluator

/-! ## What locks look at -/

def ofWorld (world : World) (functions : FunctionEvaluator) (limits : Limits) : Evaluator where
  world := world
  matcher := world.matcher
  canSee := world.canSee
  functions := functions
  limits := limits

def resolve (ev : Evaluator) (locked : Dbref) (name : Text) : Option Dbref :=
  match ev.matcher locked name with
  | .ok (.found object) => if ev.world.isValid object then some object else none
  | _ => none

def carries (ev : Evaluator) (holder object : Dbref) : Bool :=
  (ev.world.record? holder).any (·.contents.contains object)

def compare (ev : Evaluator) (state : Evaluation) (object : Dbref) : RefKind → Bool
  | .is => state.actor = object
  | .carries => ev.carries state.actor object
  | .any =>
    ev.world.isValid state.actor &&
      (state.actor = object || ev.carries state.actor object || state.zone = object)

def attrFor? (ev : Evaluator) (object : Dbref) (name : Text) : Option AttrDef :=
  if name.contains '.' then ev.world.resolveAttr? ev.matcher object .nothing name
  else (AttrDef.builtin? name).or (ev.world.findDef? object name)

def read (ev : Evaluator) (object : Dbref) (definition : AttrDef) : EvalStep Text := fun state =>
  let (value, cache) := ev.world.readWith state.cache object definition
  (value, { state with cache := cache })

/-- Tests an attribute of an object.  Dark attributes pass no test; a gated test also needs the lock
to see the attribute. -/
def test (ev : Evaluator) (object : Dbref) (name pattern : Text) (gated : Bool) : EvalStep Bool :=
  fun state =>
    if !ev.world.isValid object then (false, state)
    else match ev.attrFor? object name with
      | none => (false, state)
      | some definition =>
        if definition.hasFlag .dark then (false, state)
        else if gated && !ev.canSee state.locked object definition then (false, state)
        else
          let (value, state) := ev.read object definition state
          (Pattern.accepts pattern value, state)

/-! ## Warnings -/

/-- Tells the owner of the object that the evaluation started with, if the owner exists, something
about the object whose lock is being evaluated. -/
def warnOwner (ev : Evaluator) (before behind : Text) (state : Evaluation) : Evaluation :=
  let owner := ev.world.ownerOf state.origin
  if ev.world.isValid owner then
    state.tell owner (before ++ ev.world.shown owner state.locked ++ behind)
  else state

def refuseDepth (ev : Evaluator) : EvalStep Bool := fun state =>
  (false, ev.warnOwner "Warning: recursion detected in ".toList " lock.".toList state)

def refuseNesting (ev : Evaluator) : EvalStep Bool := fun state =>
  (false, ev.warnOwner "Warning: lock nested too deeply on ".toList ['.'] state)

/-! ## Trees -/

def indirect (ev : Evaluator) (enter : EnterLock) (object : Dbref) : EvalStep Bool := fun state =>
  let (text, state) := ev.read object (.ofBuiltin .lock) state
  let (passed, behind) := enter text { state with locked := object }
  (passed, { behind with locked := state.locked })

mutual

def eval (ev : Evaluator) (enter : EnterLock) : LockExpr → EvalStep Bool
  | .or terms => ev.evalAny enter terms
  | .and terms => ev.evalAll enter terms
  | .not inner => fun state =>
    let (passed, state) := ev.eval enter inner state
    (!passed, state)
  | .number value => fun state => (value ≠ 0, state)
  | .attrTest name pattern => fun state => ev.test state.actor name pattern false state
  | .ref kind name => fun state =>
    match ev.resolve state.locked name with
    | some object => (ev.compare state object kind, state)
    | none => (false, state)
  | .indirect name => fun state =>
    match ev.resolve state.locked name with
    | some object =>
      if ev.canSee state.locked object (.ofBuiltin .lock) then ev.indirect enter object state
      else (false, state)
    | none => (false, state)
  | .indirectLock name => fun state =>
    match ev.resolve state.locked name with
    | some object => ev.indirect enter object state
    | none => (false, state)
  | .indirectAttr target test => fun state =>
    match ev.resolve state.locked target, test with
    | some object, some (name, pattern) => ev.test object name pattern true state
    | _, _ => (false, state)
  | .tooDeep => ev.refuseNesting

def evalAny (ev : Evaluator) (enter : EnterLock) : List LockExpr → EvalStep Bool
  | [] => fun state => (false, state)
  | term :: later => fun state =>
    let (passed, state) := ev.eval enter term state
    let (others, state) := ev.evalAny enter later state
    (passed || others, state)

def evalAll (ev : Evaluator) (enter : EnterLock) : List LockExpr → EvalStep Bool
  | [] => fun state => (true, state)
  | term :: later => fun state =>
    let (passed, state) := ev.eval enter term state
    let (others, state) := ev.evalAll enter later state
    (passed && others, state)

end

/-! ## Locks -/

/-- The tree of a lock text, its calls being replaced first. -/
def treeOf (ev : Evaluator) (actor locked : Dbref) (text : Text) : LockExpr :=
  .parse (expand ev.functions text actor locked ev.limits.bufferLen)

/-- Enters a lock.  An empty one passes and does not count.  The first argument bounds how many
locks may be entered inside each other; as every lock that is entered counts, the limit on their
number is reached first or together with it. -/
def enterLock (ev : Evaluator) : Nat → EnterLock
  | levels, text => fun state =>
    if text.isEmpty then (true, state)
    else
      let counted := { state with depth := state.depth + 1 }
      match levels with
      | 0 => ev.refuseDepth counted
      | levels + 1 =>
        if ev.limits.maxLockDepth < counted.depth then ev.refuseDepth counted
        else
          let tree := ev.treeOf state.actor state.locked text
          ev.eval (ev.enterLock levels) tree
            { counted with entered := counted.entered ++ [(counted.locked, text)] }

/-- Tells the owner of an object, if it exists, that the lock is too long. -/
def refuseLength (ev : Evaluator) : EvalStep Bool := fun state =>
  (false, ev.warnOwner "Warning: lock too long on ".toList [] state)

def evaluate (ev : Evaluator) (cache : ReadCache) (actor locked : Dbref) (text : Text)
    (zone : Dbref) : Bool × Evaluation :=
  let state := Evaluation.start actor locked zone cache
  if !ev.world.isValid locked then (false, state)
  else if text.isEmpty then (true, state)
  else if ev.limits.bufferLen ≤ Text.bytes text then ev.refuseLength state
  else ev.enterLock ev.limits.maxLockDepth text state

def evaluateAttr (ev : Evaluator) (cache : ReadCache) (actor locked : Dbref) (lock : AttrDef)
    (zone : Dbref) : Bool × Evaluation :=
  let (text, cache) := ev.world.readWith cache locked lock
  ev.evaluate cache actor locked text zone

/-! ## Compiling and decompiling -/

/-- Compiles a lock for an actor, with what the actor is told: the warnings, or what is wrong. -/
def compileLock (ev : Evaluator) (actor : Dbref) (text : Text) :
    Except CompileError CompiledLock × List Message :=
  match Compiler.compile ⟨ev.world, ev.matcher, actor⟩ text ev.limits.bufferLen with
  | .ok compiled => (.ok compiled, compiled.warnings.map (actor, ·))
  | .error error =>
    (.error error, if ev.world.isValid actor then [(actor, error.message)] else [])

def decompileLock (ev : Evaluator) (viewer : Dbref) (text : Text) : Text :=
  Decompiler.decompile ⟨ev.world, ev.matcher, viewer⟩ text ev.limits.bufferLen

end Evaluator
end WorldLocks
