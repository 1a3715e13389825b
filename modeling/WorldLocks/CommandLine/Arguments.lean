import WorldLocks.Dbref

/-!
# Arguments

The command line names a world, settings and one command with its own options.  The options of the
tool stand before the command, those of the command behind it.  An option `--name` takes its value
from the next argument or from behind an equals sign; a flag takes none.  Each may be given once.
Anything else that starts with a hyphen is wrong, unless it stands behind `--`.
-/

set_option autoImplicit false

namespace WorldLocks

/-! ## Words and options -/

/-- Arguments sorted into options with their values, flags and the other words. -/
structure SortedArgs where
  options : List (Text × Text)
  flags : List Text
  words : List Text

namespace SortedArgs

def empty : SortedArgs := ⟨[], [], []⟩

def option? (sorted : SortedArgs) (name : Text) : Option Text := sorted.options.lookup name

def hasFlag (sorted : SortedArgs) (name : Text) : Bool := sorted.flags.contains name

def addOption (sorted : SortedArgs) (name value : Text) : Option SortedArgs :=
  if (sorted.option? name).isSome then none
  else some { sorted with options := sorted.options ++ [(name, value)] }

def addFlag (sorted : SortedArgs) (name : Text) : Option SortedArgs :=
  if sorted.hasFlag name then none else some { sorted with flags := sorted.flags ++ [name] }

def addWords (sorted : SortedArgs) (words : List Text) : SortedArgs :=
  { sorted with words := sorted.words ++ words }

end SortedArgs

/-- The options and flags that are known in some place. -/
structure KnownArgs where
  options : List Text
  flags : List Text
  /-- Whether the first word ends the options here, together with everything behind it. -/
  endsAtWord : Bool

def isPlainArg (arg : Text) : Bool := arg.head? ≠ some '-' || arg = ['-']

/-- What a single argument looks like. -/
inductive ArgShape where
  | word
  /-- Two hyphens, behind which everything stands for itself. -/
  | separator
  /-- A name behind two hyphens, perhaps with a value behind an equals sign. -/
  | named (name : Text) (value : Option Text)
  | other
  deriving DecidableEq, Repr

def ArgShape.of (arg : Text) : ArgShape :=
  if isPlainArg arg then word
  else match arg with
    | ['-', '-'] => separator
    | '-' :: '-' :: name =>
      match Text.splitOnce '=' name with
      | some (name, value) => named name (some value)
      | none => named name none
    | _ => other

namespace KnownArgs

/-- Sorts arguments; none if there is something wrong with them. -/
def sort (known : KnownArgs) (sorted : SortedArgs) : List Text → Option SortedArgs
  | [] => some sorted
  | arg :: later =>
    match ArgShape.of arg with
    | .word =>
      if known.endsAtWord then some (sorted.addWords (arg :: later))
      else known.sort (sorted.addWords [arg]) later
    | .separator => if known.endsAtWord then none else some (sorted.addWords later)
    | .named name (some value) =>
      if known.options.contains name then
        (sorted.addOption name value).bind fun sorted => known.sort sorted later
      else none
    | .named name none =>
      if known.flags.contains name then
        (sorted.addFlag name).bind fun sorted => known.sort sorted later
      else if known.options.contains name then
        match later with
        | [] => none
        | value :: later =>
          if isPlainArg value then
            (sorted.addOption name value).bind fun sorted => known.sort sorted later
          else none
      else none
    | .other => none

end KnownArgs

/-! ## Values -/

def readObjectArg (arg : Text) : Option Dbref :=
  if arg.head? = some '#' then Dbref.read? arg
  else ((Text.readInt Dbref.maxNumber arg).toOption).map Dbref.mk

def readSizeArg (arg : Text) : Option Nat := (Text.readNat 18446744073709551615 arg).toOption

def readBoolArg (arg : Text) : Option Bool :=
  if arg = "true".toList then some true
  else if arg = "false".toList then some false
  else none

def readFileArg (arg : Text) : Option Text := if arg.isEmpty then none else some arg

/-- Reads the value of an option that may be left out; none if it is given and wrong. -/
def SortedArgs.optional {α : Type} (sorted : SortedArgs) (name : Text) (read : Text → Option α) :
    Option (Option α) :=
  match sorted.option? name with
  | some value => (read value).map some
  | none => some none

def SortedArgs.required {α : Type} (sorted : SortedArgs) (name : Text) (read : Text → Option α) :
    Option α := (sorted.option? name).bind read

/-! ## Commands -/

inductive Command where
  | compile (actor : Dbref) (text : Text)
  /-- Shows a stored lock the way a player would see it. -/
  | decompile (viewer : Dbref) (text : Text)
  /-- Evaluates a lock text, or else the lock of the locked object, in a zone, or else in the one
  that the actor is in. -/
  | eval (actor locked : Dbref) (zone : Option Dbref) (text : Option Text)
  /-- Decides whether a player may use a thing, by the lock attribute of a name. -/
  | check (player thing : Dbref) (lock : Text)
  deriving DecidableEq, Repr

namespace Command

def sortArgs (options : List Text) (args : List Text) : Option SortedArgs :=
  KnownArgs.sort ⟨options, [], false⟩ .empty args

def onlyWord? (sorted : SortedArgs) : Option Text :=
  match sorted.words with
  | [word] => some word
  | _ => none

/-- The word among the arguments, of which there may be one. -/
def atMostOneWord? (sorted : SortedArgs) : Option (Option Text) :=
  match sorted.words with
  | [] => some none
  | [word] => some (some word)
  | _ => none

def read (name : Text) (args : List Text) : Option Command :=
  if name = "compile".toList then do
    let sorted ← sortArgs ["actor".toList] args
    let actor ← sorted.required "actor".toList readObjectArg
    let text ← onlyWord? sorted
    pure (.compile actor text)
  else if name = "decompile".toList then do
    let sorted ← sortArgs ["viewer".toList] args
    let viewer ← sorted.required "viewer".toList readObjectArg
    let text ← onlyWord? sorted
    pure (.decompile viewer text)
  else if name = "eval".toList then do
    let sorted ← sortArgs ["actor".toList, "locked".toList, "zone".toList] args
    let actor ← sorted.required "actor".toList readObjectArg
    let locked ← sorted.required "locked".toList readObjectArg
    let zone ← sorted.optional "zone".toList readObjectArg
    let text ← atMostOneWord? sorted
    pure (.eval actor locked zone text)
  else if name = "check".toList then do
    let sorted ← sortArgs ["player".toList, "thing".toList, "lock".toList] args
    let player ← sorted.required "player".toList readObjectArg
    let thing ← sorted.required "thing".toList readObjectArg
    let lock := (sorted.option? "lock".toList).getD "Lock".toList
    if sorted.words.isEmpty then pure (.check player thing lock) else none
  else none

end Command

/-! ## The whole line -/

structure Arguments where
  world : Text
  configFile : Option Text
  bufferLen : Option Nat
  maxLockDepth : Option Nat
  attrCache : Option Bool
  maxAttrDefs : Option Nat
  json : Bool
  command : Command
  deriving DecidableEq, Repr

namespace Arguments

/-- The options and flags of the tool.  Debugging changes nothing in what is answered. -/
def known : KnownArgs where
  options := ["world".toList, "config-file".toList, "buffer-len".toList, "max-lock-depth".toList,
    "attr-cache".toList, "max-attr-defs".toList]
  flags := ["json".toList, "debug".toList]
  endsAtWord := true

/-- Reads a command line; none if there is anything wrong with it. -/
def read (args : List Text) : Option Arguments := do
  let sorted ← known.sort .empty args
  let world ← sorted.required "world".toList readFileArg
  let configFile ← sorted.optional "config-file".toList readFileArg
  let bufferLen ← sorted.optional "buffer-len".toList readSizeArg
  let maxLockDepth ← sorted.optional "max-lock-depth".toList readSizeArg
  let attrCache ← sorted.optional "attr-cache".toList readBoolArg
  let maxAttrDefs ← sorted.optional "max-attr-defs".toList readSizeArg
  match sorted.words with
  | [] => none
  | name :: args =>
    let command ← Command.read name args
    pure ⟨world, configFile, bufferLen, maxLockDepth, attrCache, maxAttrDefs,
      sorted.hasFlag "json".toList, command⟩

end Arguments
end WorldLocks
