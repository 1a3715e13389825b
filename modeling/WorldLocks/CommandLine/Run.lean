import WorldLocks.CommandLine.Arguments
import WorldLocks.Fixture.Document
import WorldLocks.Fixture.Load
import WorldLocks.Json.Writer
import WorldLocks.Lock.Gate

/-!
# Running commands

What a command answers, given the contents of the files that it names.  Options on the command line
come before the settings file, and that comes before what the fixture says of itself.
-/

set_option autoImplicit false

namespace WorldLocks

/-! ## Results -/

inductive Failure where
  | usage
  | unreadableSettings (file : Text)
  /-- The fixture file is missing or does not hold a fixture. -/
  | unreadableFixture (file : Text)
  /-- There has to be room for a character and one byte to spare. -/
  | smallBuffer (bufferLen : Nat)
  | badFixture (error : FixtureError)
  | compile (error : CompileError)
  | noAttribute (name : Text) (thing : Dbref)
  deriving DecidableEq

namespace Failure

def message : Failure → Text
  | usage =>
    ("usage: worldlocks --world FILE [OPTIONS] (compile --actor OBJECT TEXT" ++
      " | decompile --viewer OBJECT TEXT" ++
      " | eval --actor OBJECT --locked OBJECT [--zone OBJECT] [TEXT]" ++
      " | check --player OBJECT --thing OBJECT [--lock NAME])").toList
  | unreadableSettings file => "Failed to read settings from ".toList ++ Text.quoted file
  | unreadableFixture file => "Failed to read world fixture ".toList ++ Text.quoted file
  | smallBuffer bufferLen =>
    "buffer length ".toList ++ Text.ofNat bufferLen ++ " is too small".toList
  | badFixture error => "Bad world fixture: ".toList ++ error.message
  | compile error => error.message
  | noAttribute name thing =>
    "No attribute ".toList ++ Text.quoted name ++ " on ".toList ++ thing.literal

/-- The exit code of a failure: 2 for a wrong command line, 1 for everything else. -/
def exitCode : Failure → Nat
  | usage => 2
  | _ => 1

end Failure

inductive CommandResult where
  | compiled (lock : CompiledLock)
  | decompiled (text : Text)
  | verdict (passed : Bool)
  deriving DecidableEq

namespace CommandResult

def toJson : CommandResult → Json
  | compiled lock =>
    .object [("text".toList, .text lock.text),
      ("warnings".toList, .array (lock.warnings.map .text))]
  | decompiled text => .object [("text".toList, .text text)]
  | verdict passed => .object [("passed".toList, .bool passed)]

def plain : CommandResult → Text
  | compiled lock => lock.text
  | decompiled text => text
  | verdict true => "pass".toList
  | verdict false => "fail".toList

def line (result : CommandResult) (json : Bool) : Text :=
  (if json then result.toJson.write else result.plain) ++ ['\n']

end CommandResult

structure RunReport where
  result : Except Failure CommandResult
  told : List Message

namespace RunReport

def failed (failure : Failure) : RunReport := ⟨.error failure, []⟩

/-- What is printed for a message: whom it goes to, and the message. -/
def messageText (message : Message) : Text :=
  "[to ".toList ++ message.1.literal ++ "] ".toList ++ message.2

end RunReport

/-! ## Settings -/

/-- The settings file: settings for the world in place of its own, and limits for locks. -/
structure Settings where
  database : Option WorldConfig := none
  limits : Limits := {}
  deriving DecidableEq

namespace Settings

def limitsOfJson? (strictness : Json.Strictness) (json : Json) : Option Limits := do
  let members ← json.membersOf strictness ["buffer_len".toList, "max_lock_depth".toList]
  let bufferLen ← members.optional "buffer_len".toList (·.asNat? Json.maxSize)
    ({} : Limits).bufferLen
  let maxLockDepth ← members.optional "max_lock_depth".toList (·.asNat? Json.maxSize)
    ({} : Limits).maxLockDepth
  pure ⟨bufferLen, maxLockDepth⟩

/-- Reads the settings in a file, which have to be an object. -/
def ofJson? (json : Json) : Option Settings := do
  let _ ← json.asObject?
  let members ← json.membersOf .loose []
  let database ← members.optional "database".toList
    (Json.orNull (WorldConfig.ofJson? .loose)) none
  let limits ← members.optional "kernel".toList (limitsOfJson? .loose) {}
  pure ⟨database, limits⟩

end Settings

namespace Arguments

/-- The limits for locks, the command line coming first. -/
def limits (arguments : Arguments) (settings : Settings) : Except Failure Limits :=
  match arguments.bufferLen.filter (· < 2) with
  | some bufferLen => .error (.smallBuffer bufferLen)
  | none =>
    .ok ⟨arguments.bufferLen.getD settings.limits.bufferLen,
      arguments.maxLockDepth.getD settings.limits.maxLockDepth⟩

/-- The settings of the world, the command line coming first and the fixture last. -/
def worldConfig (arguments : Arguments) (settings : Settings) (fixture : WorldFixture) :
    WorldConfig :=
  let config := settings.database.getD fixture.config
  ⟨arguments.maxAttrDefs.getD config.maxAttrDefs, arguments.attrCache.getD config.attrCache⟩

end Arguments

/-! ## Commands -/

namespace Command

def perform (ev : Evaluator) : Command → RunReport
  | .compile actor text =>
    let (compiled, told) := ev.compileLock actor text
    ⟨(compiled.map .compiled).mapError .compile, told⟩
  | .decompile viewer text => ⟨.ok (.decompiled (ev.decompileLock viewer text)), []⟩
  | .eval actor locked zone text =>
    let zone := zone.getD (ev.world.zoneOf actor)
    let (passed, state) := match text with
      | some text => ev.evaluate ev.world.cache actor locked text zone
      | none => ev.evaluateAttr ev.world.cache actor locked (.ofBuiltin .lock) zone
    ⟨.ok (.verdict passed), state.told⟩
  | .check player thing name =>
    match (AttrDef.builtin? name).or (ev.world.findDef? thing name) with
    | some lock =>
      let (passed, state) := ev.mayUse ev.world.cache player thing lock
      ⟨.ok (.verdict passed), state.told⟩
    | none => .failed (.noAttribute name thing)

end Command

/-- What is found under the name of a file. -/
inductive FileContent where
  | missing
  | unreadable
  | document (json : Json)

namespace Arguments

/-- The settings for a run.  A settings file that does not exist sets nothing. -/
def settings (arguments : Arguments) (configFile : FileContent) : Except Failure Settings :=
  match arguments.configFile, configFile with
  | none, _ | some _, .missing => .ok {}
  | some file, .unreadable => .error (.unreadableSettings file)
  | some file, .document json =>
    match Settings.ofJson? json with
    | some settings => .ok settings
    | none => .error (.unreadableSettings file)

/-- The fixture for a run, which has to be there and to be an object. -/
def fixture (arguments : Arguments) (worldFile : FileContent) : Except Failure WorldFixture :=
  match worldFile with
  | .document (.object members) =>
    match WorldFixture.ofJson? .loose (.object members) with
    | some fixture => .ok fixture
    | none => .error (.unreadableFixture arguments.world)
  | _ => .error (.unreadableFixture arguments.world)

def evaluator (arguments : Arguments) (configFile worldFile : FileContent) (clock : Int) :
    Except Failure Evaluator := do
  let settings ← arguments.settings configFile
  let limits ← arguments.limits settings
  let fixture ← arguments.fixture worldFile
  let config := arguments.worldConfig settings fixture
  match World.ofFixture { fixture with config := config } clock with
  | .ok world => pure (.ofWorld world passthrough limits)
  | .error error => .error (.badFixture error)

/-- Runs the tool at a time, given the contents of the files. -/
def run (arguments : Arguments) (configFile worldFile : FileContent) (clock : Int) : RunReport :=
  match arguments.evaluator configFile worldFile clock with
  | .ok ev => arguments.command.perform ev
  | .error failure => .failed failure

end Arguments
end WorldLocks
