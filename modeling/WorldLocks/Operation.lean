import WorldLocks.Lock.Setting
import WorldLocks.World.Lifecycle

/-!
# Operations

Everything that changes a world, as data.  A history of a world is the list of the operations that
have been performed on it, whether they were refused or not.
-/

set_option autoImplicit false

namespace WorldLocks

inductive Operation where
  | create (name : Text) (kind : ObjectKind) (owner location : Dbref)
  | clone (source owner location : Dbref)
  | destroy (object : Dbref)
  | moveTo (object destination : Dbref)
  | addParent (child parent : Dbref)
  | removeParent (child parent : Dbref)
  | setFlag (object : Dbref) (flag : ObjectFlag) (on : Bool)
  | setZone (object zone : Dbref)
  | setLink (object link : Dbref)
  | setOwner (object owner : Dbref)
  | touch (object : Dbref)
  | declareAttr (object : Dbref) (name : Text) (flags : FlagSet AttrFlag)
  | undeclareAttr (object : Dbref) (name : Text)
  | setValue (object : Dbref) (handle : AttrDef) (value : Text)
  | clearValue (object : Dbref) (handle : AttrDef)
  | freeValues (object : Dbref)
  | copyNoninherited (destination source : Dbref)
  | setLock (limits : Limits) (player thing : Dbref) (lock : AttrDef) (text : Text)

namespace Operation

/-- What an operation that is not refused answers. -/
inductive Answer where
  | done
  | object (object : Dbref)
  | declared (result : DeclareResult)
  | undeclared (definition : AttrDef)

/-- A performed operation: its answer or the reason why it was refused, the world after it, and
what was told. -/
structure Performed where
  result : Except LockError Answer
  world : World
  told : List Message

def silent {α : Type} (answer : α → Answer) (outcome : Outcome α) : Performed :=
  ⟨(outcome.1.map answer).mapError .world, outcome.2, []⟩

def perform (world : World) : Operation → Performed
  | create name kind owner location => silent .object (world.create name kind owner location)
  | clone source owner location => silent .object (world.clone source owner location)
  | destroy object => silent (fun _ => .done) (world.destroy object)
  | moveTo object destination => silent (fun _ => .done) (world.moveTo object destination)
  | addParent child parent => silent (fun _ => .done) (world.addParent child parent)
  | removeParent child parent => silent (fun _ => .done) (world.removeParent child parent)
  | setFlag object flag on => silent (fun _ => .done) (world.setFlag object flag on)
  | setZone object zone => silent (fun _ => .done) (world.setZone object zone)
  | setLink object link => silent (fun _ => .done) (world.setLink object link)
  | setOwner object owner => silent (fun _ => .done) (world.setOwner object owner)
  | touch object => silent (fun _ => .done) (world.touch object)
  | declareAttr object name flags => silent .declared (world.declareAttr object name flags)
  | undeclareAttr object name => silent .undeclared (world.undeclareAttr object name)
  | setValue object handle value => silent (fun _ => .done) (world.setValue object handle value)
  | clearValue object handle => silent (fun _ => .done) (world.clearValue object handle)
  | freeValues object => silent (fun _ => .done) (world.freeValues object)
  | copyNoninherited destination source =>
    silent (fun _ => .done) (world.copyNoninherited destination source)
  | setLock limits player thing lock text =>
    let setting := world.setLock limits player thing lock text
    ⟨setting.result.map fun _ => .done, setting.world, setting.told⟩

def performAll (world : World) (history : List Operation) : World :=
  history.foldl (fun world operation => (operation.perform world).world) world

end Operation
end WorldLocks
