import Lineage.Dict
import Lineage.Host
import Lineage.Node.Slice
import Lineage.Ownership
import Lineage.Text.Quoted

/-!
# The toy host

A host small enough to be read at a glance. Frames, objects and scopes are numbered in the order in
which they are made, and the world keeps a description of each for good; which of them still have an
owner is found by counting when someone asks.
-/

namespace Lineage.Toy

structure FrameId where
  number : Nat
  deriving DecidableEq, Repr

structure ObjectId where
  number : Nat
  deriving DecidableEq, Repr

structure ScopeId where
  number : Nat
  deriving DecidableEq, Repr

inductive Value where
  | nil
  | int (n : Int)
  | str (s : String)
  | object (id : ObjectId) (className : String)
  deriving DecidableEq, Repr

namespace Value

/-- The value as reports show it. -/
def inspect : Value → String
  | nil => "nil"
  | int n => toString n
  | str s => Text.quote s
  | object _ className => "#<" ++ className ++ ">"

def asInt : Value → Option Int
  | int n => some n
  | _ => none

end Value

abbrev kinds : Kinds where
  Frame := FrameId
  Object := ObjectId
  Scope := ScopeId
  Value := Value
  inspect := Value.inspect

/-- One activation of a toy function. -/
structure Frame where
  name : String
  caller : Option FrameId
  args : List Value
  deriving DecidableEq, Repr

structure World where
  frames : Array Frame := #[]
  /-- The properties of each object. -/
  objects : Array (Dict String Value) := #[]
  /-- The variables of each scope. -/
  scopes : Array (Dict String Value) := #[]
  /-- A sweep comes to the entries in this order, as their keys happen to lie in memory. -/
  order : SweepOrder kinds := {}

/-- What can own and be owned. -/
inductive Entity where
  | frame (id : FrameId)
  | object (id : ObjectId)
  | scope (id : ScopeId)
  deriving DecidableEq, Repr

namespace Entity

/-- The entities that a value owns a share of. -/
def ofValue : Value → List Entity
  | .object id _ => [object id]
  | _ => []

end Entity

namespace World

/-! ### Making and reading entities -/

def addFrame (w : World) (frame : Frame) : FrameId × World :=
  (⟨w.frames.size⟩, { w with frames := w.frames.push frame })

def addObject (w : World) : ObjectId × World :=
  (⟨w.objects.size⟩, { w with objects := w.objects.push {} })

def addScope (w : World) : ScopeId × World :=
  (⟨w.scopes.size⟩, { w with scopes := w.scopes.push {} })

def frame? (w : World) (id : FrameId) : Option Frame := w.frames[id.number]?

def property (w : World) (id : ObjectId) (name : String) : Value :=
  (w.objects[id.number]?.bind (·.get? name)).getD .nil

def setProperty (w : World) (id : ObjectId) (name : String) (value : Value) : World :=
  { w with objects := w.objects.modify id.number (·.set name value) }

/-- A class variable of a scope. -/
def classVariable (w : World) (id : ScopeId) (name : String) : Value :=
  (w.scopes[id.number]?.bind (·.get? name)).getD .nil

def setClassVariable (w : World) (id : ScopeId) (name : String) (value : Value) : World :=
  { w with scopes := w.scopes.modify id.number (·.set name value) }

/-! ### Ownership -/

/-- The shares that a frame has: its caller and the objects among its arguments. -/
def frameShares (frame : Frame) : List Entity :=
  (frame.caller.map Entity.frame).toList ++ frame.args.flatMap Entity.ofValue

/-- The objects that named values own. -/
def slotShares (slots : Dict String Value) : List Entity := slots.values.flatMap Entity.ofValue

/-- The place of an entity among all that were ever made: the frames come first, then the objects,
    then the scopes. -/
def place (w : World) : Entity → Nat
  | .frame id => id.number
  | .object id => w.frames.size + id.number
  | .scope id => w.frames.size + w.objects.size + id.number

/-- The places of the entities that each entity owns. -/
def shares (w : World) : Array (List Nat) :=
  let places := List.map w.place
  w.frames.map (places <| frameShares ·) ++ w.objects.map (places <| slotShares ·) ++
    w.scopes.map (places <| slotShares ·)

/-- The shares of the nodes that are kept, through their values and those of their origins. -/
def nodeShares (nodes : List (Node Value)) : List Entity :=
  (Node.slice nodes).flatMap fun node => node.value.toList.flatMap Entity.ofValue

/-- The entities that have an owner, where `held` are the shares from outside the world. -/
def living (w : World) (held : List Entity) : Heap := Heap.census w.shares (held.map w.place)

/-- The toy host while the entities `held` and `nodes` are owned from outside the world and the store.
    The owners are counted once for all survivors. -/
def host (w : World) (held : List Entity) (nodes : List (Node Value)) : Host kinds where
  callerOf id := (w.frame? id).bind (·.caller)
  argumentCount id := ((w.frame? id).map (·.args.length)).getD 0
  objectOf
    | .object id _ => some id
    | _ => none
  survivors kept :=
    let living := w.living (held ++ nodeShares (kept ++ nodes))
    { frame := fun id => (living.cell? (w.place (.frame id))).isSome
      object := fun id => (living.cell? (w.place (.object id))).isSome
      scope := fun id => (living.cell? (w.place (.scope id))).isSome }
  order := w.order

end World

end Lineage.Toy
