import Lineage.Dict
import Lineage.Node

/-!
# Activation records

The shadow of one frame: the operand stack with a node for each operand, the write history of every
local, the result of a frame left early, and the bookkeeping of calls and of stack depths. The
operations say what they do to the record when they succeed; an operation that fails changes nothing.
-/

namespace Lineage

/-- The stack depth that a site found when it was entered. -/
structure DepthMark where
  site : SiteId
  depth : Nat
  deriving DecidableEq, Repr

structure Record (V : Type) where
  /-- The operands, most recent first. -/
  stack : List (Node V) := []
  /-- The nodes written to each local, most recent first. -/
  histories : Dict String (List (Node V)) := {}
  /-- The node of the `return` that is leaving the frame. -/
  result : Option (Node V) := none
  /-- The argument count of the invocation under way. -/
  invocation : Option Nat := none
  /-- The depths noted by the sites entered and not yet left, innermost first. -/
  marks : List DepthMark := []

namespace Record

variable {V : Type}

/-- Every node that the record holds. -/
def nodes (r : Record V) : List (Node V) :=
  r.stack ++ r.histories.values.flatten ++ r.result.toList

/-! ### Operands -/

def depth (r : Record V) : Nat := r.stack.length

def push (r : Record V) (node : Node V) : Record V := { r with stack := node :: r.stack }

def pop (r : Record V) : Except Fault (Node V × Record V) :=
  match r.stack with
  | [] => .error (.underflow none 1 0)
  | top :: rest => .ok (top, { r with stack := rest })

/-- The operand `distance` places below the top. -/
def peekAt (r : Record V) (distance : Nat) : Except Fault (Node V) :=
  match r.stack[distance]? with
  | some node => .ok node
  | none => .error (.underflow none (distance + 1) r.depth)

/-- The `count` most recent operands, most recent first, and the record without them. -/
def popMany (r : Record V) (count : Nat) : Except Fault (List (Node V) × Record V) :=
  let taken := r.stack.take count
  if taken.length < count then .error (.underflow none count r.depth)
  else .ok (taken, { r with stack := r.stack.drop count })

/-! ### Locals -/

/-- The nodes written to a local, oldest first. -/
def history (r : Record V) (name : String) : List (Node V) := (r.histories.getD name []).reverse

def locals (r : Record V) : List String := r.histories.keys

/-- Adds a node to the history of a local. -/
def write (r : Record V) (name : String) (node : Node V) : Record V :=
  { r with histories := r.histories.set name (node :: r.histories.getD name []) }

/-- The current node of a local. A local of which no write is known gets an unknown node, numbered
    `fresh`, as the start of its history; the second component is the next number. -/
def current (r : Record V) (name : String) (fresh : Nat) : Node V × Nat × Record V :=
  match r.histories.getD name [] with
  | node :: _ => (node, fresh, r)
  | [] => (.unknown fresh, fresh + 1, r.write name (.unknown fresh))

/-! ### Calls and results -/

def beginInvocation (r : Record V) (count : Nat) : Except Fault (Record V) :=
  match r.invocation with
  | some outstanding => .error (.violation (.nestedInvocation count outstanding))
  | none => .ok { r with invocation := some count }

def endInvocation (r : Record V) : Except Fault (Nat × Record V) :=
  match r.invocation with
  | some count => .ok (count, { r with invocation := none })
  | none => .error (.violation .noInvocation)

def setResult (r : Record V) (node : Node V) : Record V := { r with result := some node }

/-! ### Depth marks -/

/-- Notes the present depth for `site`. -/
def mark (r : Record V) (site : SiteId) : Record V := { r with marks := ⟨site, r.depth⟩ :: r.marks }

/-- Forgets the innermost mark of `site`, if it has one. -/
def unmark (r : Record V) (site : SiteId) : Record V :=
  { r with marks := r.marks.eraseP (·.site = site) }

/-- The innermost mark of `site`. -/
def mark? (r : Record V) (site : SiteId) : Option DepthMark := r.marks.find? (·.site = site)

/-- The innermost depth noted for `site`, and the record without that mark. -/
def takeMark (r : Record V) (site : SiteId) : Except Fault (Nat × Record V) :=
  match r.mark? site with
  | some m => .ok (m.depth, r.unmark site)
  | none => .error (.violation (.noDepthMark site))

end Record

end Lineage
