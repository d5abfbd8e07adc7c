import Lineage.Toy.Eval

/-!
# The provenance that a run should have

`Ledger.eval` runs code as the evaluator does and keeps book of where every value came from, with no
shadow state: the latest node of each local, property, class variable and global is at hand under the
name of the slot, and the operands of a piece of tagged code are the nodes that it has left, taken
together where the code ends. Nothing here is weak, sweeps, marks a depth or can be refused.
-/

namespace Lineage.Toy

/-- The state of a run together with the provenance of its values. -/
structure Ledger where
  world : World
  globals : Dict String Value := {}
  locals : Dict String Value := {}
  /-- The nodes left by the code around so far, most recent first. -/
  operands : List (Node Value) := []
  /-- The latest node of each local of the innermost invocation. -/
  localNodes : Slots Value := {}
  propertyNodes : ObjectId → Slots Value := fun _ => {}
  classNodes : Slots Value := {}
  globalNodes : Slots Value := {}
  next : Nat := 1
  /-- Every node made so far, most recent first. -/
  made : List (Node Value) := []

/-- Where in the program code is run. -/
structure Setting where
  program : Program
  frame : FrameId
  /-- The code is that of a traced function. -/
  traced : Bool
  /-- The arguments of the invocation, last one first, if the caller is traced. -/
  arguments : Option (List (Node Value)) := none

abbrev LedgerM := ExceptT Interrupt (StateM Ledger)

namespace Code

def isTagged : Code → Bool
  | .tagged .. => true
  | _ => false

end Code

namespace Ledger

def create (creator : Option Creator) (value : Option Value) (origins : List (Node Value)) :
    LedgerM (Node Value) := do
  let l ← get
  let node : Node Value := { seq := l.next, creator, value, origins }
  set { l with next := l.next + 1, made := node :: l.made }
  return node

/-- The latest node of a slot; a slot never written gets an unknown one. -/
def current (slots : Ledger → Slots Value) (put : Slots Value → Ledger → Ledger) (name : String) :
    LedgerM (Node Value) := do
  match (slots (← get)).get? name with
  | some node => return node
  | none =>
      let node ← create none none []
      modify fun l => put ((slots l).set name node) l
      return node

def putLocals (slots : Slots Value) (l : Ledger) : Ledger := { l with localNodes := slots }

def putProperties (object : ObjectId) (slots : Slots Value) (l : Ledger) : Ledger :=
  { l with propertyNodes := fun o => if o = object then slots else l.propertyNodes o }

def putClassVariables (slots : Slots Value) (l : Ledger) : Ledger := { l with classNodes := slots }

def putGlobals (slots : Slots Value) (l : Ledger) : Ledger := { l with globalNodes := slots }

/-- The object that the value of a node refers to. -/
def objectBehind (node : Node Value) : Option ObjectId :=
  match node.value with
  | some (.object id _) => some id
  | _ => none

/-- The node of an argument. -/
def argument (s : Setting) (index : Nat) : LedgerM (Node Value) := do
  match s.arguments with
  | none => create none none []
  | some nodes =>
      match nodes[nodes.length - (index + 1)]? with
      | some node => return node
      | none => create none none []

/-- What the node of a piece of code is made from; `used` are the operands that it has left. -/
def originsOf (s : Setting) (used : List (Node Value)) : Code → LedgerM (List (Node Value))
  | .getLocal name => return [← current Ledger.localNodes putLocals name]
  | .arg index => return [← argument s index]
  | .getProperty _ name =>
      match used.head?.bind objectBehind with
      | some object =>
          return used ++ [← current (·.propertyNodes object) (putProperties object) name]
      | none => return used ++ [← create none none []]
  | .getGlobal name => return [← current Ledger.globalNodes putGlobals name]
  | .getClassVariable name => return [← current Ledger.classNodes putClassVariables name]
  | _ => return used

/-- Puts the node of a piece of code into the slot that the code has written. -/
def writeSlot (used : List (Node Value)) (node : Node Value) (l : Ledger) : Code → Ledger
  | .setLocal name _ => putLocals (l.localNodes.set name node) l
  | .setProperty _ name _ =>
      match used.head?.bind objectBehind with
      | some object => putProperties object ((l.propertyNodes object).set name node) l
      | none => l
  | .setGlobal name _ => putGlobals (l.globalNodes.set name node) l
  | .setClassVariable name _ => putClassVariables (l.classNodes.set name node) l
  | _ => l

/-- Tagged code has come to `value`: its operands give way to its node. -/
def conclude (s : Setting) (site : Site kinds) (code : Code) (value : Value)
    (outer : List (Node Value)) : LedgerM Unit := do
  let used := (← get).operands
  let origins ← originsOf s used code
  let node ← create (Tracer.creatorOf site) (some value) origins
  modify fun l => { writeSlot used node l code with operands := node :: outer }

/-- Tagged code is left by a `return`: its operands stay, under a node of the `return` itself if the
    code is that. -/
def abandon (site : Site kinds) (code : Code) (outer : List (Node Value)) : LedgerM Unit := do
  match code, (← get).operands with
  | .ret _, origin :: below =>
      let node ← create (Tracer.creatorOf site) origin.value [origin]
      modify ({ · with operands := node :: below ++ outer })
  | _, used => modify ({ · with operands := used ++ outer })

/-- Runs an invocation with locals and operands of its own. What a traced function leaves is an
    operand of its caller, if that is traced. -/
def withActivation {α : Type} (s : Setting) (work : LedgerM α) : LedgerM α := fun l =>
  let (result, after) := work.run.run { l with locals := {}, localNodes := {}, operands := [] }
  let result' := if s.traced then after.operands else []
  (result, { after with locals := l.locals, localNodes := l.localNodes
                        operands := result' ++ l.operands })

def addValues (left right : Value) : LedgerM Value :=
  match left, right with
  | .int a, .int b => pure (.int (a + b))
  | .str a, .str b => pure (.str (a ++ b))
  | _, _ => throw (.failing (.cannotAdd left right))

mutual

def eval (fuel : Nat) (s : Setting) (code : Code) : LedgerM Value :=
  match fuel with
  | 0 => throw .outOfFuel
  | fuel + 1 =>
    match code with
    | .int n => pure (.int n)
    | .str text => pure (.str text)
    | .nil => pure .nil
    | .new className => do
        let (id, world) := (← get).world.addObject
        modify ({ · with world })
        return .object id className
    | .getLocal name => return (← get).locals.getD name .nil
    | .setLocal name value => do
        let v ← eval fuel s value
        modify fun l => { l with locals := l.locals.set name v }
        return v
    | .arg index => do
        let some frame := (← get).world.frame? s.frame | return .nil
        match frame.args[index]? with
        | some v => return v
        | none => throw (.failing (.noArgument frame.name index))
    | .add left right => do
        let l ← eval fuel s left
        let r ← eval fuel s right
        addValues l r
    | .call name args => do
        let values ← evalArgs fuel s args
        let some function := s.program.functions.get? name
          | throw (.failing (.undefinedFunction name))
        let l ← get
        let (frame, world) := l.world.addFrame { name, caller := some s.frame, args := values }
        set { l with world }
        let arguments := if s.traced then some (l.operands.take values.length) else none
        withActivation s (eval fuel { s with frame, traced := function.isTagged, arguments } function)
    | .getProperty receiver name => do
        match ← eval fuel s receiver with
        | .object id _ => return (← get).world.property id name
        | _ => return .nil
    | .setProperty receiver name value => do
        let v ← eval fuel s value
        match ← eval fuel s receiver with
        | .object id _ =>
            modify fun l => { l with world := l.world.setProperty id name v }
            return v
        | _ => return v
    | .getGlobal name => return (← get).globals.getD name .nil
    | .setGlobal name value => do
        let v ← eval fuel s value
        modify fun l => { l with globals := l.globals.set name v }
        return v
    | .getClassVariable name => return (← get).world.classVariable s.program.scope name
    | .setClassVariable name value => do
        let v ← eval fuel s value
        modify fun l => { l with world := l.world.setClassVariable s.program.scope name v }
        return v
    | .ret value => do
        let v ← eval fuel s value
        throw (.returning v)
    | .body statements =>
        tryCatch (evalBody fuel s .nil statements) fun
          | .returning v => pure v
          | other => throw other
    | .tagged site code =>
        if code.isTagged then eval fuel s code
        else do
          let outer := (← get).operands
          modify ({ · with operands := [] })
          let v ← tryCatch (eval fuel s code) fun
            | .returning v => do
                abandon site code outer
                throw (.returning v)
            | other => throw other
          conclude s site code v outer
          return v

def evalArgs (fuel : Nat) (s : Setting) (args : List Code) : LedgerM (List Value) :=
  match fuel with
  | 0 => throw .outOfFuel
  | fuel + 1 =>
    match args with
    | [] => return []
    | arg :: rest => do
        let v ← eval fuel s arg
        return v :: (← evalArgs fuel s rest)

def evalBody (fuel : Nat) (s : Setting) (last : Value) (statements : List Code) :
    LedgerM Value :=
  match fuel with
  | 0 => throw .outOfFuel
  | fuel + 1 =>
    match statements with
    | [] => return last
    | statement :: rest => do
        let v ← eval fuel s statement
        evalBody fuel s v rest

end

@[simp]
theorem eval_zero (s : Setting) (code : Code) : eval 0 s code = throw .outOfFuel := by
  unfold eval
  rfl

@[simp]
theorem evalArgs_zero (s : Setting) (args : List Code) :
    evalArgs 0 s args = throw .outOfFuel := by
  unfold evalArgs
  rfl

@[simp]
theorem evalBody_zero (s : Setting) (last : Value) (statements : List Code) :
    evalBody 0 s last statements = throw .outOfFuel := by
  unfold evalBody
  rfl

end Ledger

end Lineage.Toy
