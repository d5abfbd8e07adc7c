import Lineage.Listener
import Lineage.Toy.Program

/-!
# Running toy programs

The evaluator runs code and reports the checkpoints of tagged code to one listener. Code ends with a
value, by a `return` on its way out of the function, or by a failure; a checkpoint that the listener
refuses is a failure, and no checkpoint follows it.

What the evaluator holds at a checkpoint decides which entities have an owner then: the frame and its
callers, the locals of every invocation under way, the globals, and the intermediate values of the
code around the checkpoint, which are passed along as `held`.
-/

namespace Lineage.Toy

/-- Why a program cannot go on. -/
inductive Failure where
  | cannotAdd (left right : Value)
  | undefinedFunction (name : String)
  | noArgument (function : String) (index : Nat)
  /-- A listener refused a checkpoint. -/
  | refused (fault : Fault)
  deriving DecidableEq, Repr

namespace Failure

def message : Failure → String
  | cannotAdd left right => "cannot add " ++ left.inspect ++ " and " ++ right.inspect
  | undefinedFunction name => "undefined function " ++ name
  | noArgument function index => s!"{function} has no argument {index}"
  | refused fault => fault.message

end Failure

/-- Why code ended without a value of its own. -/
inductive Interrupt where
  | returning (value : Value)
  | failing (failure : Failure)
  | outOfFuel
  deriving DecidableEq, Repr

/-- The state of a run. -/
structure Machine (S : Type) where
  world : World
  stage : Stage kinds S
  globals : Dict String Value := {}
  /-- The locals of the innermost invocation. -/
  locals : Dict String Value := {}

/-- What code finds around it. -/
structure Surroundings (S : Type) where
  program : Program
  listener : Listener kinds S
  /-- What is owned by those who asked for the run. -/
  owned : List Entity := []
  frame : FrameId
  /-- Intermediate values of the code around, and the locals of the callers. -/
  held : List Value := []

abbrev EvalM (S : Type) := ExceptT Interrupt (StateM (Machine S))

namespace Surroundings

variable {S : Type}

def hold (s : Surroundings S) (values : List Value) : Surroundings S :=
  { s with held := values ++ s.held }

/-- Everything owned by the run at a moment at which `values` are in use too. -/
def shares (s : Surroundings S) (m : Machine S) (values : List Value) : List Entity :=
  s.owned ++ [.frame s.frame, .scope s.program.scope] ++
    (values ++ s.held ++ m.locals.values ++ m.globals.values).flatMap Entity.ofValue

/-- Reports a checkpoint at which `values` are in use. -/
def report (s : Surroundings S) (site : Site kinds) (moment : Moment Value)
    (values : List Value) : EvalM S Unit := fun m =>
  let host := m.world.host (s.shares m values) []
  let (result, stage) := (s.listener.react host ⟨site, s.frame, moment⟩).run.run m.stage
  (result.mapError (.failing ∘ .refused), { m with stage })

end Surroundings

variable {S : Type}

/-- Logs the start of an invocation. -/
def noteCall (function : String) (count : Nat) : EvalM S Unit :=
  modify fun m =>
    let log := m.stage.shadow.log.add .trace "toy call"
      [("function", function), ("args", toString count)]
    { m with stage := { m.stage with shadow := { m.stage.shadow with log } } }

/-- Runs work with locals of its own; the caller's are there again afterwards. -/
def withFreshLocals {α : Type} (work : EvalM S α) : EvalM S α := fun m =>
  let (result, after) := work.run.run { m with locals := {} }
  (result, { after with locals := m.locals })

/-- What an exception that carries the value of a `return` is shown as. -/
def returnText (value : Value) : String := "(\"return\", " ++ value.inspect ++ ")"

def addValues (left right : Value) : EvalM S Value :=
  match left, right with
  | .int a, .int b => pure (.int (a + b))
  | .str a, .str b => pure (.str (a ++ b))
  | _, _ => throw (.failing (.cannotAdd left right))

mutual

/-- Runs code for at most as many steps as the first argument says. -/
def eval (fuel : Nat) (s : Surroundings S) (code : Code) : EvalM S Value :=
  match fuel with
  | 0 => throw .outOfFuel
  | fuel + 1 =>
    match code with
    | .int n => pure (.int n)
    | .str text => pure (.str text)
    | .nil => pure .nil
    | .new className => do
        let (id, world) := (← get).world.addObject
        modify ({ · with world })
        return .object id className
    | .getLocal name => return (← get).locals.getD name .nil
    | .setLocal name value => do
        let v ← eval fuel s value
        modify fun m => { m with locals := m.locals.set name v }
        return v
    | .arg index => do
        let some frame := (← get).world.frame? s.frame | return .nil
        match frame.args[index]? with
        | some v => return v
        | none => throw (.failing (.noArgument frame.name index))
    | .add left right => do
        let l ← eval fuel s left
        let r ← eval fuel (s.hold [l]) right
        addValues l r
    | .call name args => do
        let values ← evalArgs fuel s args
        let some function := s.program.functions.get? name
          | throw (.failing (.undefinedFunction name))
        let m ← get
        let (frame, world) := m.world.addFrame { name, caller := some s.frame, args := values }
        set { m with world }
        noteCall name values.length
        withFreshLocals (eval fuel { s.hold m.locals.values with frame } function)
    | .getProperty receiver name => do
        match ← eval fuel s receiver with
        | .object id _ => return (← get).world.property id name
        | _ => return .nil
    | .setProperty receiver name value => do
        let v ← eval fuel s value
        match ← eval fuel (s.hold [v]) receiver with
        | .object id _ =>
            modify fun m => { m with world := m.world.setProperty id name v }
            return v
        | _ => return v
    | .getGlobal name => return (← get).globals.getD name .nil
    | .setGlobal name value => do
        let v ← eval fuel s value
        modify fun m => { m with globals := m.globals.set name v }
        return v
    | .getClassVariable name => return (← get).world.classVariable s.program.scope name
    | .setClassVariable name value => do
        let v ← eval fuel s value
        modify fun m => { m with world := m.world.setClassVariable s.program.scope name v }
        return v
    | .ret value => do
        let v ← eval fuel s value
        throw (.returning v)
    | .body statements =>
        tryCatch (evalBody fuel s .nil statements) fun
          | .returning v => pure v
          | other => throw other
    | .tagged site code => do
        s.report site .enter []
        let v ← tryCatch (eval fuel s code) fun
          | .returning v => do
              s.report site (.unwind (returnText v)) [v]
              throw (.returning v)
          | other => throw other
        s.report site (.leave v) [v]
        return v

/-- Runs arguments from left to right, holding the values so far. -/
def evalArgs (fuel : Nat) (s : Surroundings S) (args : List Code) : EvalM S (List Value) :=
  match fuel with
  | 0 => throw .outOfFuel
  | fuel + 1 =>
    match args with
    | [] => return []
    | arg :: rest => do
        let v ← eval fuel s arg
        return v :: (← evalArgs fuel (s.hold [v]) rest)

/-- Runs statements in order, holding the value of the one before; the last value is the result. -/
def evalBody (fuel : Nat) (s : Surroundings S) (last : Value) (statements : List Code) :
    EvalM S Value :=
  match fuel with
  | 0 => throw .outOfFuel
  | fuel + 1 =>
    match statements with
    | [] => return last
    | statement :: rest => do
        let v ← eval fuel (s.hold [last]) statement
        evalBody fuel s v rest

end

@[simp]
theorem eval_zero (s : Surroundings S) (code : Code) : eval 0 s code = throw .outOfFuel := by
  unfold eval
  rfl

@[simp]
theorem evalArgs_zero (s : Surroundings S) (args : List Code) :
    evalArgs 0 s args = throw .outOfFuel := by
  unfold evalArgs
  rfl

@[simp]
theorem evalBody_zero (s : Surroundings S) (last : Value) (statements : List Code) :
    evalBody 0 s last statements = throw .outOfFuel := by
  unfold evalBody
  rfl

/-! ### Whole programs -/

/-- A finished run: the frame of its main part, and the value. -/
structure Run where
  frame : FrameId
  value : Value
  deriving DecidableEq, Repr

inductive Outcome where
  | finished (run : Run)
  | failed (failure : Failure)
  | outOfFuel
  deriving DecidableEq, Repr

namespace Program

/-- Runs the main part of a program with fresh globals in a new frame. `owned` are the entities that
    somebody else holds meanwhile; nothing but the result is held afterwards. -/
def run (p : Program) (fuel : Nat) (listener : Listener kinds S) (owned : List Entity)
    (world : World) (stage : Stage kinds S) : Outcome × World × Stage kinds S :=
  let (frame, world) := world.addFrame { name := "main", caller := none, args := [] }
  let work : EvalM S Value := do
    noteCall "main" 0
    eval fuel { program := p, listener, owned, frame } p.main
  let (result, m) := work.run.run { world, stage }
  let outcome := match result with
    | .ok value | .error (.returning value) => Outcome.finished ⟨frame, value⟩
    | .error (.failing failure) => .failed failure
    | .error .outOfFuel => .outOfFuel
  (outcome, m.world, m.stage)

end Program

end Lineage.Toy
