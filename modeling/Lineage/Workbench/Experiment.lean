import Lineage.Node.Outline
import Lineage.Node.Snapshot
import Lineage.Toy.Eval
import Lineage.Workbench.Setup

/-!
# Experiments

An experiment runs a toy program a number of times in one session and tells after each run what its
value is and what the shadow state holds. The frame and the value of a run are held while it is looked
at, and given up before the next one.
-/

namespace Lineage.Workbench

open Toy

structure Experiment where
  source : Source
  runs : Nat := 1
  /-- Report the checkpoints to the tracer alone instead of the session. -/
  bareRouter : Bool := false
  /-- The globals and class variables to look at. -/
  globals : List String := []
  classVariables : List String := []
  settings : Settings := {}
  logCheckpoints : Bool := false
  listeners : List RecorderSpec := []
  limit : Option Severity := none

/-- What the record of a main frame holds after the run. -/
structure MainReport where
  stack : List (Node Value)
  marks : Nat
  result : Option (Node Value)
  /-- The histories of the locals by name, oldest node first. -/
  locals : List (String × List (Node Value))
  snapshot : Snapshot
  /-- The outline of the topmost operand. -/
  outline : Option String

inductive RunResult where
  | finished (value : Value) (main : Option MainReport)
  | failed (failure : Failure)
  | outOfFuel

structure RunReport where
  result : RunResult
  globals : List (String × Option (Node Value))
  classVariables : List (String × Option (Node Value))
  stats : StoreStats
  journal : List String
  events : List Event

structure ExperimentReport where
  siteCount : Nat
  runs : List RunReport
  swept : SweepReport
  left : StoreStats
  /-- The events of the end of the session. -/
  events : List Event

namespace MainReport

def ofRecord (record : Record Value) : MainReport :=
  let names := record.locals.mergeSort
  let locals := names.map fun name => (name, record.history name)
  let stack := record.stack.reverse
  { stack
    marks := record.marks.length
    result := record.result
    locals
    snapshot := .ofRoots Value.inspect (stack ++ locals.flatMap Prod.snd)
    outline := record.stack.head?.map (·.outline Value.inspect none) }

end MainReport

namespace Experiment

/-- Steps enough for any program that ends in reasonable time. -/
def fuel : Nat := 1 <<< 40

/-- The entities that are held after a run. -/
def heldAfter (program : Program) : Outcome → List Entity
  | .finished run => .scope program.scope :: .frame run.frame :: Entity.ofValue run.value
  | _ => [.scope program.scope]

/-- Looks at the shadow state after a run. -/
def inspect (e : Experiment) (program : Program) (outcome : Outcome) (world : World)
    (stage : Stage kinds Journal) : RunReport :=
  let store := stage.shadow.store
  let slots := store.scopes.find? program.scope
  { result := match outcome with
      | .finished run =>
          .finished run.value ((store.frames.find? run.frame).map fun entry => .ofRecord entry.content)
      | .failed failure => .failed failure
      | .outOfFuel => .outOfFuel
    globals := e.globals.map fun name => (name, store.globals.get? name)
    classVariables := match slots with
      | some entry => e.classVariables.map fun name => (name, entry.content.get? name)
      | none => []
    stats := store.stats (world.host (heldAfter program outcome) [])
    journal := stage.own.drain.1
    events := stage.shadow.drainLog.1 }

/-- Runs the program `n` times. -/
def repeatRun (e : Experiment) (program : Program) (listener : Listener kinds Journal) :
    Nat → World → Stage kinds Journal → List RunReport × World × Stage kinds Journal
  | 0, world, stage => ([], world, stage)
  | n + 1, world, stage =>
      let (outcome, world, stage) := program.run fuel listener [] world stage
      let report := e.inspect program outcome world stage
      let (reports, world, stage) := repeatRun e program listener n world
        { shadow := stage.shadow.drainLog.2, own := stage.own.drain.2 }
      (report :: reports, world, stage)

/-- The whole experiment; `none` if the program has no main part. -/
def perform (e : Experiment) : Option ExperimentReport := do
  let (scope, world) := ({} : World).addScope
  let program ← e.source.compile scope
  let (session, stage) := startSession e.settings e.logCheckpoints e.listeners e.limit
  let listener : Listener kinds Journal :=
    if e.bareRouter then .ofTracer (Session.tracer e.settings) else session.asListener
  let (runs, world, stage) := e.repeatRun program listener e.runs world stage
  let (summary, shadow) := session.finish (world.host [.scope scope] []) stage.shadow
  return {
    siteCount := program.siteCount
    runs
    swept := summary.swept
    left := summary.stats
    events := shadow.drainLog.1 }

end Experiment

end Lineage.Workbench
