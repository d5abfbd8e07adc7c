import Lineage.Workbench.Run

/-!
# Setting up a workbench

The listeners a workbench is asked for, and the three ways of setting it up: with the tracer alone,
with a pipeline put together as asked, and with a session.
-/

namespace Lineage.Workbench

open Toy

/-- A recorder as it is asked for. -/
structure RecorderSpec where
  name : String
  refuses : List MomentKind := []
  limit : Option Nat := none
  deriving DecidableEq, Repr

inductive ListenerSpec where
  | checkpointLog
  | router
  | recorder (spec : RecorderSpec)
  /-- A pipeline that stands as one listener. -/
  | nested (inner : List ListenerSpec)
  /-- The listeners of a pipeline of their own. -/
  | merged (inner : List ListenerSpec)

/-- A recorder with the next free number. -/
def RecorderSpec.listener (spec : RecorderSpec) : StateM Nat (Listener kinds Journal) := do
  let number ← modifyGet fun n => (n, n + 1)
  let recorder : Recorder := { number, name := spec.name, refuses := spec.refuses, limit := spec.limit }
  return recorder.listener

mutual

/-- Puts one listener before the rest of a plan. A router is passed over where there is no tracer. -/
def ListenerSpec.plan (tracer : Option Tracer) (rest : StateM Nat (PipelinePlan kinds Journal)) :
    ListenerSpec → StateM Nat (PipelinePlan kinds Journal)
  | .checkpointLog => return .listener .checkpointLog (← rest)
  | .router =>
      match tracer with
      | some t => return .listener (.ofTracer t) (← rest)
      | none => rest
  | .recorder spec => do
      let listener ← spec.listener
      return .listener listener (← rest)
  | .nested inner => do
      let plan ← planOf tracer inner
      return .nested plan (← rest)
  | .merged inner => do
      let plan ← planOf tracer inner
      return .merged plan (← rest)

/-- The plan for listeners in their order. -/
def planOf (tracer : Option Tracer) : List ListenerSpec → StateM Nat (PipelinePlan kinds Journal)
  | [] => return .done
  | spec :: rest => spec.plan tracer (planOf tracer rest)

end

/-- The pipeline of the listeners asked for. -/
def pipelineOf (tracer : Option Tracer) (specs : List ListenerSpec) : Pipeline kinds Journal :=
  ((planOf tracer specs).run 0).1.build

/-- The pipeline of some recorders. -/
def recorders (specs : List RecorderSpec) : Pipeline kinds Journal :=
  pipelineOf none (specs.map .recorder)

/-- How a workbench is set up. -/
inductive Layout where
  | router
  | pipeline (listeners : List ListenerSpec)
  | session (logCheckpoints : Bool) (listeners : List RecorderSpec)

/-- The identity of the one session of a workbench. -/
def sessionId : SessionId := ⟨0⟩

/-- A stage on which nothing has happened yet. -/
def freshStage (settings : Settings) (limit : Option Severity) : Stage kinds Journal where
  shadow := { store := .ofInterval settings.sweepInterval, log := { limit } }
  own := {}

/-- A session with some recorders, and the stage on which it has started. -/
def startSession (settings : Settings) (logCheckpoints : Bool) (listeners : List RecorderSpec)
    (limit : Option Severity) : Session kinds Journal × Stage kinds Journal :=
  let session := Session.ofListeners sessionId settings logCheckpoints (recorders listeners)
  let stage := freshStage settings limit
  (session, { stage with shadow := session.start stage.shadow })

namespace Bench

/-- The workbench before its first step, and the events logged so far. -/
def setUp (layout : Layout) (settings : Settings) (limit : Option Severity) :
    Bench × List Event :=
  let tracer := Session.tracer settings
  let bench : Bench := match layout with
    | .router => { mode := .router tracer, stage := freshStage settings limit }
    | .pipeline listeners =>
        { mode := .pipeline (pipelineOf (some tracer) listeners), stage := freshStage settings limit }
    | .session logCheckpoints listeners =>
        let (session, stage) := startSession settings logCheckpoints listeners limit
        { mode := .session session, stage }
  let (events, shadow) := bench.stage.shadow.drainLog
  ({ bench with stage := { bench.stage with shadow } }, events)

/-- Takes the steps in order and gives their answers. -/
def take (b : Bench) (steps : List Step) : List (Answer × List Event) :=
  match ((takeAll steps).run.run b).1 with
  | .ok answers => answers
  | .error _ => []

end Bench

end Lineage.Workbench
