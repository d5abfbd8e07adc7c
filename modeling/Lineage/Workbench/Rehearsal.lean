import Lineage.Workbench.Setup

/-!
# Rehearsals

A rehearsal sends checkpoints of one site through a pipeline without a tracer and tells, for each, how
it ended, what the recorders wrote, and what was logged.
-/

namespace Lineage.Workbench

open Toy

/-- What came of one checkpoint. -/
structure Echo where
  fault : Option Fault
  journal : List String
  events : List Event

/-- Sends checkpoints through a listener; whatever becomes of one, the next is sent too. -/
def rehearse (listener : Listener kinds Journal) (site : Site kinds) (stage : Stage kinds Journal) :
    List (Moment Value) → List Echo
  | [] => []
  | moment :: rest =>
      let (frame, world) := ({} : World).addFrame { name := "main", caller := none, args := [] }
      let host := world.host [.frame frame] []
      let (result, stage) := (listener.react host ⟨site, frame, moment⟩).run.run stage
      let (journal, own) := stage.own.drain
      let (events, shadow) := stage.shadow.drainLog
      let fault := match result with
        | .ok () => none
        | .error fault => some fault
      { fault, journal, events } ::
        rehearse listener site { shadow, own } rest

end Lineage.Workbench
