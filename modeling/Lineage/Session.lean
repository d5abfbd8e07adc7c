import Lineage.Pipeline
import Lineage.SessionId
import Lineage.Settings
import Lineage.Text.Quoted

/-!
# Tracing sessions

A session is the tracer with the listeners of the embedding program after it, and, if asked for, a log
of all checkpoints before it. The host reports its checkpoints to the session; each is handled inside
a span of its own.
-/

namespace Lineage

structure Session (K : Kinds) (S : Type) where
  id : SessionId
  settings : Settings
  pipeline : Pipeline K S

/-- What a session leaves behind. -/
structure SessionSummary where
  session : String
  swept : SweepReport
  stats : StoreStats
  deriving DecidableEq, Repr

namespace Session

variable {K : Kinds} {S : Type}

/-- The tracer that the settings ask for. -/
def tracer (settings : Settings) : Tracer := { outlineWrites := settings.outlineWrites }

/-- A session whose own listeners are `listeners`, in that order. -/
def ofListeners (id : SessionId) (settings : Settings) (logCheckpoints : Bool)
    (listeners : Pipeline K S) : Session K S :=
  let first := if logCheckpoints then [Listener.checkpointLog] else []
  { id, settings, pipeline := Pipeline.merge ⟨first ++ [.ofTracer (tracer settings)]⟩ listeners }

/-- The names of the listeners in the order in which they are told. -/
def listeners (session : Session K S) : List String := session.pipeline.names

/-- The shadow state with which the session starts: an empty store, and the start in the log. -/
def start (session : Session K S) (shadow : Shadow K) : Shadow K :=
  let interval := session.settings.sweepInterval
  { shadow with store := .ofInterval interval }.note .info "Tracing session started" [
    ("sweep_interval", toString interval),
    ("listeners", Text.quoteList session.listeners)]

/-- The span around a checkpoint. -/
def spanOf (checkpoint : Checkpoint K) : Span where
  name := "shadow_checkpoint"
  fields :=
    ("checkpoint", checkpoint.moment.name) :: Checkpoint.siteFields checkpoint.site ++
      [("categories", checkpoint.site.categories.text)]

/-- Runs work inside a span, which is left also if the work fails. -/
def inSpan {α : Type} (span : Span) (work : StageM K S α) : StageM K S α := fun stage =>
  let onLog (change : Log → Log) (stage : Stage K S) : Stage K S :=
    { stage with shadow := { stage.shadow with log := change stage.shadow.log } }
  let (result, stage) := work.run.run (onLog (·.enterSpan span) stage)
  (result, onLog Log.leaveSpan stage)

def react (session : Session K S) (host : Host K) (checkpoint : Checkpoint K) :
    StageM K S Unit :=
  inSpan (spanOf checkpoint) (session.pipeline.react host checkpoint)

/-- The session as a listener. -/
def asListener (session : Session K S) : Listener K S where
  name := "session"
  react := session.react

/-- Sweeps a last time and sums up what is left. -/
def finish (session : Session K S) (host : Host K) (shadow : Shadow K) :
    SessionSummary × Shadow K :=
  let (swept, shadow) := shadow.sweep host
  let stats := shadow.store.stats host
  ({ session := session.id.text, swept, stats },
    shadow.note .info "Tracing session finished" [
      ("swept", toString swept.total),
      ("frames", toString stats.frames),
      ("objects", toString stats.objects),
      ("scopes", toString stats.scopes),
      ("globals", toString stats.globals)])

end Session

end Lineage
