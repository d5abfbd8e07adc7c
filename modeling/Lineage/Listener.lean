import Lineage.Tracer

/-!
# Listeners

A listener is told of every checkpoint and may refuse it. It works on a stage: the shadow state, and
whatever state the listeners of the embedding program have of their own. A listener made by
`Listener.own` reaches only the latter, so it cannot disturb the shadow state.
-/

namespace Lineage

/-- What listeners work on. -/
structure Stage (K : Kinds) (S : Type) where
  shadow : Shadow K
  /-- The state of the embedding program's own listeners. -/
  own : S

abbrev StageM (K : Kinds) (S : Type) := ExceptT Fault (StateM (Stage K S))

namespace StageM

variable {K : Kinds} {S α : Type}

/-- Work on the shadow state as a part of the stage. -/
def onShadow (work : ShadowM K α) : StageM K S α := fun stage =>
  let (result, shadow) := work.run.run stage.shadow
  (result, { stage with shadow })

/-- Work on the program's own state as a part of the stage. -/
def onOwn (work : ExceptT Fault (StateM S) α) : StageM K S α := fun stage =>
  let (result, own) := work.run.run stage.own
  (result, { stage with own })

end StageM

structure Listener (K : Kinds) (S : Type) where
  /-- The name by which events refer to the listener. -/
  name : String
  react : Host K → Checkpoint K → StageM K S Unit

namespace Listener

variable {K : Kinds} {S : Type}

/-- A listener that works on the program's own state alone. -/
def own (name : String) (react : Checkpoint K → ExceptT Fault (StateM S) Unit) : Listener K S where
  name
  react _ checkpoint := StageM.onOwn (react checkpoint)

/-- The tracer as a listener. -/
def ofTracer (tracer : Tracer) : Listener K S where
  name := "router"
  react host checkpoint := StageM.onShadow (tracer.react host checkpoint)

/-- What the event of a checkpoint tells besides the site. -/
def momentFields (checkpoint : Checkpoint K) : Fields :=
  match checkpoint.moment with
  | .enter => [("categories", checkpoint.site.categories.text)]
  | .leave value => [("value", K.inspect value)]
  | .unwind exception => [("exception", exception)]

/-- Logs every checkpoint and refuses none. -/
def checkpointLog : Listener K S where
  name := "tracing"
  react _ checkpoint := StageM.onShadow <|
    ShadowM.note .trace checkpoint.moment.name
      (Checkpoint.siteFields checkpoint.site ++ momentFields checkpoint)

end Listener

end Lineage
