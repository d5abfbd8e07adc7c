import Lineage.Listener

/-!
# Pipelines

A pipeline tells its listeners of a checkpoint in their order. The first refusal ends the checkpoint:
it is logged, and handed on as the pipeline's own. A pipeline can stand as a listener in another one,
and two can be merged into one.
-/

namespace Lineage

structure Pipeline (K : Kinds) (S : Type) where
  listeners : List (Listener K S) := []

namespace Pipeline

variable {K : Kinds} {S : Type}

def push (p : Pipeline K S) (listener : Listener K S) : Pipeline K S :=
  ⟨p.listeners ++ [listener]⟩

/-- The listeners of `p`, then those of `q`. -/
def merge (p q : Pipeline K S) : Pipeline K S := ⟨p.listeners ++ q.listeners⟩

def size (p : Pipeline K S) : Nat := p.listeners.length

def isEmpty (p : Pipeline K S) : Bool := p.listeners.isEmpty

/-- The names of the listeners in the order in which they are told. -/
def names (p : Pipeline K S) : List String := p.listeners.map (·.name)

/-- Logs that a listener refused a checkpoint. -/
def noteRefusal (listener : Listener K S) (checkpoint : Checkpoint K) (fault : Fault) :
    StageM K S Unit :=
  StageM.onShadow <| ShadowM.note .warn "Listener rejected checkpoint" <|
    [("listener", listener.name), ("checkpoint", checkpoint.moment.name)] ++
      Checkpoint.siteFields checkpoint.site ++ [("error", fault.message)]

/-- Tells one listener of a checkpoint and logs a refusal. -/
def tell (host : Host K) (checkpoint : Checkpoint K) (listener : Listener K S) :
    StageM K S Unit :=
  tryCatch (listener.react host checkpoint) fun fault => do
    noteRefusal listener checkpoint fault
    throw fault

def react (p : Pipeline K S) (host : Host K) (checkpoint : Checkpoint K) : StageM K S Unit :=
  p.listeners.forM (tell host checkpoint)

/-- The whole pipeline as one listener. -/
def asListener (p : Pipeline K S) : Listener K S where
  name := "pipeline"
  react := p.react

end Pipeline

/-! ### Plans -/

/-- How a pipeline is put together. -/
inductive PipelinePlan (K : Kinds) (S : Type) where
  | done
  /-- One listener, then the rest. -/
  | listener (l : Listener K S) (rest : PipelinePlan K S)
  /-- A pipeline as one listener, then the rest. -/
  | nested (inner rest : PipelinePlan K S)
  /-- The listeners of another pipeline, then the rest. -/
  | merged (inner rest : PipelinePlan K S)

namespace PipelinePlan

variable {K : Kinds} {S : Type}

/-- The pipeline after the listeners of the plan have been added to it in order. -/
def extend (p : Pipeline K S) : PipelinePlan K S → Pipeline K S
  | done => p
  | listener l rest => rest.extend (p.push l)
  | nested inner rest => rest.extend (p.push (inner.extend {}).asListener)
  | merged inner rest => rest.extend (p.merge (inner.extend {}))

/-- The pipeline that the plan describes. -/
def build (plan : PipelinePlan K S) : Pipeline K S := plan.extend {}

/-- The listeners of the plan from left to right, whatever pipelines they stand in. -/
def leaves : PipelinePlan K S → List (Listener K S)
  | done => []
  | listener l rest => l :: rest.leaves
  | nested inner rest => inner.leaves ++ rest.leaves
  | merged inner rest => inner.leaves ++ rest.leaves

end PipelinePlan

end Lineage
