import Lineage.Dict
import Lineage.Listener

/-!
# Recorders

A recorder is a listener of the embedding program that writes every checkpoint it is told of into a
journal shared by all recorders. It can be asked to refuse some kinds of checkpoint, or every one past
a number.
-/

namespace Lineage

structure Recorder where
  /-- Tells this recorder from the others of its program. -/
  number : Nat
  name : String
  refuses : List MomentKind := []
  limit : Option Nat := none
  deriving DecidableEq, Repr

/-- What the recorders of one program have seen. -/
structure Journal where
  /-- The lines written, most recent first. -/
  lines : List String := []
  /-- How many checkpoints each recorder was told of. -/
  counts : Dict Nat Nat := {}

namespace Journal

/-- The lines so far, oldest first, and the journal without them. -/
def drain (journal : Journal) : List String × Journal :=
  (journal.lines.reverse, { journal with lines := [] })

end Journal

namespace Recorder

variable {K : Kinds}

/-- The line that a recorder writes for a checkpoint. -/
def line (recorder : Recorder) (checkpoint : Checkpoint K) : String :=
  let words := [recorder.name, checkpoint.moment.name, checkpoint.site.label]
  " ".intercalate <| match checkpoint.moment with
    | .enter => words
    | .leave value => words ++ [K.inspect value]
    | .unwind exception => words ++ [exception]

/-- The checkpoint is written down and counted before it is refused. -/
def react (recorder : Recorder) (checkpoint : Checkpoint K) :
    ExceptT Fault (StateM Journal) Unit := do
  let journal ← get
  let count := journal.counts.getD recorder.number 0 + 1
  set ({ lines := recorder.line checkpoint :: journal.lines
         counts := journal.counts.set recorder.number count } : Journal)
  if recorder.refuses.contains checkpoint.moment.kind then
    throw (.violation (.reported (recorder.name ++ " rejected")))
  if recorder.limit.any (· < count) then
    throw (.violation (.reported (recorder.name ++ " limit")))

def listener (recorder : Recorder) : Listener K Journal := .own recorder.name recorder.react

end Recorder

end Lineage
