import Lineage.Log
import Lineage.Site
import Lineage.Store

/-!
# The shadow state

The store, the number of the next node and the event log, and the elementary changes from which the
rules of the tracer are made. A change that fails keeps what was done before the failure.
-/

namespace Lineage

structure Shadow (K : Kinds) where
  store : Store K := {}
  nextSeq : Nat := 1
  log : Log := {}

namespace Shadow

variable {K : Kinds}

def note (s : Shadow K) (severity : Severity) (message : String) (fields : Fields) : Shadow K :=
  { s with log := s.log.add severity message fields }

/-- Drops every entry whose key is dead. -/
def sweep (s : Shadow K) (host : Host K) : SweepReport × Shadow K :=
  let (report, store) := s.store.sweep host
  (report, { s with store }.note .debug "Swept shadow registry" [
    ("frames", toString report.frames),
    ("objects", toString report.objects),
    ("scopes", toString report.scopes)])

/-- The events logged so far, oldest first, and the state without them. -/
def drainLog (s : Shadow K) : List Event × Shadow K :=
  let (events, log) := s.log.drain
  (events, { s with log })

end Shadow

/-- Work on the shadow state that may fail. -/
abbrev ShadowM (K : Kinds) := ExceptT Fault (StateM (Shadow K))

/-- Work on one activation record, together with the number of the next node. -/
abbrev RecordM (V : Type) := ExceptT Fault (StateM (Record V × Nat))

/-- Work on the slots of one object or scope, together with the number of the next node. -/
abbrev SlotsM (V : Type) := ExceptT Fault (StateM (Slots V × Nat))

/-! ### Work on one record -/

namespace RecordM

variable {V : Type}

/-- Takes something off the record; the record is left alone if that fails. -/
def take {α : Type} (step : Record V → Except Fault (α × Record V)) : RecordM V α := do
  let (record, next) ← get
  match step record with
  | .ok (a, record) => set (record, next); pure a
  | .error fault => throw fault

def change (step : Record V → Record V) : RecordM V Unit :=
  modify fun (record, next) => (step record, next)

/-- A new node. -/
def create (creator : Option Creator) (value : Option V) (origins : List (Node V)) :
    RecordM V (Node V) := do
  let (record, next) ← get
  set (record, next + 1)
  return { seq := next, creator, value, origins }

/-- The current node of a local. -/
def current (name : String) : RecordM V (Node V) := do
  let (record, next) ← get
  let (node, next, record) := record.current name next
  set (record, next)
  return node

end RecordM

/-! ### Work on the whole state -/

namespace ShadowM

variable {K : Kinds} {α : Type}

/-- Goes on with an outcome that is known already. -/
def settle : Except Fault α → ShadowM K α
  | .ok a => pure a
  | .error fault => throw fault

def note (severity : Severity) (message : String) (fields : Fields) : ShadowM K Unit :=
  modify (·.note severity message fields)

/-- A new node. -/
def create (creator : Option Creator) (value : Option K.Value) (origins : List (Node K.Value)) :
    ShadowM K (Node K.Value) := do
  let s ← get
  set { s with nextSeq := s.nextSeq + 1 }
  return { seq := s.nextSeq, creator, value, origins }

/-- Logs that an insertion dropped entries of dead keys. -/
def noteDropped (dropped : Nat) : ShadowM K Unit :=
  if 0 < dropped then note .trace "Swept dead shadow entries" [("dropped", toString dropped)]
  else pure ()

/-- The record of `frame`, empty if it had none. The nodes `inHand` are in use meanwhile. -/
def openFrame (host : Host K) (inHand : List (Node K.Value)) (frame : K.Frame) :
    ShadowM K (Entry (Record K.Value)) := do
  let s ← get
  let sweeping := s.store.sweepingFrames host inHand
  let (dropped, entry, frames) := s.store.frames.findOrInsert sweeping frame {}
  set { s with store := { s.store with frames } }
  noteDropped dropped
  return entry

/-- A new empty record for `frame` in place of any earlier one. -/
def attachFrame (host : Host K) (frame : K.Frame) : ShadowM K (Entry (Record K.Value)) := do
  let s ← get
  let sweeping := s.store.sweepingFrames host []
  let (dropped, entry, frames) := s.store.frames.insert sweeping frame {}
  set { s with store := { s.store with frames } }
  noteDropped dropped
  return entry

/-- The slots of `object`, empty if it had none. The nodes `inHand` are in use meanwhile. -/
def openObject (host : Host K) (inHand : List (Node K.Value)) (object : K.Object) :
    ShadowM K (Entry (Slots K.Value)) := do
  let s ← get
  let sweeping := s.store.sweepingObjects host inHand
  let (dropped, entry, objects) := s.store.objects.findOrInsert sweeping object {}
  set { s with store := { s.store with objects } }
  noteDropped dropped
  return entry

/-- The slots of `scope`, empty if it had none. The nodes `inHand` are in use meanwhile. -/
def openScope (host : Host K) (inHand : List (Node K.Value)) (scope : K.Scope) :
    ShadowM K (Entry (Slots K.Value)) := do
  let s ← get
  let sweeping := s.store.sweepingScopes host inHand
  let (dropped, entry, scopes) := s.store.scopes.findOrInsert sweeping scope {}
  set { s with store := { s.store with scopes } }
  noteDropped dropped
  return entry

/-- Runs `work` on the contents of an entry found before and puts what became of them back with
    `save`, also if the work failed. -/
def onEntry {E : Type} (what : Guarded) (entry : Entry E) (save : E → Store K → Store K)
    (work : ExceptT Fault (StateM (E × Nat)) α) : ShadowM K α := do
  if entry.poisoned then throw (.poisoned what)
  let s ← get
  let (result, content, nextSeq) := work.run.run (entry.content, s.nextSeq)
  set { s with store := save content s.store, nextSeq }
  settle result

/-- Runs `work` on the record that `frame` has. -/
def onFrame (frame : K.Frame) (entry : Entry (Record K.Value)) (work : RecordM K.Value α) :
    ShadowM K α :=
  onEntry .record entry
    (fun content store =>
      { store with frames := store.frames.modify frame fun e => { e with content } })
    work

/-- Runs `work` on the record of `frame`, a new one if it had none. -/
def withRecord (host : Host K) (inHand : List (Node K.Value)) (frame : K.Frame)
    (work : RecordM K.Value α) : ShadowM K α := do
  onFrame frame (← openFrame host inHand frame) work

/-- Runs `work` on the slots of `object`, new ones if it had none. -/
def withObject (host : Host K) (inHand : List (Node K.Value)) (object : K.Object)
    (work : SlotsM K.Value α) : ShadowM K α := do
  onEntry .object (← openObject host inHand object)
    (fun content store =>
      { store with objects := store.objects.modify object fun e => { e with content } })
    work

/-- Runs `work` on the slots of `scope`, new ones if it had none. -/
def withScope (host : Host K) (inHand : List (Node K.Value)) (scope : K.Scope)
    (work : SlotsM K.Value α) : ShadowM K α := do
  onEntry .scope (← openScope host inHand scope)
    (fun content store =>
      { store with scopes := store.scopes.modify scope fun e => { e with content } })
    work

/-- The node of a global, an unknown one if it was never written. -/
def currentGlobal (name : String) : ShadowM K (Node K.Value) := do
  let s ← get
  let (node, nextSeq, globals) := s.store.globals.current name s.nextSeq
  set { s with store := { s.store with globals }, nextSeq }
  return node

def writeGlobal (name : String) (node : Node K.Value) : ShadowM K Unit :=
  modify fun s => { s with store := { s.store with globals := s.store.globals.set name node } }

end ShadowM

namespace SlotsM

variable {V : Type}

/-- The current node of a slot. -/
def current (name : String) : SlotsM V (Node V) := do
  let (slots, next) ← get
  let (node, next, slots) := slots.current name next
  set (slots, next)
  return node

def write (name : String) (node : Node V) : SlotsM V Unit :=
  modify fun (slots, next) => (slots.set name node, next)

end SlotsM

end Lineage
