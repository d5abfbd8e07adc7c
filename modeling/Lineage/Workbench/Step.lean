import Lineage.Node.Snapshot
import Lineage.Recorder
import Lineage.Session
import Lineage.Toy.World

/-!
# Steps

A workbench drives the tracer by hand: it keeps toy entities, sites and nodes in named registers and
takes one step after the other. This module holds what a step can be and what it can be answered.
-/

namespace Lineage.Workbench

open Toy

/-- A toy value as a step writes it. -/
inductive ValueSpec where
  | nil
  | int (n : Int)
  | str (s : String)
  /-- The object in a register. -/
  | object (register : String)
  deriving DecidableEq, Repr

/-- A site as a step writes it. -/
structure SiteSpec where
  id : SiteId
  label : String
  /-- These categories replace a `CallNode` that was stated first. -/
  replace : Option (List Category) := none
  categories : List Category := []
  localSlot : Option String := none
  property : Option String := none
  /-- The name of the variable, and the register of its scope. -/
  classVariable : Option (String × String) := none
  globalName : Option String := none
  argument : Option ArgumentSlot := none
  deriving DecidableEq, Repr

namespace SiteSpec

/-- The statements about the site, once its scope is known. -/
def traits (spec : SiteSpec) (scope : Option ScopeId) : List (Site.Trait kinds) :=
  (match spec.replace with
    | some cs => [.category .callNode, .categories (.ofList cs)]
    | none => []) ++
  spec.categories.map .category ++
  (spec.localSlot.map .localSlot).toList ++
  (spec.property.map .property).toList ++
  (match spec.classVariable, scope with
    | some (name, _), some id => [.classVariable name id]
    | _, _ => []) ++
  (spec.globalName.map .globalName).toList ++
  (spec.argument.map fun slot => .argument slot.index slot.count).toList

/-- The site itself, where a class variable belongs to `scope`. -/
def build (spec : SiteSpec) (scope : Option ScopeId) : Except Fault (Site kinds) :=
  Site.build spec.id spec.label (spec.traits scope)

end SiteSpec

/-- The kinds of register. -/
inductive RegisterKind where
  | frame
  | object
  | scope
  | site
  | node
  deriving DecidableEq, Repr

/-- What is reported of a site. -/
inductive MomentSpec where
  | enter
  | leave (value : ValueSpec)
  | unwind (exception : String)
  deriving DecidableEq, Repr

/-- One operation on an activation record. Nodes come from registers. -/
inductive RecordCall where
  | push (node : String)
  | pop
  | peek
  | peekAt (distance : Nat)
  | popMany (count : Nat)
  | depth
  | stack
  | current (name : String)
  | write (name : String) (node : String)
  | history (name : String)
  | locals
  | beginInvocation (count : Nat)
  | endInvocation
  | invocation
  | setResult (node : String)
  | result
  | mark (site : SiteId)
  | takeMark (site : SiteId)
  | unmark (site : SiteId)
  deriving DecidableEq, Repr

/-- One operation on a slot of an object or scope. -/
inductive SlotCall where
  | read
  | current
  | write (node : String)
  | size
  deriving DecidableEq, Repr

/-- The register of an entity that has slots. -/
inductive SlotOwner where
  | object (register : String)
  | scope (register : String)
  deriving DecidableEq, Repr

/-- The register of an entity that has a shadow. -/
inductive ShadowOwner where
  | frame (register : String)
  | object (register : String)
  | scope (register : String)
  deriving DecidableEq, Repr

/-- How a step looks for a shadow. -/
inductive Lookup where
  | find
  | findOrAdd
  /-- Puts a new record in the place of any earlier one; frames only. -/
  | attach
  deriving DecidableEq, Repr

inductive Step where
  | frame (register : String) (caller : Option String) (args : List ValueSpec) (name : String)
  | object (register className : String)
  | scope (register : String)
  | site (register : String) (spec : SiteSpec)
  | drop (kind : RegisterKind) (register : String)
  | checkpoint (site frame : String) (moment : MomentSpec)
  | frameState (frame : String)
  | repeated (times : Nat) (steps : List Step)
  | record (frame : String) (atSite : Option SiteId) (call : RecordCall)
  | slot (owner : SlotOwner) (key : String) (call : SlotCall)
  | shadow (lookup : Lookup) (owner : ShadowOwner)
  | releaseFrame (frame : String)
  | findGlobal (name : String)
  | currentGlobal (name : String)
  | writeGlobal (name node : String)
  | sweep
  | stats
  | poison (owner : ShadowOwner)
  | makeNode (creator : Option Creator) (value : Option ValueSpec) (origins : List String)
  | makeUnknown
  | chain (node : String) (length : Nat)
  | showNode (node : String)
  | compare (a b : String)
  | outline (node : String) (limit : Option Nat)
  | slice (nodes : List String) (countOnly : Bool)
  | dependsOn (node ancestor : String)
  | snapshot (nodes : List String) (find : Option Nat)
  | listeners
  | accepts (source : String) (internal : Bool)
  | finish
  /-- A step that is answered with a node, which goes into a register. -/
  | storing (register : String) (step : Step)

/-- The state of a frame's record. -/
inductive FrameState where
  | absent
  | poisoned
  | present (record : Record Value)

/-- What a step is answered. -/
inductive Answer where
  | done
  | refused (fault : Fault)
  | noSuchRegister (register : String)
  /-- The step needs a session that is still running. -/
  | finished
  | dropped (existed : Bool)
  | reported (fault : Option Fault) (frame : FrameState) (journal : List String)
  | frame (state : FrameState)
  /-- The answers of the last round, each with its log. -/
  | lastRound (answers : List (Answer × List Event))
  /-- An answer about a record, with the depth of its stack and the number of its marks. -/
  | ofRecord (answer : Answer) (depth marks : Nat)
  | node (node : Option (Node Value))
  | nodes (nodes : List (Node Value))
  | count (n : Nat)
  | number (n : Nat)
  | flag (b : Bool)
  | names (names : List String)
  | invocation (count : Option Nat)
  | slots (size : Nat)
  | entity (number : Option Nat)
  | swept (report : SweepReport)
  | stats (stats : StoreStats)
  | shown (node : Node Value)
  | compared (a b : Node Value)
  | text (text : String)
  /-- A snapshot, and the label of the entry that was asked for. -/
  | snapshot (snapshot : Snapshot) (label : Option (Option String))
  | listeners (names : List String)
  | summary (summary : SessionSummary) (id : SessionId)

end Lineage.Workbench
