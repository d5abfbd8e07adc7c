import Lineage.Node.Outline
import Lineage.Workbench.Step

/-!
# Taking steps

The state of a workbench and what each step does to it. A register owns what is in it; beyond the
registers and the shadow store nothing is owned between two steps.
-/

namespace Lineage.Workbench

open Toy

structure Registers where
  frames : Dict String FrameId := {}
  /-- Objects with the names of their classes. -/
  objects : Dict String (ObjectId × String) := {}
  scopes : Dict String ScopeId := {}
  sites : Dict String (Site kinds) := {}
  nodes : Dict String (Node Value) := {}

namespace Registers

/-- The entities that the registers own, those of the nodes apart. -/
def shares (r : Registers) : List Entity :=
  r.frames.values.map .frame ++ r.objects.values.map (.object ·.1) ++
    r.scopes.values.map .scope ++
    r.sites.values.flatMap fun site => (site.classVariable.map fun v => Entity.scope v.scope).toList

end Registers

/-- Who is told of the checkpoints. -/
inductive Mode where
  | router (tracer : Tracer)
  | pipeline (pipeline : Pipeline kinds Journal)
  | session (session : Session kinds Journal)
  /-- Nobody any more. -/
  | finished

/-- The instances that were answered, in the order of their first answer. -/
structure Answered where
  frames : List Nat := []
  objects : List Nat := []
  scopes : List Nat := []

structure Bench where
  mode : Mode
  stage : Stage kinds Journal
  world : World := {}
  registers : Registers := {}
  answered : Answered := {}

/-- A step ends early with the answer that it throws. -/
abbrev BenchM := ExceptT Answer (StateM Bench)

namespace Bench

def host (b : Bench) : Host kinds := b.world.host b.registers.shares b.registers.nodes.values

def store (b : Bench) : Store kinds := b.stage.shadow.store

end Bench

/-! ### Registers -/

def lookUp {α : Type} (registers : Registers → Dict String α) (name : String) : BenchM α := do
  match (registers (← get).registers).get? name with
  | some a => return a
  | none => throw (.noSuchRegister name)

def changeRegisters (change : Registers → Registers) : BenchM Unit :=
  modify fun b => { b with registers := change b.registers }

def resolve : ValueSpec → BenchM Value
  | .nil => return .nil
  | .int n => return .int n
  | .str s => return .str s
  | .object register => do
      let (id, className) ← lookUp (·.objects) register
      return .object id className

/-! ### The shadow state -/

/-- Changes the shadow state in a way that cannot fail. -/
def changeShadow {α : Type} (work : Shadow kinds → α × Shadow kinds) : BenchM α := do
  let b ← get
  let (a, shadow) := work b.stage.shadow
  set { b with stage := { b.stage with shadow } }
  return a

/-- Works on the shadow state and gives the outcome. -/
def tryShadow {α : Type} (work : ShadowM kinds α) : BenchM (Except Fault α) := do
  let b ← get
  let (result, shadow) := work.run.run b.stage.shadow
  set { b with stage := { b.stage with shadow } }
  return result

/-- Works on the shadow state; a fault is the answer to the step. -/
def onShadow {α : Type} (work : ShadowM kinds α) : BenchM α := do
  match ← tryShadow work with
  | .ok a => return a
  | .error fault => throw (.refused fault)

def stateOf (frame : FrameId) : BenchM FrameState := do
  match (← get).store.frames.find? frame with
  | none => return .absent
  | some entry => return if entry.poisoned then .poisoned else .present entry.content

/-- Tells the listeners of a checkpoint. -/
def dispatch (checkpoint : Checkpoint kinds) : BenchM (Except Fault Unit) := do
  let b ← get
  let listener : Listener kinds Journal ← match b.mode with
    | .router tracer => pure (Listener.ofTracer tracer)
    | .pipeline p => pure p.asListener
    | .session s => pure s.asListener
    | .finished => throw .finished
  let (result, stage) := (listener.react b.host checkpoint).run.run b.stage
  set { b with stage }
  return result

/-- The journal lines written since the last time. -/
def drainJournal : BenchM (List String) := do
  let b ← get
  let (lines, journal) := b.stage.own.drain
  set { b with stage := { b.stage with own := journal } }
  return lines

/-- The number under which an instance is answered, with the instances answered so far. -/
def numberOf (seen : List Nat) (instanceNumber : Nat) : Nat × List Nat :=
  match seen.findIdx? (· = instanceNumber) with
  | some i => (i, seen)
  | none => (seen.length, seen ++ [instanceNumber])

/-! ### Records and slots -/

/-- Does one operation on a record. -/
def callRecord (frame : FrameId) (atSite : Option SiteId) (call : RecordCall)
    (node : Option (Node Value)) : BenchM Answer := do
  let host := (← get).host
  let located (fault : Fault) : Fault := (atSite.map fault.atSite).getD fault
  let work : RecordM Value Answer := do
    let (record, _) ← get
    match call, node with
    | .push _, some node => RecordM.change (·.push node); return .done
    | .pop, _ => return .node (some (← RecordM.take Record.pop))
    | .peek, _ => return .node (some (← RecordM.take fun r => (r.peekAt 0).map (·, r)))
    | .peekAt distance, _ =>
        return .node (some (← RecordM.take fun r => (r.peekAt distance).map (·, r)))
    | .popMany count, _ => return .nodes (← RecordM.take (·.popMany count))
    | .depth, _ => return .number record.depth
    | .stack, _ => return .nodes record.stack.reverse
    | .current name, _ => return .node (some (← RecordM.current name))
    | .write name _, some node => RecordM.change (·.write name node); return .done
    | .history name, _ => return .nodes (record.history name)
    | .locals, _ => return .names (record.locals.mergeSort)
    | .beginInvocation count, _ =>
        RecordM.take fun r => (r.beginInvocation count).map ((), ·)
        return .done
    | .endInvocation, _ => return .number (← RecordM.take Record.endInvocation)
    | .invocation, _ => return .invocation record.invocation
    | .setResult _, some node => RecordM.change (·.setResult node); return .done
    | .result, _ => return .node record.result
    | .mark site, _ => RecordM.change (·.mark site); return .done
    | .takeMark site, _ => return .number (← RecordM.take (·.takeMark site))
    | .unmark site, _ =>
        RecordM.change (·.unmark site)
        return .flag (record.mark? site).isSome
    | _, none => return .done
  let entry ← onShadow (ShadowM.openFrame host [] frame)
  if entry.poisoned then throw (.refused (.poisoned .record))
  let outcome ← tryShadow (ShadowM.onFrame frame entry work)
  let answer := match outcome with
    | .ok answer => answer
    | .error fault => .refused (located fault)
  match ← stateOf frame with
  | .present record => return .ofRecord answer record.depth record.marks.length
  | _ => return answer

/-- The register of the node that an operation on a record needs. -/
def RecordCall.node? : RecordCall → Option String
  | .push node | .write _ node | .setResult node => some node
  | _ => none

/-- The register of the node that an operation on a slot needs. -/
def SlotCall.node? : SlotCall → Option String
  | .write node => some node
  | _ => none

/-- Does one operation on a slot. -/
def callSlot (key : String) (call : SlotCall) (node : Option (Node Value)) :
    SlotsM Value Answer := do
  match call, node with
  | .current, _ => return .node (some (← SlotsM.current key))
  | .read, _ => return .node ((← get).1.get? key)
  | .write _, some node =>
      SlotsM.write key node
      return .slots (← get).1.size
  | _, _ => return .slots (← get).1.size

/-! ### Shadows -/

/-- The number under which a shadow is answered; a shadow that is only looked for may be absent. -/
def answerShadow (lookup : Lookup) (owner : ShadowOwner) : BenchM Answer := do
  let number (seen : Answered → List Nat) (put : List Nat → Answered → Answered)
      (found : Option Nat) : BenchM Answer := do
    let some n := found | return .entity none
    let b ← get
    let (k, list) := numberOf (seen b.answered) n
    set { b with answered := put list b.answered }
    return .entity (some k)
  match owner with
  | .frame register =>
      let id ← lookUp (·.frames) register
      let b ← get
      let found ← match lookup with
        | .find => pure (b.store.frames.find? id)
        | .findOrAdd => some <$> onShadow (ShadowM.openFrame b.host [] id)
        | .attach => some <$> onShadow (ShadowM.attachFrame b.host id)
      number (·.frames) (fun list a => { a with frames := list }) (found.map (·.instanceNumber))
  | .object register =>
      let (id, _) ← lookUp (·.objects) register
      let b ← get
      let found ← match lookup with
        | .find => pure (b.store.objects.find? id)
        | _ => some <$> onShadow (ShadowM.openObject b.host [] id)
      number (·.objects) (fun list a => { a with objects := list }) (found.map (·.instanceNumber))
  | .scope register =>
      let id ← lookUp (·.scopes) register
      let b ← get
      let found ← match lookup with
        | .find => pure (b.store.scopes.find? id)
        | _ => some <$> onShadow (ShadowM.openScope b.host [] id)
      number (·.scopes) (fun list a => { a with scopes := list }) (found.map (·.instanceNumber))

/-- A listener breaks off while it holds the shadow, which is made first if need be. -/
def poisonShadow (owner : ShadowOwner) : BenchM Unit := do
  let changeStore (change : Store kinds → Store kinds) : BenchM Unit :=
    onShadow (modify fun s => { s with store := change s.store })
  match owner with
  | .frame register =>
      let id ← lookUp (·.frames) register
      discard (onShadow (ShadowM.openFrame (← get).host [] id))
      changeStore fun s => { s with frames := s.frames.modify id ({ · with poisoned := true }) }
  | .object register =>
      let (id, _) ← lookUp (·.objects) register
      discard (onShadow (ShadowM.openObject (← get).host [] id))
      changeStore fun s => { s with objects := s.objects.modify id ({ · with poisoned := true }) }
  | .scope register =>
      let id ← lookUp (·.scopes) register
      discard (onShadow (ShadowM.openScope (← get).host [] id))
      changeStore fun s => { s with scopes := s.scopes.modify id ({ · with poisoned := true }) }

/-! ### Nodes -/

/-- A chain of nodes on top of `node`, each with the one before as its only origin and a number for
    its value. -/
def extendChain (node : Node Value) : List Nat → ShadowM kinds (Node Value)
  | [] => return node
  | i :: rest => do
      extendChain (← ShadowM.create none (some (.int i)) [node]) rest

/-- Empties a register; tells whether there was anything in it. -/
def dropRegister (kind : RegisterKind) (name : String) : BenchM Bool := do
  let r := (← get).registers
  match kind with
  | .frame =>
      changeRegisters fun r => { r with frames := r.frames.erase name }
      return r.frames.contains name
  | .object =>
      changeRegisters fun r => { r with objects := r.objects.erase name }
      return r.objects.contains name
  | .scope =>
      changeRegisters fun r => { r with scopes := r.scopes.erase name }
      return r.scopes.contains name
  | .site =>
      changeRegisters fun r => { r with sites := r.sites.erase name }
      return r.sites.contains name
  | .node =>
      changeRegisters fun r => { r with nodes := r.nodes.erase name }
      return r.nodes.contains name

def storeNode (name : String) (node : Node Value) : BenchM Unit :=
  changeRegisters fun r => { r with nodes := r.nodes.set name node }

/-! ### Steps -/

/-- The node that an answer consists of. -/
def Answer.node? : Answer → Option (Node Value)
  | .node found => found
  | .ofRecord answer _ _ => answer.node?
  | _ => none

/-- Does `round` as many times as it says and keeps what the last time gives. -/
def lastOf (round : BenchM (List (Answer × List Event))) :
    Nat → List (Answer × List Event) → BenchM (List (Answer × List Event))
  | 0, last => return last
  | n + 1, _ => do lastOf round n (← round)

/-- The answer of a step, also if it ended early. -/
def answerOf (step : BenchM Answer) : BenchM Answer := fun b =>
  match step.run.run b with
  | (.ok answer, b) | (.error answer, b) => (.ok answer, b)

mutual

/-- Takes one step; what it throws is its answer. -/
def Step.take : Step → BenchM Answer
  | .frame register caller args name => do
      let caller ← caller.mapM (lookUp (·.frames))
      let args ← args.mapM resolve
      let b ← get
      let (id, world) := b.world.addFrame { name, caller, args }
      set { b with world }
      changeRegisters fun r => { r with frames := r.frames.set register id }
      return .done
  | .object register className => do
      let b ← get
      let (id, world) := b.world.addObject
      set { b with world }
      changeRegisters fun r => { r with objects := r.objects.set register (id, className) }
      return .done
  | .scope register => do
      let b ← get
      let (id, world) := b.world.addScope
      set { b with world }
      changeRegisters fun r => { r with scopes := r.scopes.set register id }
      return .done
  | .site register spec => do
      let scope ← spec.classVariable.mapM fun v => lookUp (·.scopes) v.2
      match spec.build scope with
      | .ok site =>
          changeRegisters fun r => { r with sites := r.sites.set register site }
          return .done
      | .error fault => return .refused fault
  | .drop kind register => return .dropped (← dropRegister kind register)
  | .checkpoint site frame moment => do
      let site ← lookUp (·.sites) site
      let frame ← lookUp (·.frames) frame
      let moment ← match moment with
        | .enter => pure Moment.enter
        | .leave value => Moment.leave <$> resolve value
        | .unwind exception => pure (.unwind (Text.quote exception))
      let result ← dispatch ⟨site, frame, moment⟩
      let fault := match result with
        | .ok () => none
        | .error fault => some fault
      return .reported fault (← stateOf frame) (← drainJournal)
  | .frameState frame => do return .frame (← stateOf (← lookUp (·.frames) frame))
  | .repeated times steps => do return .lastRound (← lastOf (takeAll steps) times [])
  | .record frame atSite call => do
      let frame ← lookUp (·.frames) frame
      let node ← call.node?.mapM (lookUp (·.nodes))
      callRecord frame atSite call node
  | .slot owner key call => do
      let node ← call.node?.mapM (lookUp (·.nodes))
      match owner with
      | .object register =>
          let (id, _) ← lookUp (·.objects) register
          onShadow (ShadowM.withObject (← get).host [] id (callSlot key call node))
      | .scope register =>
          let id ← lookUp (·.scopes) register
          onShadow (ShadowM.withScope (← get).host [] id (callSlot key call node))
  | .shadow lookup owner => answerShadow lookup owner
  | .releaseFrame frame => do
      let id ← lookUp (·.frames) frame
      let (existed, frames) := (← get).store.frames.remove id
      onShadow (modify fun s => { s with store := { s.store with frames } })
      return .flag existed
  | .findGlobal name => return .node ((← get).store.globals.get? name)
  | .currentGlobal name => return .node (some (← onShadow (ShadowM.currentGlobal name)))
  | .writeGlobal name node => do
      let node ← lookUp (·.nodes) node
      onShadow (ShadowM.writeGlobal name node)
      return .done
  | .sweep => do
      let b ← get
      return .swept (← changeShadow (·.sweep b.host))
  | .stats => do
      let b ← get
      return .stats (b.store.stats b.host)
  | .poison owner => do
      poisonShadow owner
      return .done
  | .makeNode creator value origins => do
      let value ← value.mapM resolve
      let origins ← origins.mapM (lookUp (·.nodes))
      return .node (some (← onShadow (ShadowM.create creator value origins)))
  | .makeUnknown => return .node (some (← onShadow (ShadowM.create none none [])))
  | .chain node length => do
      let node ← lookUp (·.nodes) node
      return .node (some (← onShadow (extendChain node (List.range length))))
  | .showNode node => return .shown (← lookUp (·.nodes) node)
  | .compare a b => return .compared (← lookUp (·.nodes) a) (← lookUp (·.nodes) b)
  | .outline node limit => do
      return .text ((← lookUp (·.nodes) node).outline Value.inspect limit)
  | .slice nodes countOnly => do
      let slice := Node.slice (← nodes.mapM (lookUp (·.nodes)))
      return if countOnly then .count slice.length else .nodes slice
  | .dependsOn node ancestor =>
      return .flag ((← lookUp (·.nodes) node).dependsOn (← lookUp (·.nodes) ancestor))
  | .snapshot nodes find => do
      let snapshot := Snapshot.ofRoots Value.inspect (← nodes.mapM (lookUp (·.nodes)))
      return .snapshot snapshot (find.map fun seq => (snapshot.entry? seq).map (·.label))
  | .listeners => do
      match (← get).mode with
      | .router _ => return .listeners ["router"]
      | .pipeline p => return .listeners p.names
      | .session s => return .listeners s.listeners
      | .finished => return .listeners []
  | .accepts source internal => do
      match (← get).mode with
      | .session s => return .flag (s.settings.sourceFilter.accepts source internal)
      | _ => return .finished
  | .finish => do
      let b ← get
      set { b with mode := .finished }
      match b.mode with
      | .session s => return .summary (← changeShadow (s.finish b.host)) s.id
      | _ => return .finished
  | .storing register step => do
      let answer ← step.take
      if let some node := answer.node? then storeNode register node
      return answer

/-- Takes steps in order; each is answered, and the events logged meanwhile go with the answer. -/
def takeAll : List Step → BenchM (List (Answer × List Event))
  | [] => return []
  | step :: rest => do
      let answer ← answerOf step.take
      let events ← changeShadow Shadow.drainLog
      return (answer, events) :: (← takeAll rest)

end
end Lineage.Workbench
