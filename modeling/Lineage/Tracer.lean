import Lineage.Checkpoint
import Lineage.Node.Outline
import Lineage.Shadow

/-!
# The tracer

The tracer keeps the shadow state in step with the host. At every checkpoint it applies one rule per
category of the site, in the order of the categories: `enter` attaches records and notes stack depths,
`leave` builds the node of the value that the site produced, and `unwind` cleans up after a site that
produced none.

A rule that fails says so before it builds a node; what it had taken off the stack stays off.
-/

namespace Lineage

structure Tracer where
  /-- Log the outline of every node written to a local or class variable. -/
  outlineWrites : Bool := false
  deriving DecidableEq, Repr

namespace Tracer

variable {K : Kinds}

/-- The creator of the nodes that a site builds. -/
def creatorOf (site : Site K) : Option Creator := some ⟨site.id, site.label⟩

/-- A new node for the value that a site produced. -/
def nodeOf (site : Site K) (value : K.Value) (origins : List (Node K.Value)) :
    ShadowM K (Node K.Value) :=
  ShadowM.create (creatorOf site) (some value) origins

/-- Pushes a node onto the stack of `frame`. -/
def pushOn (host : Host K) (frame : K.Frame) (node : Node K.Value) : ShadowM K Unit :=
  ShadowM.withRecord host [node] frame (RecordM.change (·.push node))

/-- Takes off everything pushed since `site` was entered, most recent first. -/
def takeOperands (site : Site K) : RecordM K.Value (List (Node K.Value)) := do
  let marked ← RecordM.take (·.takeMark site.id)
  let (record, _) ← get
  let depth := record.depth
  if depth < marked then
    throw (.violation (.belowEntryDepth site.id site.label depth marked))
  RecordM.take (·.popMany (depth - marked))

/-- As `takeOperands`, but refuses an empty list; the first operand is the receiver. -/
def takeReceiver (site : Site K) (absent : Violation) :
    RecordM K.Value (Node K.Value × List (Node K.Value)) := do
  match ← takeOperands site with
  | receiver :: others => pure (receiver, others)
  | [] => throw (.violation absent)

/-- Takes the topmost operand and makes it the origin of a node of the site's own, which is returned
    but not pushed. -/
def popInto (site : Site K) (value : K.Value) : RecordM K.Value (Node K.Value) := do
  let origin ← RecordM.take Record.pop
  RecordM.create (creatorOf site) (some value) [origin]

/-- The object that a node's value refers to. -/
def objectBehind (host : Host K) (node : Node K.Value) : Option K.Object :=
  node.value.bind host.objectOf

def noteWritten (tracer : Tracer) (site : Site K) (node : Node K.Value) : ShadowM K Unit :=
  if tracer.outlineWrites then
    ShadowM.note .trace "Wrote shadow tree"
      (Checkpoint.siteFields site ++ [("tree", node.outline K.inspect none)])
  else pure ()

/-! ### Rules applied on return -/

/-- A function that leaves exactly one operand hands it to its caller, if that is traced. -/
def handBack (host : Host K) (site : Site K) (frame : K.Frame) : ShadowM K Unit := do
  let some caller := host.callerOf frame | return
  let fields := Checkpoint.siteFields site
  let frames := (← get).store.frames
  if (frames.find? caller).isNone then
    ShadowM.note .debug "Caller is not traced" fields
    return
  let some callee := frames.find? frame | return
  let result ← ShadowM.onFrame frame callee do
    let (record, _) ← get
    if record.depth = 1 then some <$> RecordM.take Record.pop else pure none
  match result with
  | none =>
      ShadowM.note .debug "Callee stack does not hold exactly one result"
        (fields ++ [("depth", toString callee.content.depth)])
  | some node =>
      let some entry := (← get).store.frames.find? caller | return
      ShadowM.onFrame caller entry (RecordM.change (·.push node))

/-- The operand of the caller that a site binds as an argument: with `count` arguments on top of the
    caller's stack, argument `index` lies `count - index - 1` places below the top. Of an untraced
    caller nothing is known. -/
def argumentOrigin (host : Host K) (site : Site K) (frame : K.Frame) (index count : Nat) :
    ShadowM K (Node K.Value) := do
  let frames := (← get).store.frames
  match (host.callerOf frame).bind fun caller => (frames.find? caller).map (caller, ·) with
  | some (caller, entry) =>
      ShadowM.onFrame caller entry do
        let (record, _) ← get
        match record.peekAt (count - (index + 1)) with
        | .ok node => pure node
        | .error fault => throw fault
  | none =>
      ShadowM.note .debug "Argument bound from an untraced call site"
        (Checkpoint.siteFields site ++ [("index", toString index)])
      ShadowM.create none none []

def bindArgument (host : Host K) (site : Site K) (frame : K.Frame) (value : K.Value) :
    ShadowM K Unit := do
  let slot ← ShadowM.settle site.requireArgument
  let count ← match slot.count with
    | .declared count => pure count
    | .fromFrame => do
        let count := host.argumentCount frame
        if count ≤ slot.index then
          ShadowM.note .debug "Argument index is past the frame's argument count"
            (Checkpoint.siteFields site ++
              [("index", toString slot.index), ("count", toString count)])
        pure count
  let origin ← argumentOrigin host site frame slot.index count
  pushOn host frame (← nodeOf site value [origin])

/-- The operands of a property assignment are the receiver and then the assigned value. -/
def assignProperty (host : Host K) (site : Site K) (frame : K.Frame) (value : K.Value) :
    ShadowM K Unit := do
  let property ← ShadowM.settle site.requireProperty
  let (receiver, node) ← ShadowM.withRecord host [] frame do
    let (receiver, others) ← takeReceiver site (.writeWithoutReceiver site.id site.label)
    let node ← RecordM.create (creatorOf site) (some value) (receiver :: others)
    pure (receiver, node)
  match objectBehind host receiver with
  | some object => ShadowM.withObject host [node] object (SlotsM.write property node)
  | none =>
      ShadowM.note .debug "Property write on a receiver that is not a known object"
        (Checkpoint.siteFields site ++ [("property", property)])
  pushOn host frame node

/-- The slot that is read becomes the last origin, after the receiver. -/
def fetchProperty (host : Host K) (site : Site K) (frame : K.Frame) (value : K.Value) :
    ShadowM K Unit := do
  let property ← ShadowM.settle site.requireProperty
  let (receiver, others) ← ShadowM.withRecord host [] frame
    (takeReceiver site (.readWithoutReceiver site.id site.label))
  let operands := receiver :: others
  let slot ← match objectBehind host receiver with
    | some object => ShadowM.withObject host operands object (SlotsM.current property)
    | none => do
        ShadowM.note .debug "Property read on a receiver that is not a known object"
          (Checkpoint.siteFields site ++ [("property", property)])
        ShadowM.create none none []
  pushOn host frame (← nodeOf site value (operands ++ [slot]))

/-- The rule of one category for a site that returned `value`. -/
def applyLeave (tracer : Tracer) (host : Host K) (site : Site K) (frame : K.Frame)
    (value : K.Value) : Category → ShadowM K Unit
  | .functionBoundary => handBack host site frame
  | .noUseDefStack => do pushOn host frame (← nodeOf site value [])
  | .useStackDefStack =>
      ShadowM.withRecord host [] frame do
        let operands ← takeOperands site
        let node ← RecordM.create (creatorOf site) (some value) operands
        RecordM.change (·.push node)
  | .useLocalDefStack => do
      let name ← ShadowM.settle site.requireLocal
      ShadowM.withRecord host [] frame do
        let origin ← RecordM.current name
        let node ← RecordM.create (creatorOf site) (some value) [origin]
        RecordM.change (·.push node)
  | .useStackDefLocalStack => do
      let name ← ShadowM.settle site.requireLocal
      let node ← ShadowM.withRecord host [] frame do
        let node ← popInto site value
        RecordM.change fun record => (record.write name node).push node
        pure node
      noteWritten tracer site node
  | .useArgDefStack => bindArgument host site frame value
  | .useStackDefPropertyStack => assignProperty host site frame value
  | .usePropertyStackDefStack => fetchProperty host site frame value
  | .useStackDefReturn => pure ()
  | .useClassVarDefStack => do
      let owned ← ShadowM.settle site.requireClassVariable
      let origin ← ShadowM.withScope host [] owned.scope (SlotsM.current owned.name)
      pushOn host frame (← nodeOf site value [origin])
  | .useStackDefClassVar => do
      let owned ← ShadowM.settle site.requireClassVariable
      let node ← ShadowM.withRecord host [] frame (popInto site value)
      ShadowM.withScope host [node] owned.scope (SlotsM.write owned.name node)
      noteWritten tracer site node
      pushOn host frame node
  | .useGlobalDefStack => do
      let name ← ShadowM.settle site.requireGlobal
      let origin ← ShadowM.currentGlobal name
      pushOn host frame (← nodeOf site value [origin])
  | .useStackDefGlobal => do
      let name ← ShadowM.settle site.requireGlobal
      let node ← ShadowM.withRecord host [] frame (popInto site value)
      ShadowM.writeGlobal name node
      pushOn host frame node
  | .callNode => ShadowM.note .trace "call node" (Checkpoint.siteFields site)

/-! ### Rules applied on enter -/

/-- The rule of one category for a site that is entered. -/
def applyEnter (host : Host K) (site : Site K) (frame : K.Frame) (category : Category) :
    ShadowM K Unit :=
  if category = .functionBoundary then discard (ShadowM.attachFrame host frame)
  else if category.marksDepth then
    ShadowM.withRecord host [] frame (RecordM.change (·.mark site.id))
  else pure ()

/-! ### Rules applied on unwind -/

/-- A `return` leaves its site: the returned operand is pushed again as a node of the site, and is
    the result of the frame. -/
def unwindReturn (host : Host K) (site : Site K) (frame : K.Frame) : ShadowM K Unit :=
  ShadowM.withRecord host [] frame do
    let origin ← RecordM.take Record.pop
    let node ← RecordM.create (creatorOf site) origin.value [origin]
    RecordM.change fun record => (record.push node).setResult node

/-- The rule of one category for a site that is left by an exception. -/
def applyUnwind (host : Host K) (site : Site K) (frame : K.Frame) (exception : String)
    (category : Category) : ShadowM K Unit :=
  if category = .functionBoundary then
    ShadowM.note .debug "Function unwound without a value"
      (Checkpoint.siteFields site ++ [("exception", exception)])
  else if category = .useStackDefReturn then unwindReturn host site frame
  else if category.marksDepth then do
    let some entry := (← get).store.frames.find? frame | return
    ShadowM.onFrame frame entry (RecordM.change (·.unmark site.id))
  else pure ()

/-! ### Checkpoints -/

/-- Applies `rule` for each category of the site in order; an underflow is laid to the site. -/
def applyRules (site : Site K) (rule : Category → ShadowM K Unit) : ShadowM K Unit :=
  site.categories.toList.forM fun category => ExceptT.adapt (·.atSite site.id) (rule category)

def enter (host : Host K) (site : Site K) (frame : K.Frame) : ShadowM K Unit := do
  ShadowM.note .trace "router enter" (Checkpoint.siteFields site)
  applyRules site (applyEnter host site frame)

def leave (tracer : Tracer) (host : Host K) (site : Site K) (frame : K.Frame) (value : K.Value) :
    ShadowM K Unit := do
  ShadowM.note .trace "router return" (Checkpoint.siteFields site ++ [("value", K.inspect value)])
  applyRules site (applyLeave tracer host site frame value)

def unwind (host : Host K) (site : Site K) (frame : K.Frame) (exception : String) :
    ShadowM K Unit := do
  ShadowM.note .trace "router unwind" (Checkpoint.siteFields site ++ [("exception", exception)])
  applyRules site (applyUnwind host site frame exception)

/-- What the tracer does at a checkpoint. -/
def react (tracer : Tracer) (host : Host K) (checkpoint : Checkpoint K) : ShadowM K Unit :=
  match checkpoint.moment with
  | .enter => enter host checkpoint.site checkpoint.frame
  | .leave value => tracer.leave host checkpoint.site checkpoint.frame value
  | .unwind exception => unwind host checkpoint.site checkpoint.frame exception

end Tracer

end Lineage
