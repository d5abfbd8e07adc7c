import Lineage.Proofs.History

/-!
# What every rule keeps up

A rule changes the tables of frames and of globals in few ways: it opens the record of its frame, edits
records that are there, and may set the global that its site names. What these changes keep, a rule
keeps, and a checkpoint with it, from whatever state they start: poisoned entries and missing
capabilities are failures like any other. `Upkeep` names the changes and the faults that can come up;
`Upkeep.upholds_rule` goes through the rules once for all.
-/

namespace Lineage

section Upholds

variable {ε σ α β : Type} {P : σ → Prop} {Q : ε → Prop}

/-- From states with `P` the work leads to states with `P`, and fails only with faults that have `Q`. -/
def Upholds (P : σ → Prop) (Q : ε → Prop) (work : ExceptT ε (StateM σ) α) : Prop :=
  ∀ s, P s → Ends work s fun r t => P t ∧ ∀ fault, r = .error fault → Q fault

theorem upholds_pure (a : α) : Upholds P Q (pure a : ExceptT ε (StateM σ) α) :=
  fun _ holds => ⟨holds, nofun⟩

theorem upholds_throw {fault : ε} (allowed : Q fault) :
    Upholds P Q (throw fault : ExceptT ε (StateM σ) α) :=
  fun _ holds => ⟨holds, fun _ same => Except.error.inj same ▸ allowed⟩

theorem upholds_get : Upholds P Q (get : ExceptT ε (StateM σ) σ) := fun _ holds => ⟨holds, nofun⟩

theorem upholds_modify {f : σ → σ} (keeps : ∀ s, P s → P (f s)) :
    Upholds P Q (modify f : ExceptT ε (StateM σ) PUnit) := fun s holds => ⟨keeps s holds, nofun⟩

theorem Upholds.bind {work : ExceptT ε (StateM σ) α} {next : α → ExceptT ε (StateM σ) β}
    (h : Upholds P Q work) (later : ∀ a, Upholds P Q (next a)) : Upholds P Q (work >>= next) := by
  intro s holds
  rw [ends_bind]
  apply (h s holds).mono
  intro r t kept
  cases r with
  | error fault => exact ⟨kept.1, fun _ same => Except.error.inj same ▸ kept.2 fault rfl⟩
  | ok a => exact later a t kept.1

theorem Upholds.map {work : ExceptT ε (StateM σ) α} (f : α → β) (h : Upholds P Q work) :
    Upholds P Q (f <$> work) := by
  rw [map_eq_pure_bind]
  exact h.bind fun a => upholds_pure _

theorem Upholds.adapt {ε' : Type} {Q' : ε' → Prop} {work : ExceptT ε (StateM σ) α} {f : ε → ε'}
    (h : Upholds P Q work) (allowed : ∀ fault, Q fault → Q' (f fault)) :
    Upholds P Q' (ExceptT.adapt f work) := by
  intro s holds
  rw [ends_adapt]
  apply (h s holds).mono
  intro r t ⟨kept, faults⟩
  refine ⟨kept, ?_⟩
  cases r with
  | error fault => exact fun _ same => Except.error.inj same ▸ allowed fault (faults fault rfl)
  | ok a => nofun

theorem Upholds.forM {works : β → ExceptT ε (StateM σ) PUnit} {list : List β}
    (each : ∀ b ∈ list, Upholds P Q (works b)) : Upholds P Q (list.forM works) := by
  induction list with
  | nil => exact upholds_pure _
  | cons b rest ih =>
    apply (each b List.mem_cons_self).bind
    intro _
    exact ih fun b mem => each b (List.mem_cons_of_mem _ mem)

end Upholds

variable {K : Kinds} {α : Type}

/-- The fault blames a site for a capability that it does not have. -/
def Fault.blamesCapability : Fault → Bool
  | .violation (.missingCapability ..) => true
  | _ => false

theorem Fault.blamesCapability_atSite (fault : Fault) (id : SiteId) :
    (fault.atSite id).blamesCapability = fault.blamesCapability := by
  rcases fault with ⟨_ | _⟩ | _ | _ | _ | _ | _ <;> rfl

/-- The rule of the category reads or writes a global. -/
def Category.usesGlobal : Category → Bool
  | useGlobalDefStack | useStackDefGlobal => true
  | _ => false

/-- `P` is kept by all that the rule of the category does to frames and globals at the checkpoint, and
    `Q` holds of all that it can complain of. -/
structure Upkeep (c : Checkpoint K) (category : Category) (P : Shadow K → Prop)
    (Q : Fault → Prop) : Prop where
  aside : ∀ {s t : Shadow K}, P s → t.store.frames = s.store.frames →
    t.store.globals = s.store.globals → P t
  opens : ∀ {s : Shadow K} (sweeping : Sweeping (Survivors K) K.Frame (Record K.Value)), P s →
    P { s with store := { s.store with frames := (s.store.frames.insert sweeping c.frame {}).2.2 } }
  edits : ∀ {s : Shadow K} (f : K.Frame) (content : Record K.Value), P s →
    P { s with store :=
      { s.store with frames := s.store.frames.modify f fun e => { e with content } } }
  sets : ∀ {s : Shadow K} {value : K.Value} {name : String} (node : Node K.Value),
    c.moment = .leave value → category.usesGlobal = true → c.site.globalName = some name → P s →
    P { s with store := { s.store with globals := s.store.globals.set name node } }
  complains : ∀ {fault : Fault}, fault.blamesCapability = false → Q fault
  unserved : ∀ {fault : Fault}, c.site.check category = .error fault → Q fault

/-! ### Work on one record -/

namespace Record

variable {V : Type} {r : Record V} {fault : Fault}

theorem blames_of_pop (failed : r.pop = .error fault) : fault.blamesCapability = false := by
  unfold pop at failed
  split at failed
  · cases failed
    rfl
  · cases failed

theorem blames_of_popMany {count : Nat} (failed : r.popMany count = .error fault) :
    fault.blamesCapability = false := by
  unfold popMany at failed
  dsimp only at failed
  split at failed
  · cases failed
    rfl
  · cases failed

theorem blames_of_takeMark {site : SiteId} (failed : r.takeMark site = .error fault) :
    fault.blamesCapability = false := by
  unfold takeMark at failed
  split at failed
  · cases failed
  · cases failed
    rfl

theorem blames_of_peekAt {distance : Nat} (failed : r.peekAt distance = .error fault) :
    fault.blamesCapability = false := by
  unfold peekAt at failed
  split at failed
  · cases failed
  · cases failed
    rfl

end Record

/-- Whatever the work does, it fails only with faults that have `Q`. -/
abbrev FailsWith {σ : Type} (Q : Fault → Prop) (work : ExceptT Fault (StateM σ) α) : Prop :=
  Upholds (fun _ => True) Q work

section

variable {V : Type} {Q : Fault → Prop}
  (complains : ∀ {fault : Fault}, fault.blamesCapability = false → Q fault)

theorem failsWith_take {step : Record V → Except Fault (α × Record V)}
    (faults : ∀ record fault, step record = .error fault → Q fault) :
    FailsWith Q (RecordM.take step) := by
  apply upholds_get.bind
  intro p
  dsimp only
  cases ran : step p.1 with
  | error fault => exact upholds_throw (faults p.1 fault ran)
  | ok done => exact fun _ _ => ⟨trivial, nofun⟩

theorem failsWith_change (step : Record V → Record V) : FailsWith Q (RecordM.change step) :=
  upholds_modify fun _ _ => trivial

theorem failsWith_create (creator : Option Creator) (value : Option V) (origins : List (Node V)) :
    FailsWith Q (RecordM.create creator value origins) := fun _ _ => ⟨trivial, nofun⟩

theorem failsWith_current (name : String) : FailsWith Q (RecordM.current name : RecordM V _) :=
  fun _ _ => ⟨trivial, nofun⟩

theorem failsWith_readSlot (name : String) : FailsWith Q (SlotsM.current name : SlotsM V _) :=
  fun _ _ => ⟨trivial, fun _ same => by cases same⟩

theorem failsWith_writeSlot (name : String) (node : Node V) : FailsWith Q (SlotsM.write name node) :=
  upholds_modify fun _ _ => trivial

include complains

theorem failsWith_pop : FailsWith Q (RecordM.take (Record.pop (V := V))) :=
  failsWith_take fun _ _ failed => complains (Record.blames_of_pop failed)

end

namespace Tracer

variable {site : Site K} {Q : Fault → Prop}
  (complains : ∀ {fault : Fault}, fault.blamesCapability = false → Q fault)

include complains

theorem failsWith_takeOperands : FailsWith Q (takeOperands site) := by
  have marks : FailsWith Q (RecordM.take fun record : Record K.Value => record.takeMark site.id) :=
    failsWith_take fun _ _ failed => complains (Record.blames_of_takeMark failed)
  apply marks.bind
  intro marked
  apply upholds_get.bind
  intro p
  dsimp only
  split
  · exact (upholds_throw (complains rfl)).bind fun _ =>
      failsWith_take fun _ _ failed => complains (Record.blames_of_popMany failed)
  · exact failsWith_take fun _ _ failed => complains (Record.blames_of_popMany failed)

theorem failsWith_takeReceiver {absent : Violation}
    (plain : (Fault.violation absent).blamesCapability = false) :
    FailsWith Q (takeReceiver site absent) := by
  apply (failsWith_takeOperands complains).bind
  intro operands
  cases operands with
  | nil => exact upholds_throw (complains plain)
  | cons receiver others => exact upholds_pure _

theorem failsWith_popInto (value : K.Value) : FailsWith Q (popInto site value) :=
  (failsWith_pop complains).bind fun origin => failsWith_create _ _ [origin]

end Tracer

/-! ### Work on the whole state -/

namespace Upkeep

variable {c : Checkpoint K} {category : Category} {P : Shadow K → Prop} {Q : Fault → Prop}
  {host : Host K}

section

variable (up : Upkeep c category P Q)

include up

theorem upholds_note (severity : Severity) (message : String) (fields : Fields) :
    Upholds P Q (ShadowM.note severity message fields : ShadowM K Unit) :=
  upholds_modify fun _ holds => up.aside holds rfl rfl

theorem upholds_create (creator : Option Creator) (value : Option K.Value)
    (origins : List (Node K.Value)) : Upholds P Q (ShadowM.create creator value origins) :=
  fun _ holds => ⟨up.aside holds rfl rfl, nofun⟩

theorem upholds_noteDropped (dropped : Nat) :
    Upholds P Q (ShadowM.noteDropped dropped : ShadowM K Unit) := by
  unfold ShadowM.noteDropped
  split
  · exact up.upholds_note _ _ _
  · exact upholds_pure ()

theorem upholds_attachFrame : Upholds P Q (ShadowM.attachFrame host c.frame) := by
  intro s holds
  exact (up.upholds_noteDropped _).bind (fun _ => upholds_pure _) _ (up.opens _ holds)

theorem upholds_openFrame (inHand : List (Node K.Value)) :
    Upholds P Q (ShadowM.openFrame host inHand c.frame) := by
  intro s holds
  apply (ShadowM.ends_openFrame inHand c.frame s).mono
  intro r t ⟨opened, store, _⟩
  refine ⟨?_, fun _ failed => nomatch opened.symm.trans failed⟩
  unfold Table.findOrInsert at store
  cases found : s.store.frames.find? c.frame with
  | none =>
    rw [found] at store
    exact up.aside (up.opens _ holds) (by rw [store]) (by rw [store])
  | some entry =>
    rw [found] at store
    exact up.aside holds (by rw [store]) (by rw [store])

theorem upholds_openObject (inHand : List (Node K.Value)) (object : K.Object) :
    Upholds P Q (ShadowM.openObject host inHand object) := by
  intro s holds
  apply (up.upholds_noteDropped _).bind fun _ => upholds_pure _
  exact up.aside holds rfl rfl

theorem upholds_openScope (inHand : List (Node K.Value)) (scope : K.Scope) :
    Upholds P Q (ShadowM.openScope host inHand scope) := by
  intro s holds
  apply (up.upholds_noteDropped _).bind fun _ => upholds_pure _
  exact up.aside holds rfl rfl

theorem upholds_onEntry {E : Type} (what : Guarded) (entry : Entry E)
    {save : E → Store K → Store K} {work : ExceptT Fault (StateM (E × Nat)) α}
    (saved : ∀ s content, P s → P { s with store := save content s.store })
    (fails : FailsWith Q work) : Upholds P Q (ShadowM.onEntry what entry save work) := by
  intro s holds
  cases broken : entry.poisoned with
  | true =>
    simp only [ShadowM.onEntry, broken, if_true]
    exact ⟨holds, fun _ same => Except.error.inj same ▸ up.complains rfl⟩
  | false =>
    have ran : work.run.run (entry.content, s.nextSeq) =
      ((work.run.run (entry.content, s.nextSeq)).1, _, _) := rfl
    apply (ShadowM.ends_onEntry what broken save ran).mono
    intro r t ⟨outcome, store, _⟩
    refine ⟨up.aside (saved s _ holds) (by rw [store]) (by rw [store]), ?_⟩
    intro fault failed
    exact (fails _ trivial).2 fault (outcome.symm.trans failed)

theorem upholds_onFrame (f : K.Frame) (entry : Entry (Record K.Value)) {work : RecordM K.Value α}
    (fails : FailsWith Q work) : Upholds P Q (ShadowM.onFrame f entry work) :=
  up.upholds_onEntry _ entry (fun _ content holds => up.edits f content holds) fails

theorem upholds_withRecord (inHand : List (Node K.Value)) {work : RecordM K.Value α}
    (fails : FailsWith Q work) : Upholds P Q (ShadowM.withRecord host inHand c.frame work) :=
  (up.upholds_openFrame inHand).bind fun entry => up.upholds_onFrame c.frame entry fails

theorem upholds_withObject (inHand : List (Node K.Value)) (object : K.Object)
    {work : SlotsM K.Value α} (fails : FailsWith Q work) :
    Upholds P Q (ShadowM.withObject host inHand object work) := by
  apply (up.upholds_openObject inHand object).bind
  intro entry
  exact up.upholds_onEntry _ entry (fun _ _ holds => up.aside holds rfl rfl) fails

theorem upholds_withScope (inHand : List (Node K.Value)) (scope : K.Scope)
    {work : SlotsM K.Value α} (fails : FailsWith Q work) :
    Upholds P Q (ShadowM.withScope host inHand scope work) := by
  apply (up.upholds_openScope inHand scope).bind
  intro entry
  exact up.upholds_onEntry _ entry (fun _ _ holds => up.aside holds rfl rfl) fails

theorem upholds_currentGlobal {value : K.Value} {name : String} (leaves : c.moment = .leave value)
    (uses : category.usesGlobal = true) (named : c.site.globalName = some name) :
    Upholds P Q (ShadowM.currentGlobal name : ShadowM K _) := by
  intro s holds
  apply (ShadowM.ends_currentGlobal name s).mono
  intro r t ⟨read, on⟩
  refine ⟨?_, fun _ failed => nomatch read.symm.trans failed⟩
  have globals := on.globals
  unfold Slots.current at globals
  cases found : s.store.globals.get? name with
  | none =>
    rw [found] at globals
    exact up.aside (up.sets _ leaves uses named holds) on.frames globals
  | some node =>
    rw [found] at globals
    exact up.aside holds on.frames globals

theorem upholds_writeGlobal {value : K.Value} {name : String} (leaves : c.moment = .leave value)
    (uses : category.usesGlobal = true) (named : c.site.globalName = some name)
    (node : Node K.Value) :
    Upholds P Q (ShadowM.writeGlobal name node : ShadowM K _) :=
  upholds_modify fun _ holds => up.sets node leaves uses named holds

/-! ### The rules -/

theorem upholds_nodeOf (value : K.Value) (origins : List (Node K.Value)) :
    Upholds P Q (Tracer.nodeOf c.site value origins) := up.upholds_create _ _ origins

theorem upholds_pushOn (node : Node K.Value) : Upholds P Q (Tracer.pushOn host c.frame node) :=
  up.upholds_withRecord [node] (failsWith_change _)

theorem upholds_pushNode (value : K.Value) (origins : List (Node K.Value)) :
    Upholds P Q (do Tracer.pushOn host c.frame (← Tracer.nodeOf c.site value origins)) :=
  (up.upholds_nodeOf value origins).bind fun node => up.upholds_pushOn node

theorem upholds_noteWritten (tracer : Tracer) (node : Node K.Value) :
    Upholds P Q (tracer.noteWritten c.site node) := by
  unfold Tracer.noteWritten
  split
  · exact up.upholds_note _ _ _
  · exact upholds_pure ()

theorem upholds_handBack : Upholds P Q (Tracer.handBack host c.site c.frame) := by
  unfold Tracer.handBack
  cases host.callerOf c.frame with
  | none => exact upholds_pure ()
  | some caller =>
    apply upholds_get.bind
    intro s
    dsimp only
    split
    · exact (up.upholds_note _ _ _).bind fun _ => upholds_pure ()
    cases s.store.frames.find? c.frame with
    | none => exact upholds_pure ()
    | some callee =>
      apply (up.upholds_onFrame c.frame callee _).bind
      · intro result
        cases result with
        | none => exact up.upholds_note _ _ _
        | some node =>
          apply upholds_get.bind
          intro s
          cases s.store.frames.find? caller with
          | none => exact upholds_pure ()
          | some entry => exact up.upholds_onFrame caller entry (failsWith_change _)
      · apply upholds_get.bind
        intro p
        split
        · exact (failsWith_pop up.complains).map some
        · exact upholds_pure none

theorem upholds_argumentOrigin (index count : Nat) :
    Upholds P Q (Tracer.argumentOrigin host c.site c.frame index count) := by
  unfold Tracer.argumentOrigin
  apply upholds_get.bind
  intro s
  dsimp only
  split
  next caller entry _ =>
    apply up.upholds_onFrame caller entry
    apply upholds_get.bind
    intro p
    cases peeked : p.1.peekAt (count - (index + 1)) with
    | ok node => exact upholds_pure node
    | error fault => exact upholds_throw (up.complains (Record.blames_of_peekAt peeked))
  next => exact (up.upholds_note _ _ _).bind fun _ => up.upholds_create _ _ _

/-- A capability that the rule cannot do without. -/
theorem upholds_demand {β : Type} {what : Capability} {found : Option α} {next : α → ShadowM K β}
    (checks : ∀ fault, c.site.demand what found = .error fault → c.site.check category = .error fault)
    (later : ∀ a, found = some a → Upholds P Q (next a)) :
    Upholds P Q (ShadowM.settle (c.site.demand what found) >>= next) := by
  cases found with
  | none => exact fun s holds => ⟨holds, fun _ same => Except.error.inj same ▸ up.unserved (checks _ rfl)⟩
  | some a => exact later a rfl

end

theorem upholds_bindArgument (up : Upkeep c .useArgDefStack P Q) (value : K.Value) :
    Upholds P Q (Tracer.bindArgument host c.site c.frame value) := by
  apply up.upholds_demand
  · intro fault missing
    change (c.site.requireArgument >>= _) = _
    rw [show c.site.requireArgument = .error fault from missing]
    rfl
  intro slot _
  have bound (count : Nat) : Upholds P Q (do
      let origin ← Tracer.argumentOrigin host c.site c.frame slot.index count
      Tracer.pushOn host c.frame (← Tracer.nodeOf c.site value [origin])) :=
    (up.upholds_argumentOrigin slot.index count).bind fun origin => up.upholds_pushNode value [origin]
  cases slot.count with
  | declared count => exact bound count
  | fromFrame =>
    dsimp only
    split
    · exact (up.upholds_note _ _ _).bind fun _ => bound _
    · exact bound _

theorem upholds_assignProperty (up : Upkeep c .useStackDefPropertyStack P Q)
    (value : K.Value) : Upholds P Q (Tracer.assignProperty host c.site c.frame value) := by
  apply up.upholds_demand
  · intro fault missing
    exact congrArg discard missing
  intro property _
  refine Upholds.bind (up.upholds_withRecord [] ?_) fun (receiver, node) => ?_
  · apply (Tracer.failsWith_takeReceiver up.complains rfl).bind
    intro (receiver, others)
    exact (failsWith_create _ _ _).bind fun node => upholds_pure _
  have pushed : Upholds P Q (Tracer.pushOn host c.frame node) := up.upholds_pushOn node
  dsimp only
  cases Tracer.objectBehind host receiver with
  | none => exact (up.upholds_note _ _ _).bind fun _ => pushed
  | some object =>
    apply (up.upholds_withObject [node] object (failsWith_writeSlot property node)).bind
    exact fun _ => pushed

theorem upholds_fetchProperty (up : Upkeep c .usePropertyStackDefStack P Q)
    (value : K.Value) : Upholds P Q (Tracer.fetchProperty host c.site c.frame value) := by
  apply up.upholds_demand
  · intro fault missing
    exact congrArg discard missing
  intro property _
  refine Upholds.bind (up.upholds_withRecord [] (Tracer.failsWith_takeReceiver up.complains rfl))
    fun (receiver, others) => ?_
  have pushed (slot : Node K.Value) : Upholds P Q (do
      Tracer.pushOn host c.frame (← Tracer.nodeOf c.site value (receiver :: others ++ [slot]))) :=
    up.upholds_pushNode value _
  dsimp only
  cases Tracer.objectBehind host receiver with
  | none =>
    apply (up.upholds_note _ _ _).bind
    exact fun _ => (up.upholds_create _ _ _).bind pushed
  | some object =>
    exact (up.upholds_withObject _ object (failsWith_readSlot property)).bind pushed

theorem upholds_leave (up : Upkeep c category P Q) (tracer : Tracer) {value : K.Value}
    (leaves : c.moment = .leave value) :
    Upholds P Q (tracer.applyLeave host c.site c.frame value category) := by
  cases category with
  | functionBoundary => exact up.upholds_handBack
  | noUseDefStack => exact up.upholds_pushNode value []
  | useStackDefStack =>
    apply up.upholds_withRecord
    apply (Tracer.failsWith_takeOperands up.complains).bind
    intro operands
    exact (failsWith_create _ _ operands).bind fun node => failsWith_change _
  | useLocalDefStack =>
    apply up.upholds_demand (fun _ missing => congrArg discard missing)
    intro name _
    apply up.upholds_withRecord
    apply (failsWith_current name).bind
    intro origin
    exact (failsWith_create _ _ [origin]).bind fun node => failsWith_change _
  | useStackDefLocalStack =>
    apply up.upholds_demand (fun _ missing => congrArg discard missing)
    intro name _
    refine Upholds.bind (up.upholds_withRecord [] ?_) fun node => up.upholds_noteWritten tracer node
    apply (Tracer.failsWith_popInto up.complains value).bind
    intro node
    exact (failsWith_change _).bind fun _ => upholds_pure node
  | useArgDefStack => exact up.upholds_bindArgument value
  | useStackDefPropertyStack => exact up.upholds_assignProperty value
  | usePropertyStackDefStack => exact up.upholds_fetchProperty value
  | useStackDefReturn => exact upholds_pure ()
  | useClassVarDefStack =>
    apply up.upholds_demand (fun _ missing => congrArg discard missing)
    intro owned _
    apply (up.upholds_withScope [] owned.scope (failsWith_readSlot owned.name)).bind
    exact fun origin => up.upholds_pushNode value [origin]
  | useStackDefClassVar =>
    apply up.upholds_demand (fun _ missing => congrArg discard missing)
    intro owned _
    apply (up.upholds_withRecord [] (Tracer.failsWith_popInto up.complains value)).bind
    intro node
    apply (up.upholds_withScope [node] owned.scope (failsWith_writeSlot owned.name node)).bind
    intro _
    exact (up.upholds_noteWritten tracer node).bind fun _ => up.upholds_pushOn node
  | useGlobalDefStack =>
    apply up.upholds_demand (fun _ missing => congrArg discard missing)
    intro name named
    exact (up.upholds_currentGlobal leaves rfl named).bind fun origin => up.upholds_pushNode value [origin]
  | useStackDefGlobal =>
    apply up.upholds_demand (fun _ missing => congrArg discard missing)
    intro name named
    apply (up.upholds_withRecord [] (Tracer.failsWith_popInto up.complains value)).bind
    intro node
    exact (up.upholds_writeGlobal leaves rfl named node).bind fun _ => up.upholds_pushOn node
  | callNode => exact up.upholds_note _ _ _

theorem upholds_enter (up : Upkeep c category P Q) :
    Upholds P Q (Tracer.applyEnter host c.site c.frame category) := by
  unfold Tracer.applyEnter
  split
  · exact up.upholds_attachFrame.map _
  split
  · exact up.upholds_withRecord [] (failsWith_change _)
  · exact upholds_pure ()

theorem upholds_unwind (up : Upkeep c category P Q) (exception : String) :
    Upholds P Q (Tracer.applyUnwind host c.site c.frame exception category) := by
  unfold Tracer.applyUnwind
  split
  · exact up.upholds_note _ _ _
  split
  · apply up.upholds_withRecord
    apply (failsWith_pop up.complains).bind
    intro origin
    exact (failsWith_create _ _ [origin]).bind fun node => failsWith_change _
  split
  · apply upholds_get.bind
    intro s
    cases s.store.frames.find? c.frame with
    | none => exact upholds_pure ()
    | some entry => exact up.upholds_onFrame c.frame entry (failsWith_change _)
  · exact upholds_pure ()

/-- One walk through all rules: each keeps up what the changes it is made of do. -/
theorem upholds_rule (up : Upkeep c category P Q) (tracer : Tracer) (host : Host K) :
    Upholds P Q (tracer.rule host c category) := by
  unfold Tracer.rule
  cases leaves : c.moment with
  | enter => exact up.upholds_enter
  | leave value => exact up.upholds_leave tracer leaves
  | unwind exception => exact up.upholds_unwind exception

end Upkeep

/-- What every rule of a checkpoint keeps up, the checkpoint does. -/
theorem Tracer.upholds_react (tracer : Tracer) (host : Host K) (c : Checkpoint K)
    {P : Shadow K → Prop} {Q : Fault → Prop}
    (aside : ∀ s t : Shadow K, Shadow.SameState s t → P s → P t)
    (adapts : ∀ fault id, Q fault → Q (fault.atSite id))
    (each : ∀ category ∈ c.site.categories.toList, Upholds P Q (tracer.rule host c category)) :
    Upholds P Q (tracer.react host c) := by
  intro s holds
  unfold Ends
  rw [run_react]
  apply Upholds.forM _ _ (aside s _ (sameState_noted s c) holds)
  intro category mem
  exact (each category mem).adapt fun fault => adapts fault _

end Lineage
