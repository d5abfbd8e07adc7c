import Lineage.Proofs.Record
import Lineage.Proofs.Shadow

/-!
# What each rule does

One theorem for each rule of the tracer: the outcome, and the elementary changes that the rule is made
of. A rule that can fail is described along with the work on the record that decides it. The theorems
are about states in which no lock is poisoned, and about sites that have what the rule reads; what
happens at all other sites is `run_leave_lacking`.
-/

namespace Lineage

/-- The capability that the rule of the category reads. -/
def Category.capability? : Category → Option Capability
  | useLocalDefStack | useStackDefLocalStack => some .localSlot
  | useStackDefPropertyStack | usePropertyStackDefStack => some .propertyName
  | useClassVarDefStack | useStackDefClassVar => some .classVariable
  | useGlobalDefStack | useStackDefGlobal => some .globalName
  | useArgDefStack => some .argumentSlot
  | _ => none

/-- The site has a capability of this kind. -/
def Site.has {K : Kinds} (site : Site K) : Capability → Bool
  | .localSlot => site.localSlot.isSome
  | .propertyName => site.property.isSome
  | .classVariable => site.classVariable.isSome
  | .globalName => site.globalName.isSome
  | .argumentSlot => site.argument.isSome

end Lineage

namespace Lineage.Tracer

open Shadow

variable {K : Kinds} {tracer : Tracer} {host : Host K} {site : Site K} {frame : K.Frame}
  {value : K.Value} {s : Shadow K}

theorem ends_pushOn (sane : s.Unpoisoned) (node : Node K.Value) :
    Ends (pushOn host frame node) s fun r t =>
      r = .ok () ∧ OnRecord host.MayDrop frame s t ((s.recordOf frame).push node) s.nextSeq :=
  ShadowM.ends_withRecord sane [node] rfl

/-- A rule ends by building the node of the value and pushing it. -/
theorem ends_pushNode (sane : s.Unpoisoned) (origins : List (Node K.Value)) :
    Ends (do pushOn host frame (← nodeOf site value origins)) s fun r t =>
      r = .ok () ∧ OnRecord host.MayDrop frame s t
        ((s.recordOf frame).push (site.node s.nextSeq value origins)) (s.nextSeq + 1) := by
  have later : Unpoisoned { s with nextSeq := s.nextSeq + 1 } :=
    ⟨sane.frames, sane.objects, sane.scopes⟩
  rw [ends_bind, nodeOf, ShadowM.ends_create]
  refine (ends_pushOn later _).mono ?_
  rintro r t ⟨rfl, done⟩
  exact ⟨rfl, done.frames, done.objects, done.scopes, done.globals, done.nextSeq⟩

/-- As `ends_pushNode`, for a state reached from one whose records it has kept. -/
theorem ends_pushNode_after {record : Record K.Value} {next : Nat} (sane : s.Unpoisoned)
    (origins : List (Node K.Value)) (before : s.recordOf frame = record) (seq : s.nextSeq = next) :
    Ends (do pushOn host frame (← nodeOf site value origins)) s fun r t =>
      r = .ok () ∧ OnRecord host.MayDrop frame s t
        (record.push (site.node next value origins)) (next + 1) := by
  subst before seq
  exact ends_pushNode sane origins

theorem ends_noteWritten (node : Node K.Value) :
    Ends (noteWritten tracer site node) s fun r t => r = .ok () ∧ SameState s t := by
  unfold noteWritten
  split
  · exact ⟨rfl, rfl, rfl⟩
  · exact ⟨rfl, rfl, rfl⟩

theorem run_current (name : String) (slots : Slots K.Value) (n : Nat) :
    (SlotsM.current name).run.run (slots, n) =
      (.ok (slots.current name n).1, (slots.current name n).2.2, (slots.current name n).2.1) := rfl

theorem run_write (name : String) (node : Node K.Value) (slots : Slots K.Value) (n : Nat) :
    (SlotsM.write name node).run.run (slots, n) = (.ok (), slots.set name node, n) := rfl

/-! ### On return -/

theorem run_demand_of_lacks {α : Type} {found : Option α} (lacks : found.isSome = false)
    (what : Capability) (next : α → ShadowM K Unit) (s : Shadow K) :
    (ShadowM.settle (site.demand what found) >>= next).run.run s =
      (.error (.violation (.missingCapability site.id site.label what)), s) := by
  cases found with
  | none => rfl
  | some _ => cases lacks

/-- A rule that reads what its site has not got refuses, and leaves the state alone. -/
theorem run_leave_lacking {category : Category} {what : Capability}
    (reads : category.capability? = some what) (lacks : site.has what = false) :
    (applyLeave tracer host site frame value category).run.run s =
      (.error (.violation (.missingCapability site.id site.label what)), s) := by
  cases category with
  | functionBoundary | noUseDefStack | useStackDefStack | useStackDefReturn | callNode => cases reads
  | _ =>
    cases reads
    exact run_demand_of_lacks lacks _ _ s

theorem leave_noUse (sane : s.Unpoisoned) :
    Ends (applyLeave tracer host site frame value .noUseDefStack) s fun r t =>
      r = .ok () ∧ OnRecord host.MayDrop frame s t
        ((s.recordOf frame).push (site.node s.nextSeq value [])) (s.nextSeq + 1) :=
  ends_pushNode sane []

theorem leave_operands (sane : s.Unpoisoned) {operands : Except Fault (List (Node K.Value))}
    {record : Record K.Value} {next : Nat}
    (run : (takeOperands site).run.run (s.recordOf frame, s.nextSeq) = (operands, record, next)) :
    Ends (applyLeave tracer host site frame value .useStackDefStack) s fun r t =>
      match operands with
      | .ok operands => r = .ok () ∧ OnRecord host.MayDrop frame s t
          (record.push (site.node next value operands)) (next + 1)
      | .error fault => r = .error fault ∧ OnRecord host.MayDrop frame s t record next := by
  cases operands with
  | error fault =>
    refine ShadowM.ends_withRecord sane [] ?_
    rw [run_bind, run]
  | ok operands =>
    refine ShadowM.ends_withRecord sane [] ?_
    rw [run_bind, run]
    rfl

theorem leave_readLocal (sane : s.Unpoisoned) (name : String) (found : site.localSlot = some name) :
    Ends (applyLeave tracer host site frame value .useLocalDefStack) s fun r t =>
      let current := (s.recordOf frame).current name s.nextSeq
      r = .ok () ∧ OnRecord host.MayDrop frame s t
        (current.2.2.push (site.node current.2.1 value [current.1])) (current.2.1 + 1) := by
  unfold applyLeave Site.requireLocal Site.demand
  rw [ends_bind, found, ShadowM.ends_settle]
  exact ShadowM.ends_withRecord sane [] rfl

theorem leave_writeLocal (sane : s.Unpoisoned) (name : String)
    (found : site.localSlot = some name) :
    Ends (applyLeave tracer host site frame value .useStackDefLocalStack) s fun r t =>
      match (s.recordOf frame).stack with
      | [] => r = .error (.underflow none 1 0) ∧
          OnRecord host.MayDrop frame s t (s.recordOf frame) s.nextSeq
      | top :: below =>
          let node := site.node s.nextSeq value [top]
          r = .ok () ∧ OnRecord host.MayDrop frame s t
            (({ s.recordOf frame with stack := below }.write name node).push node)
            (s.nextSeq + 1) := by
  unfold applyLeave Site.requireLocal Site.demand
  rw [ends_bind, found, ShadowM.ends_settle]
  dsimp only
  rw [ends_bind]
  have run := run_popInto site value (s.recordOf frame) s.nextSeq
  cases stack : (s.recordOf frame).stack with
  | nil =>
    rw [stack] at run
    refine (ShadowM.ends_withRecord sane [] (by rw [run_bind, run])).mono ?_
    rintro r t ⟨rfl, done⟩
    exact ⟨rfl, done⟩
  | cons top below =>
    rw [stack] at run
    refine (ShadowM.ends_withRecord sane [] (by rw [run_bind, run]; rfl)).mono ?_
    rintro r t ⟨rfl, done⟩
    refine (ends_noteWritten _).mono ?_
    rintro r u ⟨rfl, same⟩
    exact ⟨rfl, done.trans_same same⟩

theorem leave_readClassVariable (sane : s.Unpoisoned) (owned : ClassVariable K)
    (found : site.classVariable = some owned) :
    Ends (applyLeave tracer host site frame value .useClassVarDefStack) s fun r t =>
      let current := (s.scopeSlots owned.scope).current owned.name s.nextSeq
      r = .ok () ∧ ∃ mid, OnScope host.MayDropScope owned.scope s mid current.2.2 current.2.1 ∧
        OnRecord host.MayDrop frame mid t
          ((s.recordOf frame).push (site.node current.2.1 value [current.1])) (current.2.1 + 1) := by
  unfold applyLeave Site.requireClassVariable Site.demand
  rw [ends_bind, found, ShadowM.ends_settle]
  dsimp only
  rw [ends_bind]
  refine (ShadowM.ends_withScope sane [] (run_current ..)).mono ?_
  rintro r mid ⟨rfl, read⟩
  have record := recordOf_congr read.frames frame
  refine (ends_pushNode_after (read.unpoisoned sane) _ record read.nextSeq).mono ?_
  rintro r t ⟨rfl, pushed⟩
  exact ⟨rfl, mid, read, pushed⟩

theorem leave_writeClassVariable (sane : s.Unpoisoned) (owned : ClassVariable K)
    (found : site.classVariable = some owned) :
    Ends (applyLeave tracer host site frame value .useStackDefClassVar) s fun r t =>
      match (s.recordOf frame).stack with
      | [] => r = .error (.underflow none 1 0) ∧
          OnRecord host.MayDrop frame s t (s.recordOf frame) s.nextSeq
      | top :: below =>
          let node := site.node s.nextSeq value [top]
          let popped := { s.recordOf frame with stack := below }
          r = .ok () ∧ ∃ mid late, OnRecord host.MayDrop frame s mid popped (s.nextSeq + 1) ∧
            OnScope host.MayDropScope owned.scope mid late ((s.scopeSlots owned.scope).set owned.name node)
              (s.nextSeq + 1) ∧
            OnRecord host.MayDrop frame late t (popped.push node) (s.nextSeq + 1) := by
  unfold applyLeave Site.requireClassVariable Site.demand
  rw [ends_bind, found, ShadowM.ends_settle]
  dsimp only
  rw [ends_bind]
  have run := run_popInto site value (s.recordOf frame) s.nextSeq
  cases stack : (s.recordOf frame).stack with
  | nil =>
    rw [stack] at run
    refine (ShadowM.ends_withRecord sane [] run).mono ?_
    rintro r t ⟨rfl, done⟩
    exact ⟨rfl, done⟩
  | cons top below =>
    rw [stack] at run
    refine (ShadowM.ends_withRecord sane [] run).mono ?_
    rintro r mid ⟨rfl, popped⟩
    dsimp only
    rw [ends_bind]
    have slots := scopeSlots_congr popped.scopes owned.scope
    refine (ShadowM.ends_withScope (popped.unpoisoned sane) _
      (run_write owned.name _ _ _)).mono ?_
    rintro r late ⟨rfl, written⟩
    rw [slots, popped.nextSeq] at written
    dsimp only
    rw [ends_bind]
    refine (ends_noteWritten _).mono ?_
    rintro r noted ⟨rfl, same⟩
    have record : noted.recordOf frame = { s.recordOf frame with stack := below } := by
      rw [recordOf, record?, same.1, written.frames]
      exact popped.recordOf
    have saneLate := written.unpoisoned (popped.unpoisoned sane)
    refine (ends_pushOn (same.unpoisoned saneLate) _).mono ?_
    rintro r t ⟨rfl, pushed⟩
    rw [record, same.2, written.nextSeq] at pushed
    exact ⟨rfl, mid, late, popped, written, pushed.same_trans same⟩

theorem leave_readGlobal (sane : s.Unpoisoned) (name : String)
    (found : site.globalName = some name) :
    Ends (applyLeave tracer host site frame value .useGlobalDefStack) s fun r t =>
      let current := s.store.globals.current name s.nextSeq
      r = .ok () ∧ ∃ mid, OnGlobals s mid current.2.2 current.2.1 ∧
        OnRecord host.MayDrop frame mid t
          ((s.recordOf frame).push (site.node current.2.1 value [current.1])) (current.2.1 + 1) := by
  unfold applyLeave Site.requireGlobal Site.demand
  rw [ends_bind, found, ShadowM.ends_settle]
  dsimp only
  rw [ends_bind]
  refine (ShadowM.ends_currentGlobal name s).mono ?_
  rintro r mid ⟨rfl, read⟩
  have record := recordOf_congr read.frames frame
  refine (ends_pushNode_after (read.unpoisoned sane) _ record read.nextSeq).mono ?_
  rintro r t ⟨rfl, pushed⟩
  exact ⟨rfl, mid, read, pushed⟩

theorem leave_writeGlobal (sane : s.Unpoisoned) (name : String)
    (found : site.globalName = some name) :
    Ends (applyLeave tracer host site frame value .useStackDefGlobal) s fun r t =>
      match (s.recordOf frame).stack with
      | [] => r = .error (.underflow none 1 0) ∧
          OnRecord host.MayDrop frame s t (s.recordOf frame) s.nextSeq
      | top :: below =>
          let node := site.node s.nextSeq value [top]
          let popped := { s.recordOf frame with stack := below }
          r = .ok () ∧ ∃ mid late, OnRecord host.MayDrop frame s mid popped (s.nextSeq + 1) ∧
            OnGlobals mid late (s.store.globals.set name node) (s.nextSeq + 1) ∧
            OnRecord host.MayDrop frame late t (popped.push node) (s.nextSeq + 1) := by
  unfold applyLeave Site.requireGlobal Site.demand
  rw [ends_bind, found, ShadowM.ends_settle]
  dsimp only
  rw [ends_bind]
  have run := run_popInto site value (s.recordOf frame) s.nextSeq
  cases stack : (s.recordOf frame).stack with
  | nil =>
    rw [stack] at run
    refine (ShadowM.ends_withRecord sane [] run).mono ?_
    rintro r t ⟨rfl, done⟩
    exact ⟨rfl, done⟩
  | cons top below =>
    rw [stack] at run
    refine (ShadowM.ends_withRecord sane [] run).mono ?_
    rintro r mid ⟨rfl, popped⟩
    dsimp only
    rw [ends_bind]
    refine (ShadowM.ends_writeGlobal name _ mid).mono ?_
    rintro r late ⟨rfl, written⟩
    have record := (recordOf_congr written.frames frame).trans popped.recordOf
    refine (ends_pushOn (written.unpoisoned (popped.unpoisoned sane)) _).mono ?_
    rintro r t ⟨rfl, pushed⟩
    rw [record, written.nextSeq, popped.nextSeq] at pushed
    rw [popped.globals, popped.nextSeq] at written
    exact ⟨rfl, mid, late, popped, written, pushed⟩

/-- A property is written on the object behind the first operand, if there is one. -/
theorem leave_assignProperty (sane : s.Unpoisoned) (property : String)
    (found : site.property = some property)
    {operands : Except Fault (Node K.Value × List (Node K.Value))} {record : Record K.Value}
    {next : Nat}
    (run : (takeReceiver site (.writeWithoutReceiver site.id site.label)).run.run
      (s.recordOf frame, s.nextSeq) = (operands, record, next)) :
    Ends (applyLeave tracer host site frame value .useStackDefPropertyStack) s fun r t =>
      match operands with
      | .error fault => r = .error fault ∧ OnRecord host.MayDrop frame s t record next
      | .ok (receiver, others) =>
          let node := site.node next value (receiver :: others)
          r = .ok () ∧ ∃ mid late, OnRecord host.MayDrop frame s mid record (next + 1) ∧
            (match objectBehind host receiver with
              | some object => OnObject (host.Lost [node] mid late object) object mid late
                  ((s.objectSlots object).set property node) (next + 1)
              | none => SameState mid late) ∧
            OnRecord host.MayDrop frame late t (record.push node) (next + 1) := by
  unfold applyLeave assignProperty Site.requireProperty Site.demand
  rw [ends_bind, found, ShadowM.ends_settle]
  dsimp only
  rw [ends_bind]
  cases operands with
  | error fault =>
    refine (ShadowM.ends_withRecord sane [] (by rw [run_bind, run])).mono ?_
    rintro r t ⟨rfl, done⟩
    exact ⟨rfl, done⟩
  | ok operands =>
    obtain ⟨receiver, others⟩ := operands
    refine (ShadowM.ends_withRecord sane [] (by rw [run_bind, run]; rfl)).mono ?_
    rintro r mid ⟨rfl, popped⟩
    have saneMid := popped.unpoisoned sane
    have finish : ∀ late, Unpoisoned late → late.store.frames = mid.store.frames →
        late.nextSeq = next + 1 →
        Ends (pushOn host frame (site.node next value (receiver :: others))) late fun r t =>
          r = .ok () ∧ OnRecord host.MayDrop frame late t
            (record.push (site.node next value (receiver :: others))) (next + 1) := by
      intro late saneLate frames seq
      have same := (recordOf_congr frames frame).trans popped.recordOf
      rw [← same, ← seq]
      exact ends_pushOn saneLate _
    dsimp only
    cases behind : objectBehind host receiver with
    | none =>
      dsimp only
      rw [ends_bind, ShadowM.ends_note]
      dsimp only
      refine (finish (mid.note _ _ _) ⟨saneMid.frames, saneMid.objects, saneMid.scopes⟩ rfl
        popped.nextSeq).mono ?_
      rintro r t ⟨rfl, pushed⟩
      exact ⟨rfl, mid, mid.note _ _ _, popped, ⟨rfl, rfl⟩, pushed⟩
    | some object =>
      dsimp only
      rw [ends_bind]
      have slots := objectSlots_congr popped.objects object
      refine (ShadowM.ends_withObject saneMid _ (run_write property _ _ _)).mono ?_
      rintro r late ⟨rfl, written⟩
      rw [slots, popped.nextSeq] at written
      refine (finish late (written.unpoisoned saneMid) written.frames written.nextSeq).mono ?_
      rintro r t ⟨rfl, pushed⟩
      exact ⟨rfl, mid, late, popped, written, pushed⟩

/-- A property is read from the object behind the first operand; without one nothing is known of it. -/
theorem leave_fetchProperty (sane : s.Unpoisoned) (property : String)
    (found : site.property = some property)
    {operands : Except Fault (Node K.Value × List (Node K.Value))} {record : Record K.Value}
    {next : Nat}
    (run : (takeReceiver site (.readWithoutReceiver site.id site.label)).run.run
      (s.recordOf frame, s.nextSeq) = (operands, record, next)) :
    Ends (applyLeave tracer host site frame value .usePropertyStackDefStack) s fun r t =>
      match operands with
      | .error fault => r = .error fault ∧ OnRecord host.MayDrop frame s t record next
      | .ok (receiver, others) =>
          r = .ok () ∧ ∃ mid late slot seq, OnRecord host.MayDrop frame s mid record next ∧
            (match objectBehind host receiver with
              | some object =>
                  let current := (s.objectSlots object).current property next
                  slot = current.1 ∧ seq = current.2.1 ∧
                    OnObject (host.Lost (receiver :: others) mid late object) object mid late
                      current.2.2 seq
              | none => slot = .unknown next ∧ seq = next + 1 ∧
                  late.store = mid.store ∧ late.nextSeq = seq) ∧
            OnRecord host.MayDrop frame late t
              (record.push (site.node seq value (receiver :: others ++ [slot]))) (seq + 1) := by
  unfold applyLeave fetchProperty Site.requireProperty Site.demand
  rw [ends_bind, found, ShadowM.ends_settle]
  dsimp only
  rw [ends_bind]
  cases operands with
  | error fault =>
    refine (ShadowM.ends_withRecord sane [] run).mono ?_
    rintro r t ⟨rfl, done⟩
    exact ⟨rfl, done⟩
  | ok operands =>
    obtain ⟨receiver, others⟩ := operands
    refine (ShadowM.ends_withRecord sane [] run).mono ?_
    rintro r mid ⟨rfl, popped⟩
    have saneMid := popped.unpoisoned sane
    have same : ∀ late : Shadow K, late.store.frames = mid.store.frames →
        late.recordOf frame = record :=
      fun late frames => (recordOf_congr frames frame).trans popped.recordOf
    dsimp only
    cases behind : objectBehind host receiver with
    | none =>
      dsimp only
      rw [ends_bind, ShadowM.ends_note]
      dsimp only
      rw [ends_bind, ShadowM.ends_create]
      dsimp only
      let late : Shadow K := { mid.note .debug "Property read on a receiver that is not a known object"
        (Checkpoint.siteFields site ++ [("property", property)]) with nextSeq := mid.nextSeq + 1 }
      have saneLate : Unpoisoned late := ⟨saneMid.frames, saneMid.objects, saneMid.scopes⟩
      refine (ends_pushNode_after saneLate _ (same late rfl)
        (congrArg (· + 1) popped.nextSeq)).mono ?_
      rintro r t ⟨rfl, pushed⟩
      exact ⟨rfl, mid, late, _, _, popped,
        ⟨congrArg Node.unknown popped.nextSeq, rfl, rfl, congrArg (· + 1) popped.nextSeq⟩, pushed⟩
    | some object =>
      dsimp only
      rw [ends_bind]
      have slots := objectSlots_congr popped.objects object
      refine (ShadowM.ends_withObject saneMid _ (by rw [slots, popped.nextSeq]; rfl)).mono ?_
      rintro r late ⟨rfl, read⟩
      refine (ends_pushNode_after (read.unpoisoned saneMid) _ (same _ read.frames)
        read.nextSeq).mono ?_
      rintro r t ⟨rfl, pushed⟩
      exact ⟨rfl, mid, late, _, _, popped, ⟨rfl, rfl, read⟩, pushed⟩

/-- What is known of the caller of `frame`. -/
def callerRecord? (host : Host K) (s : Shadow K) (frame : K.Frame) : Option (Record K.Value) :=
  (host.callerOf frame).bind s.record?

/-- The number of arguments that a site counts down from. -/
def argumentTotal (host : Host K) (frame : K.Frame) (slot : ArgumentSlot) : Nat :=
  match slot.count with
  | .declared count => count
  | .fromFrame => host.argumentCount frame

theorem ends_argumentOrigin (sane : s.Unpoisoned) (index count : Nat) :
    Ends (argumentOrigin host site frame index count) s fun r t =>
      match callerRecord? host s frame with
      | none => r = .ok (.unknown s.nextSeq) ∧ t.store = s.store ∧ t.nextSeq = s.nextSeq + 1
      | some caller => SameState s t ∧ r = caller.peekAt (count - (index + 1)) := by
  unfold argumentOrigin callerRecord?
  rw [ends_bind, ends_get]
  dsimp only
  cases host.callerOf frame with
  | none => exact ⟨rfl, rfl, rfl⟩
  | some caller =>
    simp only [Option.bind_some, record?, Table.content?]
    cases found : s.store.frames.find? caller with
    | none => exact ⟨rfl, rfl, rfl⟩
    | some entry =>
      dsimp only [Option.map_some]
      refine (ShadowM.ends_onFrame_look sane found (entry.content.peekAt (count - (index + 1)))
        ?_).mono fun r t done => ⟨done.2, done.1⟩
      rw [run_bind, run_get]
      dsimp only
      cases entry.content.peekAt (count - (index + 1)) <;> rfl

/-- An argument comes from the operand that the caller has pushed for it; of an untraced caller
    nothing is known. -/
theorem leave_bindArgument (sane : s.Unpoisoned) (slot : ArgumentSlot)
    (found : site.argument = some slot) :
    Ends (applyLeave tracer host site frame value .useArgDefStack) s fun r t =>
      match callerRecord? host s frame with
      | none => r = .ok () ∧ OnRecord host.MayDrop frame s t
          ((s.recordOf frame).push (site.node (s.nextSeq + 1) value [.unknown s.nextSeq]))
          (s.nextSeq + 2)
      | some caller =>
          match caller.peekAt (argumentTotal host frame slot - (slot.index + 1)) with
          | .error fault => r = .error fault ∧ SameState s t
          | .ok origin => r = .ok () ∧ OnRecord host.MayDrop frame s t
              ((s.recordOf frame).push (site.node s.nextSeq value [origin])) (s.nextSeq + 1) := by
  have bound : ∀ mid, SameState s mid →
      Ends (do
        let origin ← argumentOrigin host site frame slot.index (argumentTotal host frame slot)
        pushOn host frame (← nodeOf site value [origin])) mid fun r t =>
      match callerRecord? host s frame with
      | none => r = .ok () ∧ OnRecord host.MayDrop frame s t
          ((s.recordOf frame).push (site.node (s.nextSeq + 1) value [.unknown s.nextSeq]))
          (s.nextSeq + 2)
      | some caller =>
          match caller.peekAt (argumentTotal host frame slot - (slot.index + 1)) with
          | .error fault => r = .error fault ∧ SameState s t
          | .ok origin => r = .ok () ∧ OnRecord host.MayDrop frame s t
              ((s.recordOf frame).push (site.node s.nextSeq value [origin])) (s.nextSeq + 1) := by
    intro mid same
    have saneMid := same.unpoisoned sane
    have caller : callerRecord? host mid frame = callerRecord? host s frame := by
      unfold callerRecord? record?
      rw [same.1]
    rw [ends_bind]
    refine (ends_argumentOrigin saneMid _ _).mono ?_
    intro r late origin
    rw [caller] at origin
    cases known : callerRecord? host s frame with
    | none =>
      rw [known] at origin
      obtain ⟨rfl, store, seq⟩ := origin
      have moved : late.store = s.store := store.trans same.1
      rw [same.2] at seq
      have saneLate : Unpoisoned late := by
        constructor <;> rw [moved]
        · exact sane.frames
        · exact sane.objects
        · exact sane.scopes
      have recordLate := recordOf_congr (s := s) (by rw [moved]) frame
      refine (ends_pushNode_after saneLate _ recordLate seq).mono ?_
      rintro r t ⟨rfl, pushed⟩
      rw [same.2] at pushed
      refine ⟨rfl, ?_, ?_, ?_, ?_, pushed.nextSeq⟩ <;> rw [← moved]
      · exact pushed.frames
      · exact pushed.objects
      · exact pushed.scopes
      · exact pushed.globals
    | some callerRecord =>
      rw [known] at origin
      obtain ⟨sameLate, rfl⟩ := origin
      have whole : SameState s late := ⟨sameLate.1.trans same.1, sameLate.2.trans same.2⟩
      dsimp only
      cases peeked : callerRecord.peekAt (argumentTotal host frame slot - (slot.index + 1)) with
      | error fault => exact ⟨rfl, whole⟩
      | ok origin =>
        have recordLate := recordOf_congr (s := s) (by rw [whole.1]) frame
        refine (ends_pushNode_after (whole.unpoisoned sane) _ recordLate whole.2).mono ?_
        rintro r t ⟨rfl, pushed⟩
        exact ⟨rfl, pushed.same_trans whole⟩
  unfold applyLeave bindArgument Site.requireArgument Site.demand
  rw [ends_bind, found, ShadowM.ends_settle]
  dsimp only
  unfold argumentTotal at bound ⊢
  cases counted : slot.count with
  | declared count =>
    rw [counted] at bound
    exact bound s (.refl s)
  | fromFrame =>
    rw [counted] at bound
    dsimp only
    split
    · rw [ends_bind, ShadowM.ends_note]
      exact bound _ ⟨rfl, rfl⟩
    · exact bound s (.refl s)

/-- The caller of `frame` and the operand that it is handed: both frames are traced, and `frame` has
    left exactly that operand. -/
def handedBack? (host : Host K) (s : Shadow K) (frame : K.Frame) :
    Option (K.Frame × Node K.Value) :=
  match host.callerOf frame with
  | none => none
  | some caller =>
      match s.record? caller, s.record? frame with
      | some _, some record =>
          match record.stack with
          | [node] => some (caller, node)
          | _ => none
      | _, _ => none

/-- A record gives up its operand if that is the only one. -/
theorem run_giveUp (r : Record K.Value) (n : Nat) :
    (do
      let (record, _) ← get
      if record.depth = 1 then some <$> RecordM.take Record.pop else pure none :
      RecordM K.Value (Option (Node K.Value))).run.run (r, n) =
      match r.stack with
      | [node] => (.ok (some node), { r with stack := [] }, n)
      | _ => (.ok none, r, n) := by
  rw [run_bind, run_get]
  obtain ⟨stack, histories, result, invocation, marks⟩ := r
  dsimp only
  rcases stack with _ | ⟨node, _ | ⟨next, rest⟩⟩
  · rfl
  · rfl
  · split
    · next one => simp [Record.depth] at one
    · rfl

/-- A change of the record that a frame has. -/
theorem ends_onFrame_known (sane : s.Unpoisoned) {entry : Entry (Record K.Value)}
    (found : s.store.frames.find? frame = some entry) {α : Type} {work : RecordM K.Value α}
    {outcome : Except Fault α} {record : Record K.Value} {next : Nat}
    (run : work.run.run (s.recordOf frame, s.nextSeq) = (outcome, record, next)) :
    Ends (ShadowM.onFrame frame entry work) s fun r t =>
      r = outcome ∧ OnRecord (fun _ => False) frame s t record next := by
  have bound : s.store.frames.content? frame = some entry.content := by
    rw [Table.content?, found]; rfl
  rw [recordOf_eq bound] at run
  refine (ShadowM.ends_onFrame sane found run).mono ?_
  rintro r t ⟨rfl, store, seq⟩
  refine ⟨rfl, ?_, ?_, ?_, ?_, seq⟩
  · rw [store]
    exact Table.rebinds_modify sane.frames bound record
  all_goals rw [store]

/-- The result of a function goes to its caller, or stays where it is. -/
theorem leave_boundary (sane : s.Unpoisoned) :
    Ends (applyLeave tracer host site frame value .functionBoundary) s fun r t =>
      r = .ok () ∧
        match handedBack? host s frame with
        | none => SameState s t
        | some (caller, node) =>
            ∃ mid, OnRecord (fun _ => False) frame s mid { s.recordOf frame with stack := [] }
                s.nextSeq ∧
              OnRecord (fun _ => False) caller mid t ((mid.recordOf caller).push node)
                s.nextSeq := by
  unfold applyLeave handBack handedBack?
  cases host.callerOf frame with
  | none => exact ⟨rfl, .refl s⟩
  | some caller =>
    dsimp only
    rw [ends_bind, ends_get]
    dsimp only
    simp only [record?, Table.content?]
    cases callerFound : s.store.frames.find? caller with
    | none => exact ⟨rfl, rfl, rfl⟩
    | some callerEntry =>
      simp only [Option.isNone_some, Bool.false_eq_true, if_false, Option.map_some]
      cases found : s.store.frames.find? frame with
      | none => exact ⟨rfl, .refl s⟩
      | some entry =>
        have bound : s.recordOf frame = entry.content :=
          recordOf_eq (by rw [record?, Table.content?, found]; rfl)
        dsimp only [Option.map_some]
        rw [ends_bind]
        rcases stack : entry.content.stack with _ | ⟨node, _ | ⟨next, rest⟩⟩
        · have run := run_giveUp entry.content s.nextSeq
          rw [stack] at run
          refine (ShadowM.ends_onFrame_look sane found _ run).mono ?_
          rintro r t ⟨rfl, same⟩
          exact ⟨rfl, same.1, same.2⟩
        · have run := run_giveUp (s.recordOf frame) s.nextSeq
          rw [bound, stack] at run
          rw [← bound] at run
          refine (ends_onFrame_known sane found run).mono ?_
          rintro r mid ⟨rfl, taken⟩
          dsimp only
          rw [ends_bind, ends_get]
          dsimp only
          have still : ∃ late, mid.store.frames.find? caller = some late := by
            by_cases same : caller = frame
            · subst same
              obtain ⟨late, there, -⟩ := Option.map_eq_some_iff.mp taken.frames.here
              exact ⟨late, there⟩
            · exact ⟨_, ((taken.frames.others caller same).find?_eq id).trans callerFound⟩
          obtain ⟨late, there⟩ := still
          rw [there]
          dsimp only
          refine (ends_onFrame_known (taken.unpoisoned sane) there
            (RecordM.run_change (·.push node) _ _)).mono ?_
          rintro r t ⟨rfl, given⟩
          rw [taken.nextSeq] at given
          exact ⟨rfl, mid, taken, given⟩
        · have run := run_giveUp entry.content s.nextSeq
          rw [stack] at run
          refine (ShadowM.ends_onFrame_look sane found _ run).mono ?_
          rintro r t ⟨rfl, same⟩
          exact ⟨rfl, same.1, same.2⟩

/-! ### On enter -/

/-- Only records of frames without an owner are dropped. -/
theorem enter_boundary_lost (sane : s.Unpoisoned) :
    Ends (applyEnter host site frame .functionBoundary) s fun r t =>
      r = .ok () ∧ OnRecord (host.LostFrame [] s t frame) frame s t {} s.nextSeq := by
  change Ends (discard (ShadowM.attachFrame host frame)) s _
  change Ends ((fun _ => ()) <$> ShadowM.attachFrame host frame) s _
  rw [ends_map]
  refine (ShadowM.ends_attachFrame_lost sane frame).mono ?_
  rintro r t ⟨⟨entry, rfl⟩, attached⟩
  exact ⟨rfl, attached⟩

/-- As `enter_boundary_lost`, whatever else the host may have kept. -/
theorem enter_boundary (sane : s.Unpoisoned) :
    Ends (applyEnter host site frame .functionBoundary) s fun r t =>
      r = .ok () ∧ OnRecord host.MayDrop frame s t {} s.nextSeq := by
  refine (enter_boundary_lost sane).mono ?_
  rintro r t ⟨done, on⟩
  exact ⟨done, on.mono fun _ lost => lost.mayDrop⟩

theorem enter_marking (sane : s.Unpoisoned) {category : Category}
    (marking : category.marksDepth = true) :
    Ends (applyEnter host site frame category) s fun r t =>
      r = .ok () ∧ OnRecord host.MayDrop frame s t ((s.recordOf frame).mark site.id) s.nextSeq := by
  have notBoundary : category ≠ .functionBoundary := by
    rintro rfl
    cases marking
  unfold applyEnter
  rw [if_neg notBoundary, if_pos marking]
  exact ShadowM.ends_withRecord sane [] (RecordM.run_change (·.mark site.id) _ _)

theorem enter_other {category : Category} (notBoundary : category ≠ .functionBoundary)
    (unmarking : category.marksDepth = false) :
    Ends (applyEnter host site frame category) s fun r t => r = .ok () ∧ t = s := by
  unfold applyEnter
  rw [if_neg notBoundary, unmarking, if_neg Bool.false_ne_true]
  exact ⟨rfl, rfl⟩

/-! ### On unwind -/

/-- The returned operand becomes the origin of a node with the same value. -/
theorem unwind_return (sane : s.Unpoisoned) (exception : String) :
    Ends (applyUnwind host site frame exception .useStackDefReturn) s fun r t =>
      match (s.recordOf frame).stack with
      | [] => r = .error (.underflow none 1 0) ∧
          OnRecord host.MayDrop frame s t (s.recordOf frame) s.nextSeq
      | top :: below =>
          let node : Node K.Value := ⟨s.nextSeq, creatorOf site, top.value, [top]⟩
          r = .ok () ∧ OnRecord host.MayDrop frame s t
            (({ s.recordOf frame with stack := below }.push node).setResult node)
            (s.nextSeq + 1) := by
  change Ends (unwindReturn host site frame) s _
  unfold unwindReturn
  have run := RecordM.run_take Record.pop (s.recordOf frame) s.nextSeq
  cases stack : (s.recordOf frame).stack with
  | nil =>
    simp only [Record.pop, stack] at run
    exact ShadowM.ends_withRecord sane [] (by rw [run_bind, run])
  | cons top below =>
    simp only [Record.pop, stack] at run
    exact ShadowM.ends_withRecord sane [] (by rw [run_bind, run]; rfl)

/-- A site that had noted the depth of a record forgets it again. -/
theorem unwind_marking (sane : s.Unpoisoned) {category : Category}
    (marking : category.marksDepth = true) (exception : String) :
    Ends (applyUnwind host site frame exception category) s fun r t =>
      r = .ok () ∧
        match s.record? frame with
        | none => SameState s t
        | some record =>
            OnRecord (fun _ => False) frame s t (record.unmark site.id) s.nextSeq := by
  have notBoundary : category ≠ .functionBoundary := by
    rintro rfl
    cases marking
  have notReturn : category ≠ .useStackDefReturn := by
    rintro rfl
    cases marking
  unfold applyUnwind
  rw [if_neg notBoundary, if_neg notReturn, if_pos marking, ends_bind, ends_get]
  dsimp only [record?, Table.content?]
  cases found : s.store.frames.find? frame with
  | none => exact ⟨rfl, .refl s⟩
  | some entry =>
    have bound : s.recordOf frame = entry.content :=
      recordOf_eq (by rw [record?, Table.content?, found]; rfl)
    dsimp only [Option.map_some]
    rw [← bound]
    exact ends_onFrame_known sane found (RecordM.run_change (·.unmark site.id) _ _)

theorem unwind_other {category : Category} (notReturn : category ≠ .useStackDefReturn)
    (unmarking : category.marksDepth = false) (exception : String) :
    Ends (applyUnwind host site frame exception category) s fun r t =>
      r = .ok () ∧ SameState s t := by
  unfold applyUnwind
  rw [if_neg notReturn, unmarking, if_neg Bool.false_ne_true]
  split
  · exact ⟨rfl, rfl, rfl⟩
  · exact ⟨rfl, .refl s⟩

/-! ### All categories of a site -/

/-- The rules of the first category and of the others, as long as they succeed. -/
theorem ends_rules_cons (site : Site K) (rule : Category → ShadowM K Unit) (category : Category)
    (others : List Category) (s : Shadow K) (post : Except Fault Unit → Shadow K → Prop) :
    Ends ((category :: others).forM fun c => ExceptT.adapt (·.atSite site.id) (rule c)) s post ↔
      Ends (rule category) s fun r t =>
        match r with
        | .ok _ => Ends (others.forM fun c => ExceptT.adapt (·.atSite site.id) (rule c)) t post
        | .error fault => post (.error (fault.atSite site.id)) t := by
  change Ends (ExceptT.adapt (·.atSite site.id) (rule category) >>= fun _ =>
    others.forM fun c => ExceptT.adapt (·.atSite site.id) (rule c)) s post ↔ _
  rw [ends_bind, ends_adapt]
  unfold Ends
  rcases (rule category).run.run s with ⟨_ | _, t⟩ <;> rfl

/-- For a site of one category there is one rule to apply. -/
theorem ends_applyRules_one {category : Category} (only : site.categories.toList = [category])
    (rule : Category → ShadowM K Unit) (s : Shadow K)
    (post : Except Fault Unit → Shadow K → Prop) :
    Ends (applyRules site rule) s post ↔
      Ends (rule category) s fun r t => post (r.mapError (·.atSite site.id)) t := by
  unfold applyRules
  rw [only, ends_rules_cons]
  unfold Ends
  rcases (rule category).run.run s with ⟨_ | _, t⟩ <;> rfl

end Lineage.Tracer
