import Lineage.Proofs.LogBlind
import Lineage.Proofs.Reaching

/-!
# Rules in states that differ in what was dropped

Two states in which a rule finds the same: the record of its frame, what is known of the caller, the
scope of the class variable, the objects that the record refers to, the globals and the number of the
next node. Of everything else one state may have dropped what the other has not. The rule comes to the
same outcome in both, also if entries are swept in another order in one of them, and leaves the same in
the entries that it has worked on; every other entry is as it was, or has been dropped because the host
does not keep its key.
-/

namespace Lineage

open Shadow

variable {K : Kinds} {host : Host K}

/-- The same host, where sweeps come to the entries in another order. -/
def Host.inOrder (host : Host K) (order : SweepOrder K) : Host K := { host with order }

section InOrder

variable (host : Host K) (order : SweepOrder K)

theorem Host.callerOf_inOrder (frame : K.Frame) :
    (host.inOrder order).callerOf frame = host.callerOf frame := rfl

theorem Tracer.objectBehind_inOrder (node : Node K.Value) :
    objectBehind (host.inOrder order) node = objectBehind host node := rfl

theorem Tracer.argumentTotal_inOrder (frame : K.Frame) (slot : ArgumentSlot) :
    argumentTotal (host.inOrder order) frame slot = argumentTotal host frame slot := rfl

end InOrder

/-- Both states have the same entry for the entity, or neither has one. -/
def Handle.Same (s t : Shadow K) : Handle K → Prop
  | .frame f => t.record? f = s.record? f
  | .object o => t.store.objects.content? o = s.store.objects.content? o
  | .scope c => t.store.scopes.content? c = s.store.scopes.content? c

/-- The entry is as it was, or has been dropped as one that the host does not keep. -/
def Handle.Spared (host : Host K) (s t : Shadow K) (handle : Handle K) : Prop :=
  handle.Same s t ∨ handle.Dropped t ∧ host.LetsGo handle

namespace Handle

variable {handle : Handle K} {s t u : Shadow K}

theorem Same.refl (handle : Handle K) (s : Shadow K) : handle.Same s s := by
  cases handle <;> rfl

theorem Same.symm (h : handle.Same s t) : handle.Same t s := by
  cases handle <;> exact Eq.symm h

theorem Same.trans (h : handle.Same s t) (h' : handle.Same t u) : handle.Same s u := by
  cases handle <;> exact Eq.trans h' h

theorem Same.dropped (h : handle.Same s t) (gone : handle.Dropped s) : handle.Dropped t := by
  cases handle <;> exact Eq.trans h gone

theorem Dropped.same (gone : handle.Dropped s) (gone' : handle.Dropped t) : handle.Same s t := by
  cases handle <;> exact Eq.trans gone' (Eq.symm gone)

theorem Spared.trans (h : handle.Spared host s t) (h' : handle.Spared host t u) :
    handle.Spared host s u := by
  rcases h' with same' | gone'
  · rcases h with same | ⟨gone, letsGo⟩
    · exact .inl (same.trans same')
    · exact .inr ⟨same'.dropped gone, letsGo⟩
  · exact .inr gone'

theorem Spared.inOrder (h : handle.Spared host s t) (order : SweepOrder K) :
    handle.Spared (host.inOrder order) s t := by
  cases handle <;> exact h

end Handle

theorem Handle.same_frame {s t : Shadow K} (h : t.store.frames = s.store.frames) (f : K.Frame) :
    Handle.Same s t (.frame f) := record?_congr h f

theorem Handle.same_object {s t : Shadow K} (h : t.store.objects = s.store.objects) (o : K.Object) :
    Handle.Same s t (.object o) := congrArg (Table.content? · o) h

theorem Handle.same_scope {s t : Shadow K} (h : t.store.scopes = s.store.scopes) (c : K.Scope) :
    Handle.Same s t (.scope c) := congrArg (Table.content? · c) h

theorem Handle.same_store {s t : Shadow K} (h : t.store = s.store) (handle : Handle K) :
    handle.Same s t := by
  cases handle with
  | frame f => exact same_frame (by rw [h]) f
  | object o => exact same_object (by rw [h]) o
  | scope c => exact same_scope (by rw [h]) c

/-- A frame that the host keeps. -/
def Handle.Firm (host : Host K) : Handle K → Prop
  | .frame f => ¬ host.MayDrop f
  | _ => True

/-- From `s` and `t` two runs have come to `s'` and `t'`, which agree on the number of the next node and
    on the globals, and on every entry that has not merely been left alone or dropped by each of them.
    Frames on whose records both have worked are kept by the host. -/
structure Abreast (host : Host K) (s t s' t' : Shadow K) : Prop where
  sane : s'.Unpoisoned
  sane' : t'.Unpoisoned
  nextSeq : t'.nextSeq = s'.nextSeq
  globals : t'.store.globals = s'.store.globals
  handles : ∀ handle : Handle K, handle.Same s' t' ∧ handle.Firm host ∨
    handle.Spared host s s' ∧ handle.Spared host t t'

namespace Abreast

variable {s t s' t' u v : Shadow K}

theorem refl (sane : s.Unpoisoned) (sane' : t.Unpoisoned) (nextSeq : t.nextSeq = s.nextSeq)
    (globals : t.store.globals = s.store.globals) : Abreast host s t s t where
  sane := sane
  sane' := sane'
  nextSeq := nextSeq
  globals := globals
  handles handle := .inr ⟨.inl (.refl handle s), .inl (.refl handle t)⟩

/-- An entry that both runs leave alone. -/
theorem carry (h : Abreast host s t s' t') {handle : Handle K} (one : handle.Same s' u)
    (two : handle.Same t' v) : handle.Same u v ∧ handle.Firm host ∨
      handle.Spared host s u ∧ handle.Spared host t v :=
  (h.handles handle).imp (And.imp_left fun same => one.symm.trans (same.trans two))
    (And.imp (·.trans (.inl one)) (·.trans (.inl two)))

/-- Changes of nothing but the log and the number of the next node. -/
theorem onStore (h : Abreast host s t s' t') (one : u.store = s'.store) (two : v.store = t'.store)
    (nextSeq : v.nextSeq = u.nextSeq) : Abreast host s t u v where
  sane := by
    constructor <;> rw [one]
    · exact h.sane.frames
    · exact h.sane.objects
    · exact h.sane.scopes
  sane' := by
    constructor <;> rw [two]
    · exact h.sane'.frames
    · exact h.sane'.objects
    · exact h.sane'.scopes
  nextSeq := nextSeq
  globals := by
    rw [one, two]
    exact h.globals
  handles handle := h.carry (Handle.same_store one handle) (Handle.same_store two handle)

theorem onLog (h : Abreast host s t s' t') (one : SameState s' u) (two : SameState t' v) :
    Abreast host s t u v :=
  h.onStore one.1 two.1 (two.2.trans (h.nextSeq.trans one.2.symm))

theorem spared_of_onRecord {frame f : K.Frame} {record : Record K.Value} {n : Nat}
    (on : OnRecord host.MayDrop frame s t record n) (other : f ≠ frame) :
    Handle.Spared host s t (.frame f) := by
  rcases on.frames.others f other with same | ⟨gone, dead⟩
  · exact .inl (by rw [Handle.Same, record?, Table.content?, same]; rfl)
  · exact .inr ⟨by rw [Handle.Dropped, record?, Table.content?, gone]; rfl, dead⟩

theorem spared_of_onObject {inHand : List (Node K.Value)} {object o : K.Object}
    {slots : Slots K.Value} {n : Nat} (on : OnObject (host.Lost inHand s t object) object s t slots n)
    (other : o ≠ object) : Handle.Spared host s t (.object o) := by
  rcases on.objects.others o other with same | ⟨gone, lost⟩
  · exact .inl (by rw [Handle.Same, Table.content?, same]; rfl)
  · exact .inr ⟨by rw [Handle.Dropped, Table.content?, gone]; rfl, lost.mayDrop⟩

theorem spared_of_onScope {scope c : K.Scope} {slots : Slots K.Value} {n : Nat}
    (on : OnScope host.MayDropScope scope s t slots n) (other : c ≠ scope) :
    Handle.Spared host s t (.scope c) := by
  rcases on.scopes.others c other with same | ⟨gone, dead⟩
  · exact .inl (by rw [Handle.Same, Table.content?, same]; rfl)
  · exact .inr ⟨by rw [Handle.Dropped, Table.content?, gone]; rfl, dead⟩

/-- Both runs have put the same record in its place. -/
theorem onRecord (h : Abreast host s t s' t') {frame : K.Frame} {record : Record K.Value} {n : Nat}
    (held : ¬ host.MayDrop frame) (one : OnRecord host.MayDrop frame s' u record n)
    (two : OnRecord host.MayDrop frame t' v record n) : Abreast host s t u v where
  sane := one.unpoisoned h.sane
  sane' := two.unpoisoned h.sane'
  nextSeq := two.nextSeq.trans one.nextSeq.symm
  globals := two.globals.trans (h.globals.trans one.globals.symm)
  handles
    | .object o => h.carry (Handle.same_object one.objects o) (Handle.same_object two.objects o)
    | .scope c => h.carry (Handle.same_scope one.scopes c) (Handle.same_scope two.scopes c)
    | .frame f => by
      by_cases own : f = frame
      · subst own
        exact .inl ⟨two.record?.trans one.record?.symm, held⟩
      have spared := spared_of_onRecord one own
      have spared' := spared_of_onRecord two own
      rcases h.handles (.frame f) with ⟨same, firm⟩ | ⟨before, before'⟩
      · -- neither run has dropped the record, since the host keeps its frame
        have left := spared.resolve_right fun gone => firm gone.2
        have left' := spared'.resolve_right fun gone => firm gone.2
        exact .inl ⟨left.symm.trans (same.trans left'), firm⟩
      · exact .inr ⟨before.trans spared, before'.trans spared'⟩

/-- Both runs have put the same slots of an object in their place, the first that they work on. -/
theorem onObject (h : Abreast host s t s' t') {inHand inHand' : List (Node K.Value)}
    {object : K.Object} {slots : Slots K.Value} {n : Nat}
    (first : s'.store.objects = s.store.objects) (first' : t'.store.objects = t.store.objects)
    (one : OnObject (host.Lost inHand s' u object) object s' u slots n)
    (two : OnObject (host.Lost inHand' t' v object) object t' v slots n) : Abreast host s t u v where
  sane := one.unpoisoned h.sane
  sane' := two.unpoisoned h.sane'
  nextSeq := two.nextSeq.trans one.nextSeq.symm
  globals := two.globals.trans (h.globals.trans one.globals.symm)
  handles
    | .frame f => h.carry (Handle.same_frame one.frames f) (Handle.same_frame two.frames f)
    | .scope c => h.carry (Handle.same_scope one.scopes c) (Handle.same_scope two.scopes c)
    | .object o => by
      by_cases own : o = object
      · subst own
        exact .inl ⟨two.objects.here.trans one.objects.here.symm, trivial⟩
      · exact .inr ⟨.trans (.inl (Handle.same_object first o)) (spared_of_onObject one own),
          .trans (.inl (Handle.same_object first' o)) (spared_of_onObject two own)⟩

/-- Both runs have put the same slots of a scope in their place, the first that they work on. -/
theorem onScope (h : Abreast host s t s' t') {scope : K.Scope} {slots : Slots K.Value} {n : Nat}
    (first : s'.store.scopes = s.store.scopes) (first' : t'.store.scopes = t.store.scopes)
    (one : OnScope host.MayDropScope scope s' u slots n)
    (two : OnScope host.MayDropScope scope t' v slots n) : Abreast host s t u v where
  sane := one.unpoisoned h.sane
  sane' := two.unpoisoned h.sane'
  nextSeq := two.nextSeq.trans one.nextSeq.symm
  globals := two.globals.trans (h.globals.trans one.globals.symm)
  handles
    | .frame f => h.carry (Handle.same_frame one.frames f) (Handle.same_frame two.frames f)
    | .object o => h.carry (Handle.same_object one.objects o) (Handle.same_object two.objects o)
    | .scope c => by
      by_cases own : c = scope
      · subst own
        exact .inl ⟨two.scopes.here.trans one.scopes.here.symm, trivial⟩
      · exact .inr ⟨.trans (.inl (Handle.same_scope first c)) (spared_of_onScope one own),
          .trans (.inl (Handle.same_scope first' c)) (spared_of_onScope two own)⟩

/-- Both runs have put the same globals in their place. -/
theorem onGlobals (h : Abreast host s t s' t') {globals : Slots K.Value} {n : Nat}
    (one : OnGlobals s' u globals n) (two : OnGlobals t' v globals n) : Abreast host s t u v where
  sane := one.unpoisoned h.sane
  sane' := two.unpoisoned h.sane'
  nextSeq := two.nextSeq.trans one.nextSeq.symm
  globals := two.globals.trans one.globals.symm
  handles
    | .frame f => h.carry (Handle.same_frame one.frames f) (Handle.same_frame two.frames f)
    | .object o => h.carry (Handle.same_object one.objects o) (Handle.same_object two.objects o)
    | .scope c => h.carry (Handle.same_scope one.scopes c) (Handle.same_scope two.scopes c)

end Abreast

/-- Outcomes and states that two runs are known to end with. -/
theorem Ends.twin {ε σ α : Type} {R : σ → σ → Prop} {s t : σ} {work work' : ExceptT ε (StateM σ) α}
    {p q : Except ε α → σ → Prop} (h : Ends work s p) (h' : Ends work' t q)
    (related : ∀ r s' r' t', p r s' → q r' t' → r = r' ∧ R s' t') : Twin R s t work work' :=
  related _ _ _ _ h h'

/-- Two states in which the rules of a site find the same. -/
structure Level (host : Host K) (site : Site K) (frame : K.Frame) (s t : Shadow K) : Prop where
  sane : s.Unpoisoned
  sane' : t.Unpoisoned
  nextSeq : t.nextSeq = s.nextSeq
  globals : t.store.globals = s.store.globals
  record? : t.record? frame = s.record? frame
  held : ¬ host.MayDrop frame
  caller : ∀ g, host.callerOf frame = some g → t.record? g = s.record? g ∧
    (s.record? g ≠ none → ¬ host.MayDrop g)
  scope : ∀ owned, site.classVariable = some owned →
    t.store.scopes.content? owned.scope = s.store.scopes.content? owned.scope
  object : ∀ node ∈ (s.recordOf frame).nodes, ∀ o, Tracer.objectBehind host node = some o →
    t.store.objects.content? o = s.store.objects.content? o

namespace Level

open Tracer

variable {tracer : Tracer} {site : Site K} {frame : K.Frame} {value : K.Value} {s t : Shadow K}
  {order : SweepOrder K}

theorem recordOf (h : Level host site frame s t) : t.recordOf frame = s.recordOf frame :=
  congrArg (·.getD {}) h.record?

theorem refl (h : Level host site frame s t) : Abreast host s t s t :=
  .refl h.sane h.sane' h.nextSeq h.globals

theorem lacking (h : Level host site frame s t) {category : Category} {what : Capability}
    (reads : category.capability? = some what) (lacks : site.has what = false) :
    Twin (Abreast host s t) s t (applyLeave tracer host site frame value category)
      (applyLeave tracer (host.inOrder order) site frame value category) := by
  unfold Twin
  rw [run_leave_lacking reads lacks, run_leave_lacking reads lacks]
  exact ⟨rfl, h.refl⟩

theorem noUse (h : Level host site frame s t) :
    Twin (Abreast host s t) s t (applyLeave tracer host site frame value .noUseDefStack)
      (applyLeave tracer (host.inOrder order) site frame value .noUseDefStack) := by
  refine (leave_noUse h.sane).twin (leave_noUse h.sane') ?_
  rintro _ _ _ _ ⟨rfl, one⟩ ⟨rfl, two⟩
  rw [h.recordOf, h.nextSeq] at two
  exact ⟨rfl, h.refl.onRecord h.held one two⟩

theorem operands (h : Level host site frame s t) :
    Twin (Abreast host s t) s t (applyLeave tracer host site frame value .useStackDefStack)
      (applyLeave tracer (host.inOrder order) site frame value .useStackDefStack) := by
  rcases run : (takeOperands site).run.run (s.recordOf frame, s.nextSeq) with ⟨taken, record, next⟩
  have run' := run
  rw [← h.recordOf, ← h.nextSeq] at run'
  refine (leave_operands h.sane run).twin (leave_operands h.sane' run') ?_
  cases taken with
  | error fault =>
    rintro _ _ _ _ ⟨rfl, one⟩ ⟨rfl, two⟩
    exact ⟨rfl, h.refl.onRecord h.held one two⟩
  | ok operands =>
    rintro _ _ _ _ ⟨rfl, one⟩ ⟨rfl, two⟩
    exact ⟨rfl, h.refl.onRecord h.held one two⟩

theorem readLocal (h : Level host site frame s t) :
    Twin (Abreast host s t) s t (applyLeave tracer host site frame value .useLocalDefStack)
      (applyLeave tracer (host.inOrder order) site frame value .useLocalDefStack) := by
  cases found : site.localSlot with
  | none => exact h.lacking rfl (congrArg Option.isSome found)
  | some name =>
    refine (leave_readLocal h.sane name found).twin (leave_readLocal h.sane' name found) ?_
    rintro _ _ _ _ ⟨rfl, one⟩ ⟨rfl, two⟩
    rw [h.recordOf, h.nextSeq] at two
    exact ⟨rfl, h.refl.onRecord h.held one two⟩

theorem writeLocal (h : Level host site frame s t) :
    Twin (Abreast host s t) s t (applyLeave tracer host site frame value .useStackDefLocalStack)
      (applyLeave tracer (host.inOrder order) site frame value .useStackDefLocalStack) := by
  cases found : site.localSlot with
  | none => exact h.lacking rfl (congrArg Option.isSome found)
  | some name =>
    refine (leave_writeLocal h.sane name found).twin (leave_writeLocal h.sane' name found) ?_
    intro r s' r' t' done done'
    rw [h.recordOf, h.nextSeq] at done'
    cases stack : (s.recordOf frame).stack with
    | nil =>
      rw [stack] at done done'
      obtain ⟨rfl, one⟩ := done
      obtain ⟨rfl, two⟩ := done'
      exact ⟨rfl, h.refl.onRecord h.held one two⟩
    | cons top below =>
      rw [stack] at done done'
      obtain ⟨rfl, one⟩ := done
      obtain ⟨rfl, two⟩ := done'
      exact ⟨rfl, h.refl.onRecord h.held one two⟩

theorem scopeSlots (h : Level host site frame s t) {owned : ClassVariable K}
    (found : site.classVariable = some owned) :
    t.scopeSlots owned.scope = s.scopeSlots owned.scope :=
  congrArg (·.getD {}) (h.scope owned found)

theorem readClassVariable (h : Level host site frame s t) :
    Twin (Abreast host s t) s t (applyLeave tracer host site frame value .useClassVarDefStack)
      (applyLeave tracer (host.inOrder order) site frame value .useClassVarDefStack) := by
  cases found : site.classVariable with
  | none => exact h.lacking rfl (congrArg Option.isSome found)
  | some owned =>
    refine (leave_readClassVariable h.sane owned found).twin
      (leave_readClassVariable h.sane' owned found) ?_
    intro r s' r' t' done done'
    rw [h.recordOf, h.scopeSlots found, h.nextSeq] at done'
    obtain ⟨rfl, mid, read, one⟩ := done
    obtain ⟨rfl, mid', read', two⟩ := done'
    exact ⟨rfl, (h.refl.onScope rfl rfl read read').onRecord h.held one two⟩

theorem writeClassVariable (h : Level host site frame s t) :
    Twin (Abreast host s t) s t (applyLeave tracer host site frame value .useStackDefClassVar)
      (applyLeave tracer (host.inOrder order) site frame value .useStackDefClassVar) := by
  cases found : site.classVariable with
  | none => exact h.lacking rfl (congrArg Option.isSome found)
  | some owned =>
    refine (leave_writeClassVariable h.sane owned found).twin
      (leave_writeClassVariable h.sane' owned found) ?_
    intro r s' r' t' done done'
    rw [h.recordOf, h.scopeSlots found, h.nextSeq] at done'
    cases stack : (s.recordOf frame).stack with
    | nil =>
      rw [stack] at done done'
      obtain ⟨rfl, one⟩ := done
      obtain ⟨rfl, two⟩ := done'
      exact ⟨rfl, h.refl.onRecord h.held one two⟩
    | cons top below =>
      rw [stack] at done done'
      obtain ⟨rfl, mid, late, popped, written, one⟩ := done
      obtain ⟨rfl, mid', late', popped', written', two⟩ := done'
      have taken := h.refl.onRecord h.held popped popped'
      exact ⟨rfl, (taken.onScope popped.scopes popped'.scopes written written').onRecord h.held
        one two⟩

theorem readGlobal (h : Level host site frame s t) :
    Twin (Abreast host s t) s t (applyLeave tracer host site frame value .useGlobalDefStack)
      (applyLeave tracer (host.inOrder order) site frame value .useGlobalDefStack) := by
  cases found : site.globalName with
  | none => exact h.lacking rfl (congrArg Option.isSome found)
  | some name =>
    refine (leave_readGlobal h.sane name found).twin (leave_readGlobal h.sane' name found) ?_
    intro r s' r' t' done done'
    rw [h.recordOf, h.globals, h.nextSeq] at done'
    obtain ⟨rfl, mid, read, one⟩ := done
    obtain ⟨rfl, mid', read', two⟩ := done'
    exact ⟨rfl, (h.refl.onGlobals read read').onRecord h.held one two⟩

theorem writeGlobal (h : Level host site frame s t) :
    Twin (Abreast host s t) s t (applyLeave tracer host site frame value .useStackDefGlobal)
      (applyLeave tracer (host.inOrder order) site frame value .useStackDefGlobal) := by
  cases found : site.globalName with
  | none => exact h.lacking rfl (congrArg Option.isSome found)
  | some name =>
    refine (leave_writeGlobal h.sane name found).twin (leave_writeGlobal h.sane' name found) ?_
    intro r s' r' t' done done'
    rw [h.recordOf, h.globals, h.nextSeq] at done'
    cases stack : (s.recordOf frame).stack with
    | nil =>
      rw [stack] at done done'
      obtain ⟨rfl, one⟩ := done
      obtain ⟨rfl, two⟩ := done'
      exact ⟨rfl, h.refl.onRecord h.held one two⟩
    | cons top below =>
      rw [stack] at done done'
      obtain ⟨rfl, mid, late, popped, written, one⟩ := done
      obtain ⟨rfl, mid', late', popped', written', two⟩ := done'
      have taken := h.refl.onRecord h.held popped popped'
      exact ⟨rfl, (taken.onGlobals written written').onRecord h.held one two⟩

/-- The slots of an object that an operand refers to. -/
theorem objectSlots (h : Level host site frame s t) {node : Node K.Value} {o : K.Object}
    (mem : node ∈ (s.recordOf frame).nodes) (behind : objectBehind host node = some o) :
    t.objectSlots o = s.objectSlots o := congrArg (·.getD {}) (h.object node mem o behind)

theorem writeProperty (h : Level host site frame s t) :
    Twin (Abreast host s t) s t (applyLeave tracer host site frame value .useStackDefPropertyStack)
      (applyLeave tracer (host.inOrder order) site frame value .useStackDefPropertyStack) := by
  cases found : site.property with
  | none => exact h.lacking rfl (congrArg Option.isSome found)
  | some name =>
    rcases run : (takeReceiver site (.writeWithoutReceiver site.id site.label)).run.run
      (s.recordOf frame, s.nextSeq) with ⟨taken, record, next⟩
    have run' := run
    rw [← h.recordOf, ← h.nextSeq] at run'
    refine (leave_assignProperty h.sane name found run).twin
      (leave_assignProperty h.sane' name found run') ?_
    cases taken with
    | error fault =>
      rintro _ _ _ _ ⟨rfl, one⟩ ⟨rfl, two⟩
      exact ⟨rfl, h.refl.onRecord h.held one two⟩
    | ok operands =>
      obtain ⟨receiver, others⟩ := operands
      rintro _ _ _ _ ⟨rfl, mid, late, popped, written, one⟩ ⟨rfl, mid', late', popped', written', two⟩
      have taken := h.refl.onRecord h.held popped popped'
      rw [objectBehind_inOrder] at written'
      cases behind : objectBehind host receiver with
      | none =>
        rw [behind] at written written'
        exact ⟨rfl, (taken.onLog written written').onRecord h.held one two⟩
      | some object =>
        rw [behind] at written written'
        dsimp only at written written'
        have inside := (nodes_of_takeReceiver run).2.2 receiver others rfl receiver List.mem_cons_self
        rw [h.objectSlots inside behind] at written'
        exact ⟨rfl, (taken.onObject popped.objects popped'.objects written written').onRecord h.held
          one two⟩

theorem readProperty (h : Level host site frame s t) :
    Twin (Abreast host s t) s t (applyLeave tracer host site frame value .usePropertyStackDefStack)
      (applyLeave tracer (host.inOrder order) site frame value .usePropertyStackDefStack) := by
  cases found : site.property with
  | none => exact h.lacking rfl (congrArg Option.isSome found)
  | some name =>
    rcases run : (takeReceiver site (.readWithoutReceiver site.id site.label)).run.run
      (s.recordOf frame, s.nextSeq) with ⟨taken, record, next⟩
    have run' := run
    rw [← h.recordOf, ← h.nextSeq] at run'
    refine (leave_fetchProperty h.sane name found run).twin
      (leave_fetchProperty h.sane' name found run') ?_
    cases taken with
    | error fault =>
      rintro _ _ _ _ ⟨rfl, one⟩ ⟨rfl, two⟩
      exact ⟨rfl, h.refl.onRecord h.held one two⟩
    | ok operands =>
      obtain ⟨receiver, others⟩ := operands
      rintro _ _ _ _ ⟨rfl, mid, late, slot, seq, popped, read, one⟩
        ⟨rfl, mid', late', slot', seq', popped', read', two⟩
      have taken := h.refl.onRecord h.held popped popped'
      rw [objectBehind_inOrder] at read'
      cases behind : objectBehind host receiver with
      | none =>
        rw [behind] at read read'
        obtain ⟨rfl, rfl, store, seq⟩ := read
        obtain ⟨rfl, rfl, store', seq'⟩ := read'
        exact ⟨rfl, (taken.onStore store store' (seq'.trans seq.symm)).onRecord h.held one two⟩
      | some object =>
        rw [behind] at read read'
        dsimp only at read read'
        have inside := (nodes_of_takeReceiver run).2.2 receiver others rfl receiver List.mem_cons_self
        rw [h.objectSlots inside behind] at read'
        obtain ⟨rfl, rfl, read⟩ := read
        obtain ⟨rfl, rfl, read'⟩ := read'
        exact ⟨rfl, (taken.onObject popped.objects popped'.objects read read').onRecord h.held
          one two⟩

theorem callerRecord? (h : Level host site frame s t) (order : SweepOrder K) :
    Tracer.callerRecord? (host.inOrder order) t frame = Tracer.callerRecord? host s frame := by
  unfold Tracer.callerRecord?
  rw [Host.callerOf_inOrder]
  cases called : host.callerOf frame with
  | none => rfl
  | some g => exact (h.caller g called).1

theorem bindArgument (h : Level host site frame s t) :
    Twin (Abreast host s t) s t (applyLeave tracer host site frame value .useArgDefStack)
      (applyLeave tracer (host.inOrder order) site frame value .useArgDefStack) := by
  cases found : site.argument with
  | none => exact h.lacking rfl (congrArg Option.isSome found)
  | some slot =>
    refine (leave_bindArgument h.sane slot found).twin (leave_bindArgument h.sane' slot found) ?_
    intro r s' r' t' done done'
    rw [h.recordOf, h.callerRecord? order, h.nextSeq] at done'
    cases known : Tracer.callerRecord? host s frame with
    | none =>
      rw [known] at done done'
      obtain ⟨rfl, one⟩ := done
      obtain ⟨rfl, two⟩ := done'
      exact ⟨rfl, h.refl.onRecord h.held one two⟩
    | some caller =>
      rw [known] at done done'
      dsimp only at done done'
      rw [argumentTotal_inOrder] at done'
      cases peeked : caller.peekAt (argumentTotal host frame slot - (slot.index + 1)) with
      | error fault =>
        rw [peeked] at done done'
        obtain ⟨rfl, same⟩ := done
        obtain ⟨rfl, same'⟩ := done'
        exact ⟨rfl, h.refl.onLog same same'⟩
      | ok origin =>
        rw [peeked] at done done'
        obtain ⟨rfl, one⟩ := done
        obtain ⟨rfl, two⟩ := done'
        exact ⟨rfl, h.refl.onRecord h.held one two⟩

theorem handedBack? (h : Level host site frame s t) (order : SweepOrder K) :
    Tracer.handedBack? (host.inOrder order) t frame = Tracer.handedBack? host s frame := by
  unfold Tracer.handedBack?
  rw [Host.callerOf_inOrder]
  cases called : host.callerOf frame with
  | none => rfl
  | some g =>
    dsimp only
    rw [(h.caller g called).1, h.record?]

theorem callerOf_of_handedBack? {caller : K.Frame} {node : Node K.Value}
    (handed : Tracer.handedBack? host s frame = some (caller, node)) :
    host.callerOf frame = some caller := by
  unfold Tracer.handedBack? at handed
  split at handed
  · cases handed
  · next called =>
    split at handed
    · split at handed
      · cases handed
        exact called
      · cases handed
    · cases handed

theorem boundary (h : Level host site frame s t) :
    Twin (Abreast host s t) s t (applyLeave tracer host site frame value .functionBoundary)
      (applyLeave tracer (host.inOrder order) site frame value .functionBoundary) := by
  refine (leave_boundary h.sane).twin (leave_boundary h.sane') ?_
  rintro _ _ _ _ ⟨rfl, done⟩ ⟨rfl, done'⟩
  rw [h.handedBack? order] at done'
  cases handed : Tracer.handedBack? host s frame with
  | none =>
    rw [handed] at done done'
    exact ⟨rfl, h.refl.onLog done done'⟩
  | some both =>
    obtain ⟨caller, node⟩ := both
    rw [handed] at done done'
    obtain ⟨mid, took, gave⟩ := done
    obtain ⟨mid', took', gave'⟩ := done'
    rw [h.recordOf, h.nextSeq] at took'
    rw [h.nextSeq] at gave'
    obtain ⟨there, -⟩ := handedBack?_eq handed
    obtain ⟨same, kept⟩ := h.caller caller (callerOf_of_handedBack? handed)
    have record : mid'.record? caller = mid.record? caller := by
      by_cases own : caller = frame
      · rw [own, took.record?, took'.record?]
      · exact ((took'.frames.others caller own).content?_eq id).trans
          (same.trans ((took.frames.others caller own).content?_eq id).symm)
    rw [show mid'.recordOf caller = mid.recordOf caller from congrArg (·.getD {}) record] at gave'
    have taken := h.refl.onRecord h.held (took.mono fun _ => False.elim)
      (took'.mono fun _ => False.elim)
    exact ⟨rfl, taken.onRecord (kept there) (gave.mono fun _ => False.elim)
      (gave'.mono fun _ => False.elim)⟩

theorem leave (h : Level host site frame s t) (category : Category) :
    Twin (Abreast host s t) s t (applyLeave tracer host site frame value category)
      (applyLeave tracer (host.inOrder order) site frame value category) := by
  cases category with
  | functionBoundary => exact h.boundary
  | noUseDefStack => exact h.noUse
  | useStackDefStack => exact h.operands
  | useLocalDefStack => exact h.readLocal
  | useStackDefLocalStack => exact h.writeLocal
  | useArgDefStack => exact h.bindArgument
  | useStackDefPropertyStack => exact h.writeProperty
  | usePropertyStackDefStack => exact h.readProperty
  | useStackDefReturn => exact twin_pure h.refl ()
  | useClassVarDefStack => exact h.readClassVariable
  | useStackDefClassVar => exact h.writeClassVariable
  | useGlobalDefStack => exact h.readGlobal
  | useStackDefGlobal => exact h.writeGlobal
  | callNode => exact ⟨rfl, h.refl.onLog ⟨rfl, rfl⟩ ⟨rfl, rfl⟩⟩

theorem enter (h : Level host site frame s t) (category : Category) :
    Twin (Abreast host s t) s t (applyEnter host site frame category)
      (applyEnter (host.inOrder order) site frame category) := by
  by_cases boundary : category = .functionBoundary
  · subst boundary
    refine (enter_boundary h.sane).twin (enter_boundary h.sane') ?_
    rintro _ _ _ _ ⟨rfl, one⟩ ⟨rfl, two⟩
    rw [h.nextSeq] at two
    exact ⟨rfl, h.refl.onRecord h.held one two⟩
  · cases marking : category.marksDepth with
    | true =>
      refine (enter_marking h.sane marking).twin (enter_marking h.sane' marking) ?_
      rintro _ _ _ _ ⟨rfl, one⟩ ⟨rfl, two⟩
      rw [h.recordOf, h.nextSeq] at two
      exact ⟨rfl, h.refl.onRecord h.held one two⟩
    | false =>
      refine (enter_other boundary marking).twin (enter_other boundary marking) ?_
      rintro _ _ _ _ ⟨rfl, rfl⟩ ⟨rfl, rfl⟩
      exact ⟨rfl, h.refl⟩

theorem unwind (h : Level host site frame s t) (exception : String) (category : Category) :
    Twin (Abreast host s t) s t (applyUnwind host site frame exception category)
      (applyUnwind (host.inOrder order) site frame exception category) := by
  by_cases isReturn : category = .useStackDefReturn
  · subst isReturn
    refine (unwind_return h.sane exception).twin (unwind_return h.sane' exception) ?_
    intro r s' r' t' done done'
    rw [h.recordOf, h.nextSeq] at done'
    cases stack : (s.recordOf frame).stack with
    | nil =>
      rw [stack] at done done'
      obtain ⟨rfl, one⟩ := done
      obtain ⟨rfl, two⟩ := done'
      exact ⟨rfl, h.refl.onRecord h.held one two⟩
    | cons top below =>
      rw [stack] at done done'
      obtain ⟨rfl, one⟩ := done
      obtain ⟨rfl, two⟩ := done'
      exact ⟨rfl, h.refl.onRecord h.held one two⟩
  · cases marking : category.marksDepth with
    | true =>
      refine (unwind_marking h.sane marking exception).twin
        (unwind_marking h.sane' marking exception) ?_
      rintro _ _ _ _ ⟨rfl, done⟩ ⟨rfl, done'⟩
      rw [h.record?, h.nextSeq] at done'
      cases found : s.record? frame with
      | none =>
        rw [found] at done done'
        exact ⟨rfl, h.refl.onLog done done'⟩
      | some record =>
        rw [found] at done done'
        exact ⟨rfl, h.refl.onRecord h.held (done.mono fun _ => False.elim)
          (done'.mono fun _ => False.elim)⟩
    | false =>
      refine (unwind_other isReturn marking exception).twin
        (unwind_other isReturn marking exception) ?_
      rintro _ _ _ _ ⟨rfl, same⟩ ⟨rfl, same'⟩
      exact ⟨rfl, h.refl.onLog same same'⟩

/-- The rule of a category comes to the same outcome in states that are level for its checkpoint, and
    leaves them abreast. -/
theorem rule (tracer : Tracer) {c : Checkpoint K} (h : Level host c.site c.frame s t)
    (category : Category) :
    Twin (Abreast host s t) s t (tracer.rule host c category)
      (tracer.rule (host.inOrder order) c category) := by
  unfold Tracer.rule
  split
  · exact h.enter category
  · exact h.leave category
  · exact h.unwind _ category

end Level

end Lineage
