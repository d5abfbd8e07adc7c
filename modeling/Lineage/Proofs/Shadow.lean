import Lineage.Proofs.Record
import Lineage.Proofs.Table

/-!
# Elementary changes of the shadow state

What each elementary change does to what can be looked up in the shadow state: the records of frames,
the slots of objects and scopes, the globals. All of it holds as long as no listener has broken off
while it held a lock (`Shadow.Unpoisoned`), which no change of the tracer does.
-/

namespace Lineage

/-- The host does not keep `frame` alive on its own. -/
def Host.MayDrop {K : Kinds} (host : Host K) (frame : K.Frame) : Prop :=
  ∃ nodes, (host.survivors nodes).frame frame = false

/-- The host does not keep `object` alive on its own. -/
def Host.MayDropObject {K : Kinds} (host : Host K) (object : K.Object) : Prop :=
  ∃ nodes, (host.survivors nodes).object object = false

/-- The host does not keep `scope` alive on its own. -/
def Host.MayDropScope {K : Kinds} (host : Host K) (scope : K.Scope) : Prop :=
  ∃ nodes, (host.survivors nodes).scope scope = false

namespace Shadow

variable {K : Kinds}

def record? (s : Shadow K) (frame : K.Frame) : Option (Record K.Value) :=
  s.store.frames.content? frame

/-- The record that work on `frame` starts from. -/
def recordOf (s : Shadow K) (frame : K.Frame) : Record K.Value := (s.record? frame).getD {}

/-- The slots of `object`, none if it has no entry. -/
def objectSlots (s : Shadow K) (object : K.Object) : Slots K.Value :=
  (s.store.objects.content? object).getD {}

/-- The slots of `scope`, none if it has no entry. -/
def scopeSlots (s : Shadow K) (scope : K.Scope) : Slots K.Value :=
  (s.store.scopes.content? scope).getD {}

theorem record?_congr {s t : Shadow K} (h : t.store.frames = s.store.frames) (frame : K.Frame) :
    t.record? frame = s.record? frame := congrArg (·.content? frame) h

theorem recordOf_congr {s t : Shadow K} (h : t.store.frames = s.store.frames) (frame : K.Frame) :
    t.recordOf frame = s.recordOf frame := congrArg (·.getD {}) (record?_congr h frame)

theorem objectSlots_congr {s t : Shadow K} (h : t.store.objects = s.store.objects)
    (object : K.Object) : t.objectSlots object = s.objectSlots object :=
  congrArg (fun table => (table.content? object).getD {}) h

theorem scopeSlots_congr {s t : Shadow K} (h : t.store.scopes = s.store.scopes)
    (scope : K.Scope) : t.scopeSlots scope = s.scopeSlots scope :=
  congrArg (fun table => (table.content? scope).getD {}) h

theorem objectSlots_of_none {s : Shadow K} {object : K.Object}
    (new : s.store.objects.content? object = none) : s.objectSlots object = {} :=
  congrArg (·.getD {}) new

theorem scopeSlots_of_none {s : Shadow K} {scope : K.Scope}
    (new : s.store.scopes.content? scope = none) : s.scopeSlots scope = {} :=
  congrArg (·.getD {}) new

theorem recordOf_eq {s : Shadow K} {frame : K.Frame} {r : Record K.Value}
    (h : s.record? frame = some r) : s.recordOf frame = r := congrArg (·.getD {}) h

end Shadow

/-- At some moment between `s` and `t`, while the nodes `inHand` are in use, the frame `other` has no
    owner. By then the store may have given up nodes, but none that it still has in `t`; what is in the
    record of `frame` then need not have been there. -/
def Host.LostFrame {K : Kinds} (host : Host K) (inHand : List (Node K.Value)) (s t : Shadow K)
    (frame other : K.Frame) : Prop :=
  ∃ kept, kept ⊆ s.store.nodes ∧
    (∀ node ∈ t.store.nodes, node ∈ (t.recordOf frame).nodes ∨ node ∈ kept) ∧
    (host.survivors (inHand ++ kept)).frame other = false

/-- At some moment between `s` and `t`, at which `object` gets an entry, the object `other` has no
    owner. -/
def Host.Lost {K : Kinds} (host : Host K) (inHand : List (Node K.Value)) (s t : Shadow K)
    (object other : K.Object) : Prop :=
  s.store.objects.content? object = none ∧ ∃ kept, kept ⊆ s.store.nodes ∧
    (∀ node ∈ t.store.nodes, node ∈ (t.objectSlots object).values ∨ node ∈ kept) ∧
    (host.survivors (inHand ++ kept)).object other = false

/-- At some moment between `s` and `t`, at which `scope` gets an entry, the scope `other` has no
    owner. -/
def Host.LostScope {K : Kinds} (host : Host K) (inHand : List (Node K.Value)) (s t : Shadow K)
    (scope other : K.Scope) : Prop :=
  s.store.scopes.content? scope = none ∧ ∃ kept, kept ⊆ s.store.nodes ∧
    (∀ node ∈ t.store.nodes, node ∈ (t.scopeSlots scope).values ∨ node ∈ kept) ∧
    (host.survivors (inHand ++ kept)).scope other = false

section

variable {K : Kinds} {host : Host K} {inHand : List (Node K.Value)} {s t : Shadow K}

theorem Host.LostFrame.mayDrop {frame other : K.Frame} (lost : host.LostFrame inHand s t frame other) :
    host.MayDrop other := by
  obtain ⟨kept, -, -, dead⟩ := lost
  exact ⟨_, dead⟩

theorem Host.Lost.mayDrop {object other : K.Object} (lost : host.Lost inHand s t object other) :
    host.MayDropObject other := by
  obtain ⟨-, kept, -, -, dead⟩ := lost
  exact ⟨_, dead⟩

theorem Host.LostScope.mayDrop {scope other : K.Scope}
    (lost : host.LostScope inHand s t scope other) : host.MayDropScope other := by
  obtain ⟨-, kept, -, -, dead⟩ := lost
  exact ⟨_, dead⟩

end

namespace Shadow

variable {K : Kinds}

structure Unpoisoned (s : Shadow K) : Prop where
  frames : s.store.frames.Unpoisoned
  objects : s.store.objects.Unpoisoned
  scopes : s.store.scopes.Unpoisoned

/-- States that differ in their log at most. -/
def SameState (s t : Shadow K) : Prop := t.store = s.store ∧ t.nextSeq = s.nextSeq

theorem SameState.refl (s : Shadow K) : SameState s s := ⟨rfl, rfl⟩

theorem SameState.unpoisoned {s t : Shadow K} (h : SameState s t) (sane : s.Unpoisoned) :
    t.Unpoisoned := by
  obtain ⟨store, next⟩ := h
  constructor <;> rw [store]
  · exact sane.frames
  · exact sane.objects
  · exact sane.scopes

/-- A change that has left the record of `frame` as `record` and the next number as `next`. Records of
    other frames may have been dropped, but only those of `dead` frames. -/
structure OnRecord (dead : K.Frame → Prop) (frame : K.Frame) (before after : Shadow K)
    (record : Record K.Value) (next : Nat) : Prop where
  frames : before.store.frames.Rebinds dead after.store.frames frame record
  objects : after.store.objects = before.store.objects
  scopes : after.store.scopes = before.store.scopes
  globals : after.store.globals = before.store.globals
  nextSeq : after.nextSeq = next

namespace OnRecord

variable {dead : K.Frame → Prop} {frame : K.Frame} {s t u : Shadow K} {r q : Record K.Value}
  {n m : Nat}

theorem record? (h : OnRecord dead frame s t r n) : t.record? frame = some r := h.frames.here

theorem recordOf (h : OnRecord dead frame s t r n) : t.recordOf frame = r := recordOf_eq h.record?

theorem unpoisoned (h : OnRecord dead frame s t r n) (sane : s.Unpoisoned) : t.Unpoisoned :=
  ⟨h.frames.unpoisoned, h.objects ▸ sane.objects, h.scopes ▸ sane.scopes⟩

theorem mono {weaker : K.Frame → Prop} (h : OnRecord dead frame s t r n)
    (hw : ∀ f, dead f → weaker f) : OnRecord weaker frame s t r n :=
  ⟨h.frames.mono hw, h.objects, h.scopes, h.globals, h.nextSeq⟩

theorem trans_same (h : OnRecord dead frame s t r n) (same : SameState t u) :
    OnRecord dead frame s u r n := by
  obtain ⟨store, next⟩ := same
  refine ⟨?_, ?_, ?_, ?_, next.trans h.nextSeq⟩ <;> rw [store]
  · exact h.frames
  · exact h.objects
  · exact h.scopes
  · exact h.globals

theorem same_trans (same : SameState s t) (h : OnRecord dead frame t u r n) :
    OnRecord dead frame s u r n := by
  obtain ⟨store, next⟩ := same
  refine ⟨?_, ?_, ?_, ?_, h.nextSeq⟩ <;> rw [← store]
  · exact h.frames
  · exact h.objects
  · exact h.scopes
  · exact h.globals

end OnRecord

/-- A change that has left the slots of `object` as `slots` and the next number as `next`. Slots of
    other objects may have been dropped, but only those of `dead` objects. -/
structure OnObject (dead : K.Object → Prop) (object : K.Object) (before after : Shadow K)
    (slots : Slots K.Value) (next : Nat) : Prop where
  frames : after.store.frames = before.store.frames
  objects : before.store.objects.Rebinds dead after.store.objects object slots
  scopes : after.store.scopes = before.store.scopes
  globals : after.store.globals = before.store.globals
  nextSeq : after.nextSeq = next

/-- A change that has left the slots of `scope` as `slots` and the next number as `next`. Slots of
    other scopes may have been dropped, but only those of `dead` scopes. -/
structure OnScope (dead : K.Scope → Prop) (scope : K.Scope) (before after : Shadow K)
    (slots : Slots K.Value) (next : Nat) : Prop where
  frames : after.store.frames = before.store.frames
  objects : after.store.objects = before.store.objects
  scopes : before.store.scopes.Rebinds dead after.store.scopes scope slots
  globals : after.store.globals = before.store.globals
  nextSeq : after.nextSeq = next

/-- A change that has left the globals as `globals` and the next number as `next`. -/
structure OnGlobals (before after : Shadow K) (globals : Slots K.Value) (next : Nat) : Prop where
  frames : after.store.frames = before.store.frames
  objects : after.store.objects = before.store.objects
  scopes : after.store.scopes = before.store.scopes
  globals : after.store.globals = globals
  nextSeq : after.nextSeq = next

theorem OnObject.unpoisoned {dead : K.Object → Prop} {object : K.Object} {s t : Shadow K}
    {slots : Slots K.Value} {n : Nat} (h : OnObject dead object s t slots n) (sane : s.Unpoisoned) :
    t.Unpoisoned :=
  ⟨h.frames ▸ sane.frames, h.objects.unpoisoned, h.scopes ▸ sane.scopes⟩

theorem OnScope.unpoisoned {dead : K.Scope → Prop} {scope : K.Scope} {s t : Shadow K}
    {slots : Slots K.Value} {n : Nat} (h : OnScope dead scope s t slots n) (sane : s.Unpoisoned) :
    t.Unpoisoned :=
  ⟨h.frames ▸ sane.frames, h.objects ▸ sane.objects, h.scopes.unpoisoned⟩

theorem OnObject.objectSlots {dead : K.Object → Prop} {object : K.Object} {s t : Shadow K}
    {slots : Slots K.Value} {n : Nat} (h : OnObject dead object s t slots n) :
    t.objectSlots object = slots := congrArg (·.getD {}) h.objects.here

theorem OnScope.scopeSlots {dead : K.Scope → Prop} {scope : K.Scope} {s t : Shadow K}
    {slots : Slots K.Value} {n : Nat} (h : OnScope dead scope s t slots n) :
    t.scopeSlots scope = slots := congrArg (·.getD {}) h.scopes.here

theorem OnObject.mono {dead weaker : K.Object → Prop} {object : K.Object} {s t : Shadow K}
    {slots : Slots K.Value} {n : Nat} (h : OnObject dead object s t slots n)
    (hw : ∀ o, dead o → weaker o) : OnObject weaker object s t slots n :=
  ⟨h.frames, h.objects.mono hw, h.scopes, h.globals, h.nextSeq⟩

theorem OnScope.mono {dead weaker : K.Scope → Prop} {scope : K.Scope} {s t : Shadow K}
    {slots : Slots K.Value} {n : Nat} (h : OnScope dead scope s t slots n)
    (hw : ∀ c, dead c → weaker c) : OnScope weaker scope s t slots n :=
  ⟨h.frames, h.objects, h.scopes.mono hw, h.globals, h.nextSeq⟩

theorem OnGlobals.unpoisoned {s t : Shadow K} {globals : Slots K.Value} {n : Nat}
    (h : OnGlobals s t globals n) (sane : s.Unpoisoned) : t.Unpoisoned :=
  ⟨h.frames ▸ sane.frames, h.objects ▸ sane.objects, h.scopes ▸ sane.scopes⟩

/-! ### Nodes -/

theorem mem_nodes {s : Shadow K} {node : Node K.Value} :
    node ∈ s.store.nodes ↔ (∃ r ∈ s.store.frames.contents, node ∈ r.nodes) ∨
      (∃ slots ∈ s.store.objects.contents, node ∈ slots.values) ∨
      (∃ slots ∈ s.store.scopes.contents, node ∈ slots.values) ∨ node ∈ s.store.globals.values := by
  simp only [Store.nodes, List.mem_append, List.mem_flatMap, or_assoc]

/-- What a store owns was owned before or is new if this holds of every record, all slots and the
    globals. -/
theorem nodes_new_or_old {store old : Store K} {new : List (Node K.Value)} {node : Node K.Value}
    (frames : ∀ r ∈ store.frames.contents, r.nodes ⊆ new ∨ r ∈ old.frames.contents)
    (objects : ∀ slots ∈ store.objects.contents,
      slots.values ⊆ new ∨ slots ∈ old.objects.contents)
    (scopes : ∀ slots ∈ store.scopes.contents, slots.values ⊆ new ∨ slots ∈ old.scopes.contents)
    (globals : store.globals.values ⊆ new ∨ store.globals = old.globals)
    (mem : node ∈ store.nodes) : node ∈ new ∨ node ∈ old.nodes := by
  simp only [Store.nodes, List.mem_append, List.mem_flatMap] at mem ⊢
  rcases mem with ((⟨r, there, inside⟩ | ⟨slots, there, inside⟩) | ⟨slots, there, inside⟩) | inside
  · exact (frames r there).imp (· inside) fun before => .inl (.inl (.inl ⟨r, before, inside⟩))
  · exact (objects slots there).imp (· inside) fun before =>
      .inl (.inl (.inr ⟨slots, before, inside⟩))
  · exact (scopes slots there).imp (· inside) fun before => .inl (.inr ⟨slots, before, inside⟩)
  · exact globals.imp (· inside) fun same : store.globals = old.globals => .inr (same ▸ inside)

/-- The store owns no more nodes when its tables have fewer contents. -/
theorem nodes_subset {store more : Store K} (frames : store.frames.contents ⊆ more.frames.contents)
    (objects : store.objects.contents ⊆ more.objects.contents)
    (scopes : store.scopes.contents ⊆ more.scopes.contents)
    (globals : store.globals = more.globals) : store.nodes ⊆ more.nodes := by
  intro node mem
  have either : node ∈ [] ∨ node ∈ more.nodes :=
    nodes_new_or_old (fun _ there => .inr (frames there)) (fun _ there => .inr (objects there))
      (fun _ there => .inr (scopes there)) (.inr globals) mem
  exact either.resolve_left List.not_mem_nil

theorem SameState.record?_eq {s t : Shadow K} (h : SameState s t) (frame : K.Frame) :
    t.record? frame = s.record? frame := record?_congr (by rw [h.1]) frame

theorem SameState.nodes {s t : Shadow K} (h : SameState s t) : t.store.nodes = s.store.nodes := by
  rw [h.1]

theorem mem_contents_of_content? {κ E : Type} [DecidableEq κ] {t : Table κ E} {key : κ} {c : E}
    (h : t.content? key = some c) : c ∈ t.contents := by
  obtain ⟨entry, found, rfl⟩ := Option.map_eq_some_iff.mp h
  exact Table.mem_contents.mpr ⟨entry, Dict.mem_values_of_get? found, rfl⟩

theorem mem_nodes_of_record {s : Shadow K} (frame : K.Frame) {node : Node K.Value}
    (h : node ∈ (s.recordOf frame).nodes) : node ∈ s.store.nodes := by
  unfold recordOf at h
  cases found : s.record? frame with
  | none =>
    rw [found] at h
    exact absurd h (Record.nodes_empty node)
  | some r =>
    rw [found] at h
    exact mem_nodes.mpr (.inl ⟨r, mem_contents_of_content? found, h⟩)

theorem mem_nodes_of_object {s : Shadow K} {object : K.Object} {node : Node K.Value}
    (h : node ∈ (s.objectSlots object).values) : node ∈ s.store.nodes := by
  unfold objectSlots at h
  cases found : s.store.objects.content? object with
  | none =>
    rw [found] at h
    cases h
  | some slots =>
    rw [found] at h
    exact mem_nodes.mpr (.inr (.inl ⟨slots, mem_contents_of_content? found, h⟩))

theorem mem_nodes_of_scope {s : Shadow K} {scope : K.Scope} {node : Node K.Value}
    (h : node ∈ (s.scopeSlots scope).values) : node ∈ s.store.nodes := by
  unfold scopeSlots at h
  cases found : s.store.scopes.content? scope with
  | none =>
    rw [found] at h
    cases h
  | some slots =>
    rw [found] at h
    exact mem_nodes.mpr (.inr (.inr (.inl ⟨slots, mem_contents_of_content? found, h⟩)))

section

variable {s t : Shadow K} {n : Nat} {node : Node K.Value}

/-- What the store owns is in the record of the frame if it is in none of the others. -/
theorem OnRecord.nodes_from {dead : K.Frame → Prop} {frame : K.Frame} {r : Record K.Value}
    (h : OnRecord dead frame s t r n) {others : Table K.Frame (Record K.Value)}
    (contents : ∀ q ∈ t.store.frames.contents, q = r ∨ q ∈ others.contents)
    (mem : node ∈ t.store.nodes) :
    node ∈ r.nodes ∨ node ∈ ({ s.store with frames := others } : Store K).nodes :=
  nodes_new_or_old
    (fun q there => (contents q there).imp_left (by rintro rfl; exact List.Subset.refl _))
    (fun _ there => .inr (h.objects ▸ there)) (fun _ there => .inr (h.scopes ▸ there))
    (.inr h.globals) mem

theorem OnObject.nodes_from {dead : K.Object → Prop} {object : K.Object} {slots : Slots K.Value}
    (h : OnObject dead object s t slots n) {others : Table K.Object (Slots K.Value)}
    (contents : ∀ q ∈ t.store.objects.contents, q = slots ∨ q ∈ others.contents)
    (mem : node ∈ t.store.nodes) :
    node ∈ slots.values ∨ node ∈ ({ s.store with objects := others } : Store K).nodes :=
  nodes_new_or_old (fun _ there => .inr (h.frames ▸ there))
    (fun q there => (contents q there).imp_left (by rintro rfl; exact List.Subset.refl _))
    (fun _ there => .inr (h.scopes ▸ there)) (.inr h.globals) mem

theorem OnScope.nodes_from {dead : K.Scope → Prop} {scope : K.Scope} {slots : Slots K.Value}
    (h : OnScope dead scope s t slots n) {others : Table K.Scope (Slots K.Value)}
    (contents : ∀ q ∈ t.store.scopes.contents, q = slots ∨ q ∈ others.contents)
    (mem : node ∈ t.store.nodes) :
    node ∈ slots.values ∨ node ∈ ({ s.store with scopes := others } : Store K).nodes :=
  nodes_new_or_old (fun _ there => .inr (h.frames ▸ there)) (fun _ there => .inr (h.objects ▸ there))
    (fun q there => (contents q there).imp_left (by rintro rfl; exact List.Subset.refl _))
    (.inr h.globals) mem

/-- The store holds the nodes of the record as it is now, and others that it held before. -/
theorem OnRecord.nodes {dead : K.Frame → Prop} {frame : K.Frame} {r : Record K.Value}
    (h : OnRecord dead frame s t r n) (mem : node ∈ t.store.nodes) :
    node ∈ r.nodes ∨ node ∈ s.store.nodes :=
  h.nodes_from h.frames.contents mem

theorem OnRecord.mem_nodes {dead : K.Frame → Prop} {frame : K.Frame} {r : Record K.Value}
    (h : OnRecord dead frame s t r n) (mem : node ∈ r.nodes) : node ∈ t.store.nodes :=
  mem_nodes_of_record frame (h.recordOf.symm ▸ mem)

theorem OnObject.nodes {dead : K.Object → Prop} {object : K.Object} {slots : Slots K.Value}
    (h : OnObject dead object s t slots n) (mem : node ∈ t.store.nodes) :
    node ∈ slots.values ∨ node ∈ s.store.nodes :=
  h.nodes_from h.objects.contents mem

theorem OnScope.nodes {dead : K.Scope → Prop} {scope : K.Scope} {slots : Slots K.Value}
    (h : OnScope dead scope s t slots n) (mem : node ∈ t.store.nodes) :
    node ∈ slots.values ∨ node ∈ s.store.nodes :=
  h.nodes_from h.scopes.contents mem

theorem OnGlobals.nodes {globals : Slots K.Value} (h : OnGlobals s t globals n)
    (mem : node ∈ t.store.nodes) : node ∈ globals.values ∨ node ∈ s.store.nodes :=
  nodes_new_or_old (fun _ there => .inr (h.frames ▸ there)) (fun _ there => .inr (h.objects ▸ there))
    (fun _ there => .inr (h.scopes ▸ there))
    (.inl (h.globals ▸ List.Subset.refl _)) mem

end

/-! ### Entities that are lost -/

section

variable {host : Host K} {inHand : List (Node K.Value)} {s t : Shadow K} {n : Nat}

/-- A frame that is dead to the table is lost to the host. -/
theorem OnRecord.lost {dead : K.Frame → Prop} {frame other : K.Frame} {r : Record K.Value}
    (h : OnRecord dead frame s t r n)
    (loses : (s.store.sweepingFrames host inHand).LosesBinding s.store.frames t.store.frames r other) :
    host.LostFrame inHand s t frame other := by
  obtain ⟨between, after, before, gone⟩ := loses
  refine ⟨({ s.store with frames := between } : Store K).nodes,
    nodes_subset before (List.Subset.refl _) (List.Subset.refl _) rfl, fun node mem => ?_, gone⟩
  rw [h.recordOf]
  exact h.nodes_from after mem

/-- An object that is dead to the table is lost to the host. -/
theorem OnObject.lost {dead : K.Object → Prop} {object other : K.Object} {slots : Slots K.Value}
    (h : OnObject dead object s t slots n) (new : s.store.objects.content? object = none)
    (loses : (s.store.sweepingObjects host inHand).LosesBinding s.store.objects t.store.objects slots
      other) : host.Lost inHand s t object other := by
  obtain ⟨between, after, before, gone⟩ := loses
  refine ⟨new, ({ s.store with objects := between } : Store K).nodes,
    nodes_subset (List.Subset.refl _) before (List.Subset.refl _) rfl, fun node mem => ?_, gone⟩
  rw [h.objectSlots]
  exact h.nodes_from after mem

/-- A scope that is dead to the table is lost to the host. -/
theorem OnScope.lost {dead : K.Scope → Prop} {scope other : K.Scope} {slots : Slots K.Value}
    (h : OnScope dead scope s t slots n) (new : s.store.scopes.content? scope = none)
    (loses : (s.store.sweepingScopes host inHand).LosesBinding s.store.scopes t.store.scopes slots
      other) : host.LostScope inHand s t scope other := by
  obtain ⟨between, after, before, gone⟩ := loses
  refine ⟨new, ({ s.store with scopes := between } : Store K).nodes,
    nodes_subset (List.Subset.refl _) (List.Subset.refl _) before rfl, fun node mem => ?_, gone⟩
  rw [h.scopeSlots]
  exact h.nodes_from after mem

end

end Shadow

namespace ShadowM

open Shadow

variable {K : Kinds} {α : Type} {host : Host K} {s : Shadow K}

theorem ends_note (s : Shadow K) (severity : Severity) (message : String) (fields : Fields)
    (post : Except Fault Unit → Shadow K → Prop) :
    Ends (note severity message fields) s post ↔
      post (.ok ()) (s.note severity message fields) := Iff.rfl

theorem ends_settle (outcome : Except Fault α) (s : Shadow K)
    (post : Except Fault α → Shadow K → Prop) : Ends (settle outcome) s post ↔ post outcome s := by
  cases outcome <;> exact Iff.rfl

theorem ends_create (creator : Option Creator) (value : Option K.Value)
    (origins : List (Node K.Value)) (s : Shadow K)
    (post : Except Fault (Node K.Value) → Shadow K → Prop) :
    Ends (create creator value origins) s post ↔
      post (.ok ⟨s.nextSeq, creator, value, origins⟩) { s with nextSeq := s.nextSeq + 1 } := Iff.rfl

/-- Logging what was dropped changes nothing else. -/
theorem ends_noteDropped (dropped : Nat) (s : Shadow K) :
    Ends (noteDropped dropped) s fun r t => r = .ok () ∧ SameState s t := by
  unfold noteDropped
  split
  · exact ⟨rfl, rfl, rfl⟩
  · exact ⟨rfl, rfl, rfl⟩

/-- Work on an entry that is not poisoned is saved whatever its outcome. -/
theorem ends_onEntry {E : Type} (what : Guarded) {entry : Entry E} (sane : entry.poisoned = false)
    (save : E → Store K → Store K) {work : ExceptT Fault (StateM (E × Nat)) α}
    {outcome : Except Fault α} {content : E} {next : Nat}
    (run : work.run.run (entry.content, s.nextSeq) = (outcome, content, next)) :
    Ends (onEntry what entry save work) s fun r t =>
      r = outcome ∧ t.store = save content s.store ∧ t.nextSeq = next := by
  unfold onEntry
  simp only [sane, Bool.false_eq_true, if_false, ends_bind, ends_get, run, ends_set, ends_settle]
  exact ⟨trivial, trivial, trivial⟩

theorem ends_openFrame (inHand : List (Node K.Value)) (frame : K.Frame) (s : Shadow K) :
    Ends (openFrame host inHand frame) s fun r t =>
      let found := s.store.frames.findOrInsert (s.store.sweepingFrames host inHand) frame {}
      r = .ok found.2.1 ∧ t.store = { s.store with frames := found.2.2 } ∧
        t.nextSeq = s.nextSeq := by
  unfold openFrame
  simp only [ends_bind, ends_get, ends_set, ends_pure]
  refine (ends_noteDropped _ _).mono ?_
  rintro r t ⟨rfl, same⟩
  exact ⟨trivial, same.1, same.2⟩

theorem ends_openObject (inHand : List (Node K.Value)) (object : K.Object) (s : Shadow K) :
    Ends (openObject host inHand object) s fun r t =>
      let found := s.store.objects.findOrInsert (s.store.sweepingObjects host inHand) object {}
      r = .ok found.2.1 ∧ t.store = { s.store with objects := found.2.2 } ∧
        t.nextSeq = s.nextSeq := by
  unfold openObject
  simp only [ends_bind, ends_get, ends_set, ends_pure]
  refine (ends_noteDropped _ _).mono ?_
  rintro r t ⟨rfl, same⟩
  exact ⟨trivial, same.1, same.2⟩

theorem ends_openScope (inHand : List (Node K.Value)) (scope : K.Scope) (s : Shadow K) :
    Ends (openScope host inHand scope) s fun r t =>
      let found := s.store.scopes.findOrInsert (s.store.sweepingScopes host inHand) scope {}
      r = .ok found.2.1 ∧ t.store = { s.store with scopes := found.2.2 } ∧
        t.nextSeq = s.nextSeq := by
  unfold openScope
  simp only [ends_bind, ends_get, ends_set, ends_pure]
  refine (ends_noteDropped _ _).mono ?_
  rintro r t ⟨rfl, same⟩
  exact ⟨trivial, same.1, same.2⟩

/-- A new record takes the place of the one `frame` had. Only records of frames without an owner are
    dropped. -/
theorem ends_attachFrame_lost (sane : s.Unpoisoned) (frame : K.Frame) :
    Ends (attachFrame host frame) s fun r t =>
      (∃ entry, r = .ok entry) ∧ OnRecord (host.LostFrame [] s t frame) frame s t {} s.nextSeq := by
  unfold attachFrame
  simp only [ends_bind, ends_get, ends_set, ends_pure]
  refine (ends_noteDropped _ _).mono ?_
  rintro r t ⟨rfl, same⟩
  have on : OnRecord ((s.store.sweepingFrames host []).LosesBinding s.store.frames t.store.frames {})
      frame s t {} s.nextSeq := by
    refine ⟨?_, ?_, ?_, ?_, same.2⟩
    · rw [same.1]
      exact Table.rebinds_insert sane.frames _ frame {}
    all_goals rw [same.1]
  exact ⟨⟨_, rfl⟩, on.mono fun _ loses => on.lost loses⟩

/-- Work on the record of a frame, a new one if it had none: the outcome, the record and the next
    number are those of the work on the record alone. Only records of frames without an owner are
    dropped, and none if the frame had a record. -/
theorem ends_withRecord_lost (sane : s.Unpoisoned) (inHand : List (Node K.Value)) {frame : K.Frame}
    {work : RecordM K.Value α} {outcome : Except Fault α} {record : Record K.Value} {next : Nat}
    (run : work.run.run (s.recordOf frame, s.nextSeq) = (outcome, record, next)) :
    Ends (withRecord host inHand frame work) s fun r t =>
      r = outcome ∧ OnRecord (fun f => s.record? frame = none ∧ host.LostFrame inHand s t frame f) frame
        s t record next := by
  unfold withRecord onFrame
  rw [ends_bind]
  refine (ends_openFrame inHand frame s).mono ?_
  rintro r t ⟨rfl, hstore, hnext⟩
  have content := Table.findOrInsert_content s.store.frames
    (s.store.sweepingFrames host inHand) frame {}
  have sameRun : work.run.run ((s.store.frames.findOrInsert
      (s.store.sweepingFrames host inHand) frame {}).2.1.content, t.nextSeq) =
      (outcome, record, next) := by rw [content, hnext]; exact run
  refine (ends_onEntry _ (Table.findOrInsert_poisoned sane.frames _ frame {}) _ sameRun).mono ?_
  rintro r u ⟨rfl, hsaved, hrest⟩
  have on : OnRecord (fun f => s.record? frame = none ∧
      (s.store.sweepingFrames host inHand).LosesBinding s.store.frames u.store.frames record f) frame
      s u record next := by
    refine ⟨?_, ?_, ?_, ?_, hrest⟩
    · rw [hsaved, hstore]
      exact Table.rebinds_edit sane.frames _ frame {} record
    all_goals rw [hsaved, hstore]
  exact ⟨rfl, on.mono fun _ ⟨new, loses⟩ => ⟨new, on.lost loses⟩⟩

/-- As `ends_withRecord_lost`, whatever else the host may have kept. -/
theorem ends_withRecord (sane : s.Unpoisoned) (inHand : List (Node K.Value)) {frame : K.Frame}
    {work : RecordM K.Value α} {outcome : Except Fault α} {record : Record K.Value} {next : Nat}
    (run : work.run.run (s.recordOf frame, s.nextSeq) = (outcome, record, next)) :
    Ends (withRecord host inHand frame work) s fun r t =>
      r = outcome ∧ OnRecord host.MayDrop frame s t record next := by
  refine (ends_withRecord_lost sane inHand run).mono ?_
  rintro r t ⟨rfl, on⟩
  exact ⟨rfl, on.mono fun _ ⟨_, lost⟩ => lost.mayDrop⟩

/-- Work on the record that a frame is known to have; no other record is touched. -/
theorem ends_onFrame (sane : s.Unpoisoned) {frame : K.Frame} {entry : Entry (Record K.Value)}
    (found : s.store.frames.find? frame = some entry) {work : RecordM K.Value α}
    {outcome : Except Fault α} {record : Record K.Value} {next : Nat}
    (run : work.run.run (entry.content, s.nextSeq) = (outcome, record, next)) :
    Ends (onFrame frame entry work) s fun r t =>
      r = outcome ∧ t.store = { s.store with
        frames := s.store.frames.modify frame fun e => { e with content := record } } ∧
        t.nextSeq = next := by
  unfold onFrame
  refine (ends_onEntry _ (sane.frames frame entry found) _ run).mono ?_
  rintro r t ⟨rfl, hsaved, hrest⟩
  exact ⟨rfl, hsaved, hrest⟩

/-- Work that only looks at the record of a frame leaves everything as it is. -/
theorem ends_onFrame_look (sane : s.Unpoisoned) {frame : K.Frame}
    {entry : Entry (Record K.Value)} (found : s.store.frames.find? frame = some entry)
    {work : RecordM K.Value α} (outcome : Except Fault α)
    (run : work.run.run (entry.content, s.nextSeq) = (outcome, entry.content, s.nextSeq)) :
    Ends (onFrame frame entry work) s fun r t => r = outcome ∧ SameState s t := by
  refine (ends_onFrame sane found run).mono ?_
  rintro r t ⟨rfl, hsaved, hrest⟩
  rw [Table.modify_of_fixed found rfl] at hsaved
  exact ⟨rfl, hsaved, hrest⟩

/-- Work on the slots of an object, new ones if it had none. Only slots of objects without an owner are
    dropped. -/
theorem ends_withObject (sane : s.Unpoisoned) (inHand : List (Node K.Value)) {object : K.Object}
    {work : SlotsM K.Value α} {outcome : Except Fault α} {slots : Slots K.Value} {next : Nat}
    (run : work.run.run (s.objectSlots object, s.nextSeq) = (outcome, slots, next)) :
    Ends (withObject host inHand object work) s fun r t =>
      r = outcome ∧ OnObject (host.Lost inHand s t object) object s t slots next := by
  unfold withObject
  rw [ends_bind]
  refine (ends_openObject inHand object s).mono ?_
  rintro r t ⟨rfl, hstore, hnext⟩
  have content := Table.findOrInsert_content s.store.objects
    (s.store.sweepingObjects host inHand) object {}
  have sameRun : work.run.run ((s.store.objects.findOrInsert
      (s.store.sweepingObjects host inHand) object {}).2.1.content, t.nextSeq) =
      (outcome, slots, next) := by rw [content, hnext]; exact run
  refine (ends_onEntry _ (Table.findOrInsert_poisoned sane.objects _ object {}) _ sameRun).mono ?_
  rintro r u ⟨rfl, hsaved, hrest⟩
  have on : OnObject (fun o => s.store.objects.content? object = none ∧
      (s.store.sweepingObjects host inHand).LosesBinding s.store.objects u.store.objects slots o)
      object s u slots next := by
    refine ⟨?_, ?_, ?_, ?_, hrest⟩
    · rw [hsaved, hstore]
    · rw [hsaved, hstore]
      exact Table.rebinds_edit sane.objects _ object {} slots
    all_goals rw [hsaved, hstore]
  exact ⟨rfl, on.mono fun _ ⟨new, loses⟩ => on.lost new loses⟩

/-- Work on the slots of a scope, new ones if it had none. Only slots of scopes without an owner are
    dropped. -/
theorem ends_withScope_lost (sane : s.Unpoisoned) (inHand : List (Node K.Value)) {scope : K.Scope}
    {work : SlotsM K.Value α} {outcome : Except Fault α} {slots : Slots K.Value} {next : Nat}
    (run : work.run.run (s.scopeSlots scope, s.nextSeq) = (outcome, slots, next)) :
    Ends (withScope host inHand scope work) s fun r t =>
      r = outcome ∧ OnScope (host.LostScope inHand s t scope) scope s t slots next := by
  unfold withScope
  rw [ends_bind]
  refine (ends_openScope inHand scope s).mono ?_
  rintro r t ⟨rfl, hstore, hnext⟩
  have content := Table.findOrInsert_content s.store.scopes
    (s.store.sweepingScopes host inHand) scope {}
  have sameRun : work.run.run ((s.store.scopes.findOrInsert
      (s.store.sweepingScopes host inHand) scope {}).2.1.content, t.nextSeq) =
      (outcome, slots, next) := by rw [content, hnext]; exact run
  refine (ends_onEntry _ (Table.findOrInsert_poisoned sane.scopes _ scope {}) _ sameRun).mono ?_
  rintro r u ⟨rfl, hsaved, hrest⟩
  have on : OnScope (fun c => s.store.scopes.content? scope = none ∧
      (s.store.sweepingScopes host inHand).LosesBinding s.store.scopes u.store.scopes slots c)
      scope s u slots next := by
    refine ⟨?_, ?_, ?_, ?_, hrest⟩
    · rw [hsaved, hstore]
    · rw [hsaved, hstore]
    · rw [hsaved, hstore]
      exact Table.rebinds_edit sane.scopes _ scope {} slots
    all_goals rw [hsaved, hstore]
  exact ⟨rfl, on.mono fun _ ⟨new, loses⟩ => on.lost new loses⟩

/-- As `ends_withScope_lost`, whatever else the host may have kept. -/
theorem ends_withScope (sane : s.Unpoisoned) (inHand : List (Node K.Value)) {scope : K.Scope}
    {work : SlotsM K.Value α} {outcome : Except Fault α} {slots : Slots K.Value} {next : Nat}
    (run : work.run.run (s.scopeSlots scope, s.nextSeq) = (outcome, slots, next)) :
    Ends (withScope host inHand scope work) s fun r t =>
      r = outcome ∧ OnScope host.MayDropScope scope s t slots next := by
  refine (ends_withScope_lost sane inHand run).mono ?_
  rintro r t ⟨rfl, on⟩
  exact ⟨rfl, on.mono fun _ lost => lost.mayDrop⟩

theorem ends_currentGlobal (name : String) (s : Shadow K) :
    Ends (currentGlobal name) s fun r t =>
      r = .ok (s.store.globals.current name s.nextSeq).1 ∧
        OnGlobals s t (s.store.globals.current name s.nextSeq).2.2
          (s.store.globals.current name s.nextSeq).2.1 :=
  ⟨rfl, rfl, rfl, rfl, rfl, rfl⟩

theorem ends_writeGlobal (name : String) (node : Node K.Value) (s : Shadow K) :
    Ends (writeGlobal name node) s fun r t =>
      r = .ok () ∧ OnGlobals s t (s.store.globals.set name node) s.nextSeq :=
  ⟨rfl, rfl, rfl, rfl, rfl, rfl⟩

end ShadowM

end Lineage
