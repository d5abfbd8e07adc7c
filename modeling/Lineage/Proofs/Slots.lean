import Lineage.Proofs.Rules

/-!
# Slots and how they change

A slot is a place from which a node is read again: a local of a frame, a property of an object, a class
variable of a scope, a global. `Moves` says of a change of the shadow state which slots it can have
touched, that other entities have at most lost their entries, and where the values of the nodes in the
store come from; such statements compose, so that the effect of a rule is put together from those of
its elementary changes.
-/

namespace Lineage

inductive Slot (K : Kinds) where
  | frameLocal (frame : K.Frame) (name : String)
  | property (object : K.Object) (name : String)
  | classVariable (scope : K.Scope) (name : String)
  | global (name : String)
  deriving DecidableEq

/-- A node that is kept keeps `object` if its value refers to it. -/
def Host.HeldByNodes {K : Kinds} (host : Host K) (object : K.Object) : Prop :=
  ∀ kept, ∀ node ∈ kept, Tracer.objectBehind host node = some object →
    (host.survivors kept).object object = true

/-- What one change is about: the entities whose entries it may use, and the value that comes with
    it. -/
structure Reach (K : Kinds) where
  frame : Option K.Frame := none
  object : Option K.Object := none
  scope : Option K.Scope := none
  value : Option K.Value := none

namespace Reach

variable {K : Kinds}

def Near (reach : Reach K) : Slot K → Prop
  | .frameLocal frame _ => reach.frame = some frame
  | .property object _ => reach.object = some object
  | .classVariable scope _ => reach.scope = some scope
  | .global _ => True

/-- The value of the node has come with the change, or was in the store before. -/
def Known (reach : Reach K) (s : Shadow K) (node : Node K.Value) : Prop :=
  node.value = none ∨ node.value = reach.value ∨ ∃ old ∈ s.store.nodes, old.value = node.value

theorem known_of_mem {reach : Reach K} {s : Shadow K} {node : Node K.Value}
    (mem : node ∈ s.store.nodes) : reach.Known s node := .inr (.inr ⟨node, mem, rfl⟩)

theorem known_of_record {reach : Reach K} {s : Shadow K} {frame : K.Frame} {node : Node K.Value}
    (mem : node ∈ (s.recordOf frame).nodes) : reach.Known s node :=
  known_of_mem (Shadow.mem_nodes_of_record _ mem)

end Reach

namespace Shadow

variable {K : Kinds}

/-- The node that a read of the slot finds. -/
def current (s : Shadow K) : Slot K → Option (Node K.Value)
  | .frameLocal frame name => ((s.recordOf frame).histories.getD name []).head?
  | .property object name => (s.objectSlots object).get? name
  | .classVariable scope name => (s.scopeSlots scope).get? name
  | .global name => s.store.globals.get? name

theorem current_congr {s t : Shadow K} (h : t.store = s.store) (x : Slot K) :
    t.current x = s.current x := by
  cases x with
  | frameLocal frame name => rw [current, current, recordOf_congr (s := s) (by rw [h])]
  | property object name => rw [current, current, objectSlots_congr (s := s) (by rw [h])]
  | classVariable scope name => rw [current, current, scopeSlots_congr (s := s) (by rw [h])]
  | global name => rw [current, current, h]

/-- A change within `reach`, at which no slot but the `touched` ones has got another node. -/
structure Moves (host : Host K) (reach : Reach K) (touched : Slot K → Prop) (s t : Shadow K) :
    Prop where
  sane : t.Unpoisoned
  frames : ∀ f, reach.frame ≠ some f →
    (t.record? f).map (·.histories) = (s.record? f).map (·.histories) ∨
      t.record? f = none ∧ host.MayDrop f
  objects : ∀ o, reach.object ≠ some o →
    t.store.objects.content? o = s.store.objects.content? o ∨
      t.store.objects.content? o = none ∧ host.MayDropObject o
  scopes : ∀ c, reach.scope ≠ some c →
    t.store.scopes.content? c = s.store.scopes.content? c ∨
      t.store.scopes.content? c = none ∧ host.MayDropScope c
  near : ∀ x, reach.Near x → ¬ touched x → t.current x = s.current x
  nodes : ∀ node ∈ t.store.nodes, reach.Known s node
  lost : ∀ o, host.HeldByNodes o → s.store.objects.content? o ≠ none →
    t.store.objects.content? o = none → ∀ node ∈ t.store.nodes,
      node.value = reach.value ∨ Tracer.objectBehind host node ≠ some o

namespace Moves

variable {host : Host K} {reach : Reach K} {touched : Slot K → Prop} {s t u : Shadow K}

theorem objectBehind_congr {a b : Node K.Value} (h : a.value = b.value) :
    Tracer.objectBehind host a = Tracer.objectBehind host b := by
  unfold Tracer.objectBehind
  rw [h]

theorem trans (first : Moves host reach touched s t) (second : Moves host reach touched t u) :
    Moves host reach touched s u := by
  constructor
  · exact second.sane
  · intro f far
    rcases second.frames f far with same | dropped
    · rcases first.frames f far with same' | ⟨none', dropped⟩
      · exact .inl (same.trans same')
      · rw [none'] at same
        exact .inr ⟨Option.map_eq_none_iff.mp same, dropped⟩
    · exact .inr dropped
  · intro o far
    rcases second.objects o far with same | dropped
    · exact (first.objects o far).imp same.trans (.imp_left same.trans)
    · exact .inr dropped
  · intro c far
    rcases second.scopes c far with same | dropped
    · exact (first.scopes c far).imp same.trans (.imp_left same.trans)
    · exact .inr dropped
  · exact fun x near untouched => (second.near x near untouched).trans (first.near x near untouched)
  · intro node mem
    rcases second.nodes node mem with none' | new | ⟨old, there, value⟩
    · exact .inl none'
    · exact .inr (.inl new)
    · rw [Reach.Known, ← value]
      exact first.nodes old there
  · intro o held before after node mem
    cases between : t.store.objects.content? o with
    | some slots =>
      exact second.lost o held (by rw [between]; exact Option.some_ne_none _) after node mem
    | none =>
      rcases second.nodes node mem with none' | new | ⟨old, there, value⟩
      · refine .inr ?_
        rw [Tracer.objectBehind, none']
        exact nofun
      · exact .inl new
      · rw [← value, objectBehind_congr value.symm]
        exact first.lost o held before between old there

theorem of_store (sane : s.Unpoisoned) (same : t.store = s.store) :
    Moves host reach touched s t := by
  constructor
  · constructor <;> rw [same]
    · exact sane.frames
    · exact sane.objects
    · exact sane.scopes
  · exact fun f _ => .inl (by rw [record?_congr (s := s) (by rw [same])])
  · exact fun o _ => .inl (by rw [same])
  · exact fun c _ => .inl (by rw [same])
  · exact fun x _ _ => current_congr same x
  · intro node mem
    rw [same] at mem
    exact Reach.known_of_mem mem
  · intro o _ before after
    rw [same] at after
    exact absurd after before

theorem of_onRecord {frame : K.Frame} {record : Record K.Value} {n : Nat}
    (on : OnRecord host.MayDrop frame s t record n) (sane : s.Unpoisoned)
    (own : reach.frame = some frame)
    (histories : ∀ name, ¬ touched (.frameLocal frame name) →
      (record.histories.getD name []).head? = s.current (.frameLocal frame name))
    (nodes : ∀ node ∈ record.nodes, reach.Known s node) : Moves host reach touched s t := by
  constructor
  · exact on.unpoisoned sane
  · intro f far
    have ne : f ≠ frame := by
      rintro rfl
      exact far own
    rcases on.frames.others f ne with same | ⟨none', dropped⟩
    · exact .inl (by rw [record?, Table.content?, same]; rfl)
    · exact .inr ⟨by rw [record?, Table.content?, none']; rfl, dropped⟩
  · exact fun o _ => .inl (by rw [on.objects])
  · exact fun c _ => .inl (by rw [on.scopes])
  · intro x near untouched
    cases x with
    | frameLocal f name =>
      obtain rfl : frame = f := Option.some.inj (own.symm.trans near)
      rw [current, on.recordOf]
      exact histories name untouched
    | property object name => rw [current, current, objectSlots_congr on.objects]
    | classVariable scope name => rw [current, current, scopeSlots_congr on.scopes]
    | global name => rw [current, current, on.globals]
  · exact fun node mem => (on.nodes mem).elim (nodes node) Reach.known_of_mem
  · intro o _ before after
    rw [on.objects] at after
    exact absurd after before

/-- A record that was there has been given a node. -/
theorem of_push {caller : K.Frame} {node : Node K.Value} {n : Nat}
    (on : OnRecord (fun _ => False) caller s t ((s.recordOf caller).push node) n)
    (sane : s.Unpoisoned) (there : s.record? caller ≠ none) (known : reach.Known s node) :
    Moves host reach touched s t := by
  constructor
  · exact on.unpoisoned sane
  · intro f _
    by_cases own : f = caller
    · subst own
      refine .inl ?_
      rw [on.record?]
      cases found : s.record? f with
      | none => exact absurd found there
      | some record => rw [recordOf_eq found]; rfl
    · exact .inl (by rw [record?, (on.frames.others f own).content?_eq id]; rfl)
  · exact fun o _ => .inl (by rw [on.objects])
  · exact fun c _ => .inl (by rw [on.scopes])
  · intro x _ _
    cases x with
    | frameLocal f name =>
      by_cases own : f = caller
      · rw [current, own, on.recordOf]
        rfl
      · rw [current, current, recordOf, record?, (on.frames.others f own).content?_eq id]
        rfl
    | property object name => rw [current, current, objectSlots_congr on.objects]
    | classVariable scope name => rw [current, current, scopeSlots_congr on.scopes]
    | global name => rw [current, current, on.globals]
  · intro other mem
    rcases on.nodes mem with inside | before
    · rcases Record.nodes_push inside with rfl | inside
      · exact known
      · exact Reach.known_of_record inside
    · exact Reach.known_of_mem before
  · intro o _ before after
    rw [on.objects] at after
    exact absurd after before

theorem of_onObject {inHand : List (Node K.Value)} {object : K.Object} {slots : Slots K.Value}
    {n : Nat} (on : OnObject (host.Lost inHand s t object) object s t slots n) (sane : s.Unpoisoned)
    (own : reach.object = some object)
    (others : ∀ name, ¬ touched (.property object name) →
      slots.get? name = s.current (.property object name))
    (nodes : ∀ node ∈ slots.values,
      node ∈ inHand ∨ node ∈ (s.objectSlots object).values ∨ node.value = none)
    (known : ∀ node ∈ slots.values, reach.Known s node) : Moves host reach touched s t := by
  constructor
  · exact on.unpoisoned sane
  · exact fun f _ => .inl (by rw [record?_congr on.frames])
  · intro o far
    have ne : o ≠ object := by
      rintro rfl
      exact far own
    rcases on.objects.others o ne with same | ⟨none', dropped⟩
    · exact .inl (by rw [Table.content?, same]; rfl)
    · exact .inr ⟨by rw [Table.content?, none']; rfl, dropped.mayDrop⟩
  · exact fun c _ => .inl (by rw [on.scopes])
  · intro x near untouched
    cases x with
    | frameLocal f name => rw [current, current, recordOf_congr on.frames]
    | property o name =>
      obtain rfl : object = o := Option.some.inj (own.symm.trans near)
      rw [current, objectSlots, on.objects.here]
      exact others name untouched
    | classVariable scope name => rw [current, current, scopeSlots_congr on.scopes]
    | global name => rw [current, current, on.globals]
  · exact fun node mem => (on.nodes mem).elim (known node) Reach.known_of_mem
  · intro o held before after node mem
    refine .inr fun behind => ?_
    have ne : o ≠ object := by
      rintro rfl
      rw [on.objects.here] at after
      exact Option.some_ne_none _ after
    obtain ⟨new, kept, -, stays, dead⟩ : host.Lost inHand s t object o := by
      rcases on.objects.others o ne with same | ⟨-, dropped⟩
      · rw [Table.content?, same] at after
        exact absurd after before
      · exact dropped
    -- the object whose entry is new had no slots before
    have atHand : node ∈ inHand ++ kept := by
      rcases stays node mem with here | old
      · rw [on.objectSlots] at here
        rcases nodes node here with inHand | before | none'
        · exact List.mem_append_left _ inHand
        · rw [objectSlots_of_none new] at before
          cases before
        · rw [Tracer.objectBehind, none'] at behind
          cases behind
      · exact List.mem_append_right _ old
    have alive := held _ node atHand behind
    exact Bool.false_ne_true (dead.symm.trans alive)

theorem of_onScope {scope : K.Scope} {slots : Slots K.Value} {n : Nat}
    (on : OnScope host.MayDropScope scope s t slots n) (sane : s.Unpoisoned)
    (own : reach.scope = some scope)
    (others : ∀ name, ¬ touched (.classVariable scope name) →
      slots.get? name = s.current (.classVariable scope name))
    (nodes : ∀ node ∈ slots.values, reach.Known s node) : Moves host reach touched s t := by
  constructor
  · exact on.unpoisoned sane
  · exact fun f _ => .inl (by rw [record?_congr on.frames])
  · exact fun o _ => .inl (by rw [on.objects])
  · intro c far
    have ne : c ≠ scope := by
      rintro rfl
      exact far own
    rcases on.scopes.others c ne with same | ⟨none', dropped⟩
    · exact .inl (by rw [Table.content?, same]; rfl)
    · exact .inr ⟨by rw [Table.content?, none']; rfl, dropped⟩
  · intro x near untouched
    cases x with
    | frameLocal f name => rw [current, current, recordOf_congr on.frames]
    | property o name => rw [current, current, objectSlots_congr on.objects]
    | classVariable c name =>
      obtain rfl : scope = c := Option.some.inj (own.symm.trans near)
      rw [current, scopeSlots, on.scopes.here]
      exact others name untouched
    | global name => rw [current, current, on.globals]
  · exact fun node mem => (on.nodes mem).elim (nodes node) Reach.known_of_mem
  · intro o _ before after
    rw [on.objects] at after
    exact absurd after before

theorem of_onGlobals {globals : Slots K.Value} {n : Nat} (on : OnGlobals s t globals n)
    (sane : s.Unpoisoned)
    (others : ∀ name, ¬ touched (.global name) → globals.get? name = s.current (.global name))
    (nodes : ∀ node ∈ globals.values, reach.Known s node) : Moves host reach touched s t := by
  constructor
  · exact on.unpoisoned sane
  · exact fun f _ => .inl (by rw [record?_congr on.frames])
  · exact fun o _ => .inl (by rw [on.objects])
  · exact fun c _ => .inl (by rw [on.scopes])
  · intro x _ untouched
    cases x with
    | frameLocal f name => rw [current, current, recordOf_congr on.frames]
    | property o name => rw [current, current, objectSlots_congr on.objects]
    | classVariable c name => rw [current, current, scopeSlots_congr on.scopes]
    | global name =>
      rw [current, on.globals]
      exact others name untouched
  · exact fun node mem => (on.nodes mem).elim (nodes node) Reach.known_of_mem
  · intro o _ before after
    rw [on.objects] at after
    exact absurd after before

/-- A value that has been moved about only was in the store before. -/
theorem of_value {node : Node K.Value}
    (h : Moves host { reach with value := node.value } touched s t) (old : node ∈ s.store.nodes)
    (objects : t.store.objects = s.store.objects) : Moves host reach touched s t := by
  refine { h with nodes := fun other mem => ?_, lost := fun o _ before after => ?_ }
  · rcases h.nodes other mem with none' | same | before
    · exact .inl none'
    · exact .inr (.inr ⟨node, old, same.symm⟩)
    · exact .inr (.inr before)
  · rw [objects] at after
    exact absurd after before

end Moves

end Shadow

end Lineage
