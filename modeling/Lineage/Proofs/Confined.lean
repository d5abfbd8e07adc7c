import Lineage.Proofs.Holdings

/-!
# Work that keeps within bounds

The rules of the tracer work for one frame and may change little besides its stack. A `Footprint` says
which slots they may change, and whether the result of the frame; `Shadow.Confined` says of two states,
each with the nodes in hand there, that nothing else has been changed between them but by dropping what
had lost its owner. It composes, and so does `Stays`, which says it of a piece of work.
-/

namespace Lineage

section

variable {ε σ ν α β : Type}

/-- Run from `s` with `inHand` in hand, the work comes to a state that `C` relates to it. In hand is then
    `hand a`, of which `Q` holds, or nothing if the work has failed. -/
def Stays (C : σ → List ν → σ → List ν → Prop) (s : σ) (inHand : List ν)
    (work : ExceptT ε (StateM σ) α) (hand : α → List ν) (Q : α → Prop) : Prop :=
  Ends work s fun r t =>
    match r with
    | .ok a => C s inHand t (hand a) ∧ Q a
    | .error _ => C s inHand t []

variable {C : σ → List ν → σ → List ν → Prop} {s : σ} {inHand : List ν}
  {work : ExceptT ε (StateM σ) α} {hand : α → List ν} {Q : α → Prop}

theorem stays_pure {a : α} (confined : C s inHand s (hand a)) (known : Q a) :
    Stays C s inHand (pure a : ExceptT ε (StateM σ) α) hand Q := ⟨confined, known⟩

theorem stays_throw {e : ε} (confined : C s inHand s []) :
    Stays C s inHand (throw e : ExceptT ε (StateM σ) α) hand Q := confined

theorem Stays.bind (trans : ∀ {s t u : σ} {a b c : List ν}, C s a t b → C t b u c → C s a u c)
    (first : Stays C s inHand work hand Q) {next : α → ExceptT ε (StateM σ) β} {hand' : β → List ν}
    {Q' : β → Prop}
    (rest : ∀ a t, C s inHand t (hand a) → Q a → Stays C t (hand a) (next a) hand' Q') :
    Stays C s inHand (work >>= next) hand' Q' := by
  rw [Stays, ends_bind]
  refine first.mono ?_
  rintro (e | a) t done
  · exact done
  · refine (rest a t done.1 done.2).mono ?_
    rintro (e | b) u done'
    · exact trans done.1 done'
    · exact ⟨trans done.1 done'.1, done'.2⟩

/-- What the work comes to is what it comes to when it is run. -/
theorem Stays.ran (h : Stays C s inHand work hand Q) :
    Stays C s inHand work hand fun a => Q a ∧ (work.run.run s).1 = .ok a := by
  unfold Stays Ends at h ⊢
  generalize work.run.run s = ran at h ⊢
  obtain ⟨e | a, t⟩ := ran
  · exact h
  · exact ⟨h.1, h.2, rfl⟩

end

/-! ### Work on one record -/

namespace Record

variable {V : Type}

/-- The record and the next number, with the nodes in hand. Between the two the histories of `locals`
    have been changed at most, and the result if that is `returned`; on the stack nodes have been put
    that were made from the number `first` on. -/
structure Confined (first : Nat) (locals : String → Prop) (returned : Prop) (p : Record V × Nat)
    (inHand : List (Node V)) (q : Record V × Nat) (inHand' : List (Node V)) : Prop where
  later : first ≤ q.2
  leads : Holdings.Leads ⟨inHand ++ p.1.nodes, p.2⟩ ⟨inHand' ++ q.1.nodes, q.2⟩
  histories : ∀ name, ¬ locals name → q.1.histories.getD name [] = p.1.histories.getD name []
  result : ¬ returned → q.1.result = p.1.result
  stack : ∀ a ∈ q.1.stack, a ∈ p.1.stack ∨ first ≤ a.seq

namespace Confined

variable {first : Nat} {locals : String → Prop} {returned : Prop} {p q u : Record V × Nat}
  {a b c : List (Node V)}

theorem trans (h : Confined first locals returned p a q b)
    (h' : Confined first locals returned q b u c) : Confined first locals returned p a u c where
  later := h'.later
  leads := h.leads.trans h'.leads
  histories name untouched := (h'.histories name untouched).trans (h.histories name untouched)
  result unset := (h'.result unset).trans (h.result unset)
  stack node mem := (h'.stack node mem).elim (h.stack node) .inr

/-- Nodes have been moved from the stack to the hand, or let go. -/
theorem of_stack (later : first ≤ p.2) {stack : List (Node V)} {invocation : Option Nat}
    {marks : List DepthMark} (moved : ∀ node ∈ b ++ stack, node ∈ a ++ p.1.stack)
    (kept : stack ⊆ p.1.stack) :
    Confined first locals returned p a ({ p.1 with stack, invocation, marks }, p.2) b where
  later := later
  leads := by
    refine .of_subset fun node mem => ?_
    rcases List.mem_append.mp mem with inHand | inside
    · rcases List.mem_append.mp (moved node (List.mem_append_left _ inHand)) with before | onStack
      · exact List.mem_append_left _ before
      · exact List.mem_append_right _ (mem_nodes.mpr (.inl onStack))
    · rcases mem_nodes.mp inside with onStack | rest
      · exact List.mem_append_right _ (mem_nodes.mpr (.inl (kept onStack)))
      · exact List.mem_append_right _ (mem_nodes.mpr (.inr rest))
  histories _ _ := rfl
  result _ := rfl
  stack _ mem := .inl (kept mem)

theorem leads_of_put {node : Node V} (held : node ∈ a) (kept : b ⊆ a) {after : Record V}
    (put : ∀ other ∈ after.nodes, other = node ∨ other ∈ p.1.nodes) :
    Holdings.Leads ⟨a ++ p.1.nodes, p.2⟩ ⟨b ++ after.nodes, p.2⟩ := by
  refine .of_subset fun other mem => ?_
  rcases List.mem_append.mp mem with inHand | inside
  · exact List.mem_append_left _ (kept inHand)
  · rcases put other inside with rfl | before
    · exact List.mem_append_left _ held
    · exact List.mem_append_right _ before

/-- A node in hand is put on the stack. -/
theorem push (later : first ≤ p.2) {node : Node V} (held : node ∈ a) (new : first ≤ node.seq)
    (kept : b ⊆ a) : Confined first locals returned p a (p.1.push node, p.2) b where
  later := later
  leads := leads_of_put held kept fun _ => nodes_push
  histories _ _ := rfl
  result _ := rfl
  stack other mem := by
    rcases List.mem_cons.mp mem with rfl | before
    · exact .inr new
    · exact .inl before

/-- A node in hand is written to one of the locals. -/
theorem write (later : first ≤ p.2) {name : String} {node : Node V} (held : node ∈ a)
    (own : locals name) (kept : b ⊆ a) :
    Confined first locals returned p a (p.1.write name node, p.2) b where
  later := later
  leads := leads_of_put held kept fun _ => nodes_write
  histories other untouched := by
    rw [history_write, if_neg]
    rintro rfl
    exact untouched own
  result _ := rfl
  stack _ mem := .inl mem

/-- A node in hand becomes the result. -/
theorem setResult (later : first ≤ p.2) {node : Node V} (held : node ∈ a) (own : returned)
    (kept : b ⊆ a) : Confined first locals returned p a (p.1.setResult node, p.2) b where
  later := later
  leads := leads_of_put held kept fun _ => nodes_setResult
  histories _ _ := rfl
  result unset := absurd own unset
  stack _ mem := .inl mem

end Confined

end Record

namespace RecordM

variable {V α : Type} {first : Nat} {locals : String → Prop} {returned : Prop} {p : Record V × Nat}
  {inHand : List (Node V)}

/-- The work keeps within bounds on its record. -/
abbrev Bounded (first : Nat) (locals : String → Prop) (returned : Prop) (p : Record V × Nat)
    (inHand : List (Node V)) (work : RecordM V α) (hand : α → List (Node V)) (Q : α → Prop) : Prop :=
  Stays (Record.Confined first locals returned) p inHand work hand Q

theorem stays_change {step : Record V → Record V} {hand : List (Node V)}
    (h : Record.Confined first locals returned p inHand (step p.1, p.2) hand) :
    Bounded first locals returned p inHand (change step) (fun _ => hand) fun _ => True := ⟨h, trivial⟩

theorem stays_push (later : first ≤ p.2) {node : Node V} (new : first ≤ node.seq) :
    Bounded first locals returned p [node] (change (·.push node)) (fun _ => []) fun _ => True :=
  stays_change (.push later List.mem_cons_self new (List.nil_subset _))

theorem stays_pop (later : first ≤ p.2) :
    Bounded first locals returned p [] (take Record.pop) (fun node => [node]) fun _ => True := by
  obtain ⟨r, n⟩ := p
  rw [Bounded, Stays, ends_take, Record.pop]
  cases stack : r.stack with
  | nil => exact .of_stack later (by simp) (List.Subset.refl _)
  | cons top below => exact ⟨.of_stack later (by simp [stack]) (by simp [stack]), trivial⟩

theorem stays_create (later : first ≤ p.2) (creator : Option Creator) (value : Option V)
    {origins : List (Node V)} (used : origins ⊆ inHand) :
    Bounded first locals returned p inHand (create creator value origins) (fun node => [node])
      fun node => first ≤ node.seq := by
  refine ⟨⟨Nat.le_succ_of_le later, ⟨Nat.le_succ _, ?_⟩, fun _ _ => rfl, fun _ => rfl,
    fun _ => .inl⟩, later⟩
  intro node mem
  rcases List.mem_cons.mp mem with rfl | before
  · exact .new (Nat.le_refl _) fun o there => .of_mem (List.mem_append_left _ (used there))
  · exact .of_mem (List.mem_append_right _ before)

/-- Reading a local may start its history. -/
theorem stays_current (later : first ≤ p.2) {name : String} (own : locals name) :
    Bounded first locals returned p [] (current name) (fun node => [node]) fun _ => True := by
  obtain ⟨r, n⟩ := p
  change Record.Confined first locals returned (r, n) []
    ((r.current name n).2.2, (r.current name n).2.1) [(r.current name n).1] ∧ True
  refine ⟨?_, trivial⟩
  cases history : r.histories.getD name [] with
  | cons newest older =>
    rw [Record.current_of_cons history]
    refine ⟨later, .of_subset fun node mem => ?_, fun _ _ => rfl, fun _ => rfl, fun _ => .inl⟩
    rcases List.mem_cons.mp mem with rfl | before
    · exact Record.mem_nodes_of_history (history ▸ List.mem_cons_self)
    · exact before
  | nil =>
    rw [Record.current_of_nil history]
    have made : Record.Confined first locals returned (r, n) [] (r, n + 1) [.unknown n] := by
      refine ⟨Nat.le_succ_of_le later, ⟨Nat.le_succ _, fun node mem => ?_⟩, fun _ _ => rfl,
        fun _ => rfl, fun _ => .inl⟩
      rcases List.mem_cons.mp mem with rfl | before
      · exact .new (Nat.le_refl _) nofun
      · exact .of_mem before
    exact made.trans (.write made.later List.mem_cons_self own (List.Subset.refl _))

end RecordM

namespace Tracer

open RecordM

variable {K : Kinds} {first : Nat} {locals : String → Prop} {returned : Prop}
  {p : Record K.Value × Nat}

theorem stays_takeOperands (later : first ≤ p.2) (site : Site K) :
    RecordM.Bounded first locals returned p [] (takeOperands site) id fun _ => True := by
  obtain ⟨r, n⟩ := p
  rw [RecordM.Bounded, Stays, Ends, run_takeOperands]
  cases r.mark? site.id with
  | none => exact .of_stack later (by simp) (List.Subset.refl _)
  | some mark =>
    dsimp only
    by_cases low : r.depth < mark.depth
    · rw [if_pos low]
      exact .of_stack later (by simp) (List.Subset.refl _)
    · rw [if_neg low]
      refine ⟨.of_stack later (fun node mem => ?_) (List.drop_subset _ _), trivial⟩
      rwa [id, List.take_append_drop] at mem

/-- The receiver is the first of the operands. -/
theorem stays_takeReceiver (later : first ≤ p.2) (site : Site K) (absent : Violation) :
    RecordM.Bounded first locals returned p [] (takeReceiver site absent)
      (fun taken => taken.1 :: taken.2)
      fun taken => ((takeOperands site).run.run p).1 = .ok (taken.1 :: taken.2) := by
  refine (stays_takeOperands later site).ran.bind .trans fun operands q h ran => ?_
  cases operands with
  | nil => exact stays_throw (.of_stack h.later (by simp) (List.Subset.refl _))
  | cons receiver others =>
    exact stays_pure (.of_stack h.later (by simp) (List.Subset.refl _)) ran.2

theorem stays_popInto (later : first ≤ p.2) (site : Site K) (value : K.Value) :
    RecordM.Bounded first locals returned p [] (popInto site value) (fun node => [node])
      fun node => first ≤ node.seq :=
  (stays_pop later).bind .trans fun _ _ h _ => stays_create h.later _ _ (List.Subset.refl _)

end Tracer

/-! ### Work on the whole state -/

/-- What may be changed besides the stack of a frame. -/
structure Footprint (K : Kinds) where
  slots : Slot K → Prop
  result : Prop

/-- The slot is not one of a frame. -/
def Slot.Shared {K : Kinds} : Slot K → Prop
  | frameLocal _ _ => False
  | _ => True

namespace Shadow

variable {K : Kinds}

/-- A change of a record leaves the slots of objects and scopes and the globals alone. -/
theorem OnRecord.current_shared {dead : K.Frame → Prop} {frame : K.Frame} {s t : Shadow K}
    {record : Record K.Value} {n : Nat} (on : OnRecord dead frame s t record n) {x : Slot K}
    (shared : x.Shared) : t.current x = s.current x := by
  cases x with
  | frameLocal f name => exact shared.elim
  | property object name => rw [current, current, objectSlots_congr on.objects]
  | classVariable scope name => rw [current, current, scopeSlots_congr on.scopes]
  | global name => rw [current, current, on.globals]

/-- Two states with the nodes in hand. Between them no other frame has got a record or another one, no
    shared slot outside the footprint another node, but for entries dropped as those of entities that
    had lost their owner. In the record of `frame` nothing has been changed besides its footprint but
    what `Record.Confined` leaves open. -/
structure Confined (host : Host K) (frame : K.Frame) (foot : Footprint K) (first : Nat) (s : Shadow K)
    (inHand : List (Node K.Value)) (t : Shadow K) (inHand' : List (Node K.Value)) : Prop where
  sane : t.Unpoisoned
  later : first ≤ t.nextSeq
  leads : (s.holdings inHand).Leads (t.holdings inHand')
  frames : ∀ f, f ≠ frame → t.record? f = s.record? f ∨
    t.record? f = none ∧ host.Loses (s.holdings inHand) (t.holdings inHand') (.frame f)
  slots : ∀ x, x.Shared → ¬ foot.slots x → t.current x = s.current x ∨
    t.current x = none ∧ ∃ owner, x.owner = some owner ∧
      host.Loses (s.holdings inHand) (t.holdings inHand') owner
  histories : ∀ name, ¬ foot.slots (.frameLocal frame name) →
    (t.recordOf frame).histories.getD name [] = (s.recordOf frame).histories.getD name []
  result : ¬ foot.result → (t.recordOf frame).result = (s.recordOf frame).result
  stack : ∀ a ∈ (t.recordOf frame).stack, a ∈ (s.recordOf frame).stack ∨ first ≤ a.seq

namespace Confined

variable {host : Host K} {frame : K.Frame} {foot : Footprint K} {first : Nat} {s t u : Shadow K}
  {a b c : List (Node K.Value)}

theorem trans (h : Confined host frame foot first s a t b) (h' : Confined host frame foot first t b u c) :
    Confined host frame foot first s a u c where
  sane := h'.sane
  later := h'.later
  leads := h.leads.trans h'.leads
  frames f other := by
    rcases h'.frames f other with same | ⟨gone, loses⟩
    · rcases h.frames f other with same' | ⟨gone, loses⟩
      · exact .inl (same.trans same')
      · exact .inr ⟨same.trans gone, loses.mono (.refl _) h'.leads⟩
    · exact .inr ⟨gone, loses.mono h.leads (.refl _)⟩
  slots x shared outside := by
    rcases h'.slots x shared outside with same | ⟨gone, owner, own, loses⟩
    · rcases h.slots x shared outside with same' | ⟨gone, owner, own, loses⟩
      · exact .inl (same.trans same')
      · exact .inr ⟨same.trans gone, owner, own, loses.mono (.refl _) h'.leads⟩
    · exact .inr ⟨gone, owner, own, loses.mono h.leads (.refl _)⟩
  histories name untouched := (h'.histories name untouched).trans (h.histories name untouched)
  result unset := (h'.result unset).trans (h.result unset)
  stack node mem := (h'.stack node mem).elim (h.stack node) .inr

/-- A change that leaves the records alone. -/
theorem of_frames (same : t.store.frames = s.store.frames) (sane : t.Unpoisoned)
    (later : first ≤ t.nextSeq) (leads : (s.holdings a).Leads (t.holdings b))
    (slots : ∀ x, x.Shared → ¬ foot.slots x → t.current x = s.current x ∨
      t.current x = none ∧ ∃ owner, x.owner = some owner ∧
        host.Loses (s.holdings a) (t.holdings b) owner) :
    Confined host frame foot first s a t b where
  sane := sane
  later := later
  leads := leads
  frames f _ := .inl (record?_congr same f)
  slots := slots
  histories _ _ := by rw [recordOf_congr same]
  result _ := by rw [recordOf_congr same]
  stack node mem := by
    rw [recordOf_congr same] at mem
    exact .inl mem

/-- The store is as it was. -/
theorem of_store (sane : s.Unpoisoned) (same : t.store = s.store) (later : first ≤ t.nextSeq)
    (next : s.nextSeq ≤ t.nextSeq) (gives : ∀ node ∈ b, (s.holdings a).Gives node) :
    Confined host frame foot first s a t b := by
  refine .of_frames (by rw [same]) ?_ later ⟨next, fun node mem => ?_⟩ fun x _ _ =>
    .inl (current_congr same x)
  · constructor <;> rw [same]
    · exact sane.frames
    · exact sane.objects
    · exact sane.scopes
  · rcases List.mem_append.mp mem with inHand | inside
    · exact gives node inHand
    · rw [same] at inside
      exact .of_mem (List.mem_append_right _ inside)

/-- Nodes in hand are let go. -/
theorem of_subset (sane : s.Unpoisoned) (later : first ≤ s.nextSeq) (fewer : b ⊆ a) :
    Confined host frame foot first s a s b :=
  .of_store sane rfl later (Nat.le_refl _) fun _ mem => .of_mem (List.mem_append_left _ (fewer mem))

/-- What the store and the hand hold after a change of an entry that had the nodes `own`, when nothing
    but `kept` has been left in the store before. -/
theorem leads_of_nodes {own inside kept : List (Node K.Value)} (next : s.nextSeq ≤ t.nextSeq)
    (there : own ⊆ kept) (gives : ∀ node ∈ b ++ inside, Holdings.Gives ⟨a ++ own, s.nextSeq⟩ node)
    (nodes : ∀ node ∈ t.store.nodes, node ∈ inside ∨ node ∈ kept) :
    Holdings.Leads ⟨a ++ kept, s.nextSeq⟩ (t.holdings b) := by
  have part : Holdings.Leads ⟨a ++ kept, s.nextSeq⟩ ⟨a ++ own, s.nextSeq⟩ :=
    .of_subset (List.append_subset.mpr ⟨List.subset_append_left a kept,
      List.Subset.trans there (List.subset_append_right a kept)⟩)
  refine ⟨next, fun node mem => ?_⟩
  rcases List.mem_append.mp mem with inHand | left
  · exact (gives node (List.mem_append_left _ inHand)).trans part
  · rcases nodes node left with new | old
    · exact (gives node (List.mem_append_right _ new)).trans part
    · exact .of_mem (List.mem_append_right _ old)

/-- An entity without an owner while nothing but `kept` is left in the store is lost. -/
theorem loses_of_kept {kept : List (Node K.Value)} {handle : Handle K} (before : kept ⊆ s.store.nodes)
    (leads : Holdings.Leads ⟨a ++ kept, s.nextSeq⟩ (t.holdings b))
    (without : ¬ host.Owns (a ++ kept) handle) :
    host.Loses (s.holdings a) (t.holdings b) handle :=
  ⟨_, .of_subset (List.append_subset.mpr ⟨List.subset_append_left a _,
    List.Subset.trans before (List.subset_append_right a _)⟩), leads, without⟩

/-- A frame whose record goes when another frame gets an empty one is lost. -/
theorem loses_of_emptied {dead : K.Frame → Prop} {f : K.Frame}
    (on : OnRecord dead frame s t {} s.nextSeq) (lost : host.LostFrame a s t frame f) :
    host.Loses (s.holdings a) (t.holdings []) (.frame f) := by
  obtain ⟨kept, before, stays, without⟩ := lost
  refine loses_of_kept before ⟨Nat.le_of_eq on.nextSeq.symm, fun node mem => .of_mem ?_⟩
    fun owned => Bool.false_ne_true (without.symm.trans owned)
  refine List.mem_append_right a ((stays node mem).resolve_left ?_)
  rw [on.recordOf]
  exact Record.nodes_empty node

/-- A change of the record of the frame; records of others may have been dropped if it is new. -/
theorem of_onRecord {dead : K.Frame → Prop} {record : Record K.Value} {n : Nat}
    (on : OnRecord dead frame s t record n) (sane : s.Unpoisoned)
    (lost : ∀ f, dead f → s.record? frame = none ∧ host.LostFrame a s t frame f)
    (h : Record.Confined first (fun name => foot.slots (.frameLocal frame name)) foot.result
      (s.recordOf frame, s.nextSeq) a (record, n) b) :
    Confined host frame foot first s a t b := by
  have next : s.nextSeq ≤ t.nextSeq := on.nextSeq ▸ h.leads.next
  have leads : (s.holdings a).Leads (t.holdings b) :=
    leads_of_nodes next (fun _ => mem_nodes_of_record frame) h.leads.nodes fun _ => on.nodes
  constructor
  · exact on.unpoisoned sane
  · exact on.nextSeq ▸ h.later
  · exact leads
  · intro f other
    rcases on.frames.others f other with same | ⟨gone, dropped⟩
    · exact .inl (by rw [record?, Table.content?, same]; rfl)
    · obtain ⟨new, kept, before, stays, without⟩ := lost f dropped
      have empty : (s.recordOf frame).nodes ⊆ kept := by
        intro node mem
        rw [recordOf, new] at mem
        exact absurd mem (Record.nodes_empty node)
      rw [on.recordOf] at stays
      exact .inr ⟨by rw [record?, Table.content?, gone]; rfl,
        loses_of_kept before (leads_of_nodes next empty h.leads.nodes stays)
          fun owned => Bool.false_ne_true (without.symm.trans owned)⟩
  · exact fun x shared _ => .inl (on.current_shared shared)
  · intro name untouched
    rw [on.recordOf]
    exact h.histories name untouched
  · intro unset
    rw [on.recordOf]
    exact h.result unset
  · rw [on.recordOf]
    exact h.stack

/-- A change of the slots of an object. -/
theorem of_onObject {object : K.Object} {slots : Slots K.Value} {n : Nat}
    (on : OnObject (host.Lost a s t object) object s t slots n) (sane : s.Unpoisoned)
    (later : first ≤ s.nextSeq) (next : s.nextSeq ≤ n)
    (gives : ∀ node ∈ b ++ slots.values,
      Holdings.Gives ⟨a ++ (s.objectSlots object).values, s.nextSeq⟩ node)
    (others : ∀ name, ¬ foot.slots (.property object name) →
      slots.get? name = (s.objectSlots object).get? name) :
    Confined host frame foot first s a t b := by
  have grows : s.nextSeq ≤ t.nextSeq := on.nextSeq ▸ next
  have leads : (s.holdings a).Leads (t.holdings b) :=
    leads_of_nodes grows (fun _ => mem_nodes_of_object) gives fun _ => on.nodes
  refine .of_frames on.frames (on.unpoisoned sane) (on.nextSeq ▸ Nat.le_trans later next) leads ?_
  intro x shared outside
  cases x with
  | frameLocal f name => exact shared.elim
  | classVariable scope name => exact .inl (by rw [current, current, scopeSlots_congr on.scopes])
  | global name => exact .inl (by rw [current, current, on.globals])
  | property o name =>
    by_cases own : o = object
    · subst own
      refine .inl ?_
      rw [current, objectSlots, on.objects.here]
      exact others name outside
    · rcases on.objects.others o own with same | ⟨gone, dropped⟩
      · exact .inl (by rw [current, objectSlots, Table.content?, same]; rfl)
      · obtain ⟨new, kept, before, stays, without⟩ := dropped
        have empty : (s.objectSlots object).values ⊆ kept := by
          rw [objectSlots_of_none new]
          exact List.nil_subset kept
        rw [on.objectSlots] at stays
        exact .inr ⟨by rw [current, objectSlots, Table.content?, gone]; rfl, .object o, rfl,
          loses_of_kept before (leads_of_nodes grows empty gives stays)
            fun owned => Bool.false_ne_true (without.symm.trans owned)⟩

/-- A change of the slots of a scope. -/
theorem of_onScope {scope : K.Scope} {slots : Slots K.Value} {n : Nat}
    (on : OnScope (host.LostScope a s t scope) scope s t slots n) (sane : s.Unpoisoned)
    (later : first ≤ s.nextSeq) (next : s.nextSeq ≤ n)
    (gives : ∀ node ∈ b ++ slots.values,
      Holdings.Gives ⟨a ++ (s.scopeSlots scope).values, s.nextSeq⟩ node)
    (others : ∀ name, ¬ foot.slots (.classVariable scope name) →
      slots.get? name = (s.scopeSlots scope).get? name) :
    Confined host frame foot first s a t b := by
  have grows : s.nextSeq ≤ t.nextSeq := on.nextSeq ▸ next
  have leads : (s.holdings a).Leads (t.holdings b) :=
    leads_of_nodes grows (fun _ => mem_nodes_of_scope) gives fun _ => on.nodes
  refine .of_frames on.frames (on.unpoisoned sane) (on.nextSeq ▸ Nat.le_trans later next) leads ?_
  intro x shared outside
  cases x with
  | frameLocal f name => exact shared.elim
  | property object name => exact .inl (by rw [current, current, objectSlots_congr on.objects])
  | global name => exact .inl (by rw [current, current, on.globals])
  | classVariable o name =>
    by_cases own : o = scope
    · subst own
      refine .inl ?_
      rw [current, scopeSlots, on.scopes.here]
      exact others name outside
    · rcases on.scopes.others o own with same | ⟨gone, dropped⟩
      · exact .inl (by rw [current, scopeSlots, Table.content?, same]; rfl)
      · obtain ⟨new, kept, before, stays, without⟩ := dropped
        have empty : (s.scopeSlots scope).values ⊆ kept := by
          rw [scopeSlots_of_none new]
          exact List.nil_subset kept
        rw [on.scopeSlots] at stays
        exact .inr ⟨by rw [current, scopeSlots, Table.content?, gone]; rfl, .scope o, rfl,
          loses_of_kept before (leads_of_nodes grows empty gives stays)
            fun owned => Bool.false_ne_true (without.symm.trans owned)⟩

/-- A change of the globals. -/
theorem of_onGlobals {globals : Slots K.Value} {n : Nat} (on : OnGlobals s t globals n)
    (sane : s.Unpoisoned) (later : first ≤ s.nextSeq) (next : s.nextSeq ≤ n)
    (gives : ∀ node ∈ b ++ globals.values, (s.holdings a).Gives node)
    (others : ∀ name, ¬ foot.slots (.global name) → globals.get? name = s.store.globals.get? name) :
    Confined host frame foot first s a t b := by
  refine .of_frames on.frames (on.unpoisoned sane) (on.nextSeq ▸ Nat.le_trans later next)
    (leads_of_nodes (on.nextSeq ▸ next) (List.Subset.refl _) gives fun _ => on.nodes) ?_
  intro x shared outside
  cases x with
  | frameLocal f name => exact shared.elim
  | property object name => exact .inl (by rw [current, current, objectSlots_congr on.objects])
  | classVariable scope name => exact .inl (by rw [current, current, scopeSlots_congr on.scopes])
  | global name =>
    refine .inl ?_
    rw [current, on.globals]
    exact others name outside

end Confined

end Shadow

/-- A read of a slot gives its node, which is a new unknown one if there was none. -/
theorem Slots.current_gives {V : Type} {h : Holdings V} {slots : Slots V}
    (inside : ∀ node ∈ slots.values, h.Gives node) (name : String) :
    h.next ≤ (slots.current name h.next).2.1 ∧ h.Gives (slots.current name h.next).1 ∧
      (∀ node ∈ (slots.current name h.next).2.2.values, h.Gives node) ∧
      ∀ other, name ≠ other → (slots.current name h.next).2.2.get? other = slots.get? other := by
  unfold current
  cases found : slots.get? name with
  | some node =>
    exact ⟨Nat.le_refl _, inside node (Dict.mem_values_of_get? found), inside, fun _ _ => rfl⟩
  | none =>
    have unknown : h.Gives (.unknown h.next) := .new (Nat.le_refl _) nofun
    refine ⟨Nat.le_succ _, unknown, fun node mem => ?_, fun other ne => ?_⟩
    · rcases Dict.mem_values_set mem with rfl | before
      · exact unknown
      · exact inside node before
    · rw [Dict.get?_set, if_neg ne]

theorem Slots.set_gives {V : Type} {h : Holdings V} {slots : Slots V}
    (inside : ∀ node ∈ slots.values, h.Gives node) {node : Node V} (gives : h.Gives node)
    (name : String) : (∀ other ∈ node :: (slots.set name node).values, h.Gives other) ∧
      ∀ other, name ≠ other → (slots.set name node).get? other = slots.get? other := by
  refine ⟨List.forall_mem_cons.mpr ⟨gives, fun other mem => ?_⟩, fun other ne => ?_⟩
  · rcases Dict.mem_values_set mem with rfl | before
    · exact gives
    · exact inside other before
  · rw [Dict.get?_set, if_neg ne]

namespace ShadowM

open Shadow

variable {K : Kinds} {α : Type} {host : Host K} {frame : K.Frame} {foot : Footprint K} {first : Nat}
  {s : Shadow K} {inHand : List (Node K.Value)}

/-- The work keeps within bounds on the state. -/
abbrev Bounded (host : Host K) (frame : K.Frame) (foot : Footprint K) (first : Nat) (s : Shadow K)
    (inHand : List (Node K.Value)) (work : ShadowM K α) (hand : α → List (Node K.Value))
    (Q : α → Prop) : Prop :=
  Stays (Confined host frame foot first) s inHand work hand Q

section

variable (sane : s.Unpoisoned) (later : first ≤ s.nextSeq)

include sane later

theorem stays_note (severity : Severity) (message : String) (fields : Fields)
    {hand : List (Node K.Value)} (kept : hand ⊆ inHand) :
    Bounded host frame foot first s inHand (note severity message fields) (fun _ => hand)
      fun _ => True :=
  ⟨.of_store sane rfl later (Nat.le_refl _) fun _ mem => .of_mem (List.mem_append_left _ (kept mem)),
    trivial⟩

/-- An outcome that is known already leaves the state as it is. -/
theorem stays_settle {β : Type} {outcome : Except Fault α} {next : α → ShadowM K β}
    {hand : β → List (Node K.Value)} {Q : β → Prop}
    (rest : ∀ a, outcome = .ok a → Bounded host frame foot first s [] (next a) hand Q) :
    Bounded host frame foot first s [] (settle outcome >>= next) hand Q := by
  cases outcome with
  | ok a => exact rest a rfl
  | error fault => exact stays_throw (.of_subset sane later (List.Subset.refl _))

theorem stays_create (creator : Option Creator) (value : Option K.Value)
    {origins kept : List (Node K.Value)} (used : origins ⊆ inHand) (held : kept ⊆ inHand) :
    Bounded host frame foot first s inHand (create creator value origins) (fun node => kept ++ [node])
      (fun node => first ≤ node.seq) := by
  refine ⟨.of_store sane rfl (Nat.le_succ_of_le later) (Nat.le_succ _) fun node mem => ?_, later⟩
  rcases List.mem_append.mp mem with before | made
  · exact .of_mem (List.mem_append_left _ (held before))
  · rw [List.mem_singleton.mp made]
    exact .new (Nat.le_refl _) fun o there => .of_mem (List.mem_append_left _ (used there))

omit later in
/-- Work on the record of the frame, a new one if it had none. -/
theorem stays_withRecord {work : RecordM K.Value α} {hand : α → List (Node K.Value)} {Q : α → Prop}
    (bounded : RecordM.Bounded first (fun name => foot.slots (.frameLocal frame name)) foot.result
      (s.recordOf frame, s.nextSeq) inHand work hand Q) :
    Bounded host frame foot first s inHand (withRecord host inHand frame work) hand Q := by
  unfold RecordM.Bounded Stays Ends at bounded
  rcases run : work.run.run (s.recordOf frame, s.nextSeq) with ⟨outcome, record, next⟩
  rw [run] at bounded
  refine (ends_withRecord_lost sane inHand run).mono ?_
  rintro r t ⟨rfl, on⟩
  cases r with
  | error fault => exact .of_onRecord on sane (fun _ => id) bounded
  | ok a => exact ⟨.of_onRecord on sane (fun _ => id) bounded.1, bounded.2⟩

omit later in
/-- Work on a record that the frame is known to have. -/
theorem stays_onFrame {entry : Entry (Record K.Value)}
    (found : s.store.frames.find? frame = some entry) {work : RecordM K.Value α}
    {hand : α → List (Node K.Value)} {Q : α → Prop}
    (bounded : RecordM.Bounded first (fun name => foot.slots (.frameLocal frame name)) foot.result
      (s.recordOf frame, s.nextSeq) inHand work hand Q) :
    Bounded host frame foot first s inHand (onFrame frame entry work) hand Q := by
  unfold RecordM.Bounded Stays Ends at bounded
  rcases run : work.run.run (s.recordOf frame, s.nextSeq) with ⟨outcome, record, next⟩
  rw [run] at bounded
  refine (Tracer.ends_onFrame_known sane found run).mono ?_
  rintro r t ⟨rfl, on⟩
  cases r with
  | error fault => exact .of_onRecord on sane (fun _ => False.elim) bounded
  | ok a => exact ⟨.of_onRecord on sane (fun _ => False.elim) bounded.1, bounded.2⟩

theorem stays_readObject {object : K.Object} {name : String} (own : foot.slots (.property object name)) :
    Bounded host frame foot first s inHand (withObject host inHand object (SlotsM.current name))
      (fun node => inHand ++ [node]) fun _ => True := by
  obtain ⟨next, gives, inside, others⟩ := Slots.current_gives
    (h := ⟨inHand ++ (s.objectSlots object).values, s.nextSeq⟩)
    (fun node mem => .of_mem (List.mem_append_right _ mem)) name
  refine (ends_withObject sane inHand (Tracer.run_current name _ _)).mono ?_
  rintro r t ⟨rfl, on⟩
  refine ⟨.of_onObject on sane later next ?_ fun other outside => others other ?_, trivial⟩
  · intro node mem
    rcases List.mem_append.mp mem with held | new
    · rcases List.mem_append.mp held with held | found
      · exact .of_mem (List.mem_append_left _ held)
      · rwa [List.mem_singleton.mp found]
    · exact inside node new
  · rintro rfl
    exact outside own

theorem stays_writeObject {object : K.Object} {name : String} {node : Node K.Value}
    (own : foot.slots (.property object name)) :
    Bounded host frame foot first s [node] (withObject host [node] object (SlotsM.write name node))
      (fun _ => [node]) fun _ => True := by
  obtain ⟨gives, others⟩ := Slots.set_gives
    (h := ⟨[node] ++ (s.objectSlots object).values, s.nextSeq⟩)
    (fun node mem => .of_mem (List.mem_append_right _ mem))
    (.of_mem (a := node) List.mem_cons_self) name
  refine (ends_withObject sane [node] (Tracer.run_write name node _ _)).mono ?_
  rintro r t ⟨rfl, on⟩
  refine ⟨.of_onObject on sane later (Nat.le_refl _) gives fun other outside => others other ?_, trivial⟩
  rintro rfl
  exact outside own

theorem stays_readScope {scope : K.Scope} {name : String}
    (own : foot.slots (.classVariable scope name)) :
    Bounded host frame foot first s [] (withScope host [] scope (SlotsM.current name))
      (fun node => [node]) fun _ => True := by
  obtain ⟨next, gives, inside, others⟩ := Slots.current_gives
    (h := ⟨[] ++ (s.scopeSlots scope).values, s.nextSeq⟩)
    (fun node mem => .of_mem (List.mem_append_right _ mem)) name
  refine (ends_withScope_lost sane [] (Tracer.run_current name _ _)).mono ?_
  rintro r t ⟨rfl, on⟩
  refine ⟨.of_onScope on sane later next ?_ fun other outside => others other ?_, trivial⟩
  · exact List.forall_mem_cons.mpr ⟨gives, inside⟩
  · rintro rfl
    exact outside own

theorem stays_writeScope {scope : K.Scope} {name : String} {node : Node K.Value}
    (own : foot.slots (.classVariable scope name)) :
    Bounded host frame foot first s [node] (withScope host [node] scope (SlotsM.write name node))
      (fun _ => [node]) fun _ => True := by
  obtain ⟨gives, others⟩ := Slots.set_gives
    (h := ⟨[node] ++ (s.scopeSlots scope).values, s.nextSeq⟩)
    (fun node mem => .of_mem (List.mem_append_right _ mem))
    (.of_mem (a := node) List.mem_cons_self) name
  refine (ends_withScope_lost sane [node] (Tracer.run_write name node _ _)).mono ?_
  rintro r t ⟨rfl, on⟩
  refine ⟨.of_onScope on sane later (Nat.le_refl _) gives fun other outside => others other ?_, trivial⟩
  rintro rfl
  exact outside own

theorem stays_currentGlobal {name : String} (own : foot.slots (.global name)) :
    Bounded host frame foot first s [] (currentGlobal name) (fun node => [node]) fun _ => True := by
  have globals : ∀ node ∈ s.store.globals.values, (s.holdings []).Gives node := fun node mem =>
    .of_mem (mem_nodes.mpr (.inr (.inr (.inr mem))))
  obtain ⟨next, gives, inside, others⟩ := Slots.current_gives (h := s.holdings []) globals name
  refine (ends_currentGlobal name s).mono ?_
  rintro r t ⟨rfl, on⟩
  refine ⟨.of_onGlobals on sane later next ?_ fun other outside => others other ?_, trivial⟩
  · exact List.forall_mem_cons.mpr ⟨gives, inside⟩
  · rintro rfl
    exact outside own

theorem stays_writeGlobal {name : String} {node : Node K.Value} (own : foot.slots (.global name)) :
    Bounded host frame foot first s [node] (writeGlobal name node) (fun _ => [node]) fun _ => True := by
  have globals : ∀ other ∈ s.store.globals.values, (s.holdings [node]).Gives other := fun other mem =>
    .of_mem (List.mem_append_right _ (mem_nodes.mpr (.inr (.inr (.inr mem)))))
  obtain ⟨gives, others⟩ := Slots.set_gives globals (.of_mem (a := node) List.mem_cons_self) name
  refine (ends_writeGlobal name node s).mono ?_
  rintro r t ⟨rfl, on⟩
  refine ⟨.of_onGlobals on sane later (Nat.le_refl _) gives fun other outside => others other ?_, trivial⟩
  rintro rfl
  exact outside own

end

end ShadowM

end Lineage
