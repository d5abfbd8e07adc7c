import Lineage.Proofs.History
import Lineage.Proofs.Slice

/-!
# The provenance graph is well formed

Whatever a tracer has been told of, the nodes that its store can reach have numbers of their own, below
the next one; origins come before the nodes that are made from them; an unknown node tells nothing and
is found at the start of a history at most. The rules are taken one by one: each makes some nodes from
nodes that were there, and puts them where they may be.
-/

namespace Lineage

namespace Node

variable {V : Type}

/-- Of a node without a creator nothing is known; a node with a creator has a value. -/
def Formed (node : Node V) : Prop :=
  match node.creator with
  | none => node.value = none ∧ node.origins = []
  | some _ => node.value ≠ none

theorem Formed.unknown (seq : Nat) : (Node.unknown seq : Node V).Formed := ⟨rfl, rfl⟩

theorem Formed.isUnknown {node : Node V} (h : node.Formed) :
    node.isUnknown = node.creator.isNone := by
  unfold Formed at h
  unfold Node.isUnknown
  cases known : node.creator with
  | none =>
    rw [known] at h
    rw [h.1]
    rfl
  | some _ => rfl

/-- Nodes numbered below `next`, each with a number of its own, made from nodes among them; their
    values are allowed. -/
structure Family (allowed : Option V → Prop) (G : Node V → Prop) (next : Nat) : Prop
    extends Told G where
  counted : ∀ a, G a → a.seq < next
  older : ∀ a, G a → ∀ o ∈ a.origins, o.seq < a.seq
  formed : ∀ a, G a → a.Formed
  allows : ∀ a, G a → allowed a.value

/-- One more node. -/
def With (G : Node V → Prop) (node : Node V) : Node V → Prop := fun a => G a ∨ a = node

namespace Family

variable {allowed : Option V → Prop} {G : Node V → Prop} {n : Nat}

theorem none : Family allowed (fun _ : Node V => False) n where
  closed _ := False.elim
  unique _ _ := False.elim
  counted _ := False.elim
  older _ := False.elim
  formed _ := False.elim
  allows _ := False.elim

/-- The next node is made from nodes of the family. -/
theorem add (h : Family allowed G n) {node : Node V} (number : node.seq = n)
    (origins : ∀ o ∈ node.origins, G o) (formed : node.Formed) (value : allowed node.value) :
    Family allowed (With G node) (n + 1) := by
  refine ⟨⟨?_, ?_⟩, ?_, ?_, ?_, ?_⟩
  · intro a mem o used
    rcases mem with old | rfl
    · exact .inl (h.closed a old o used)
    · exact .inl (origins o used)
  · intro a b ha hb same
    rcases ha with ha | rfl <;> rcases hb with hb | rfl
    · exact h.unique a b ha hb same
    · have := h.counted a ha
      omega
    · have := h.counted b hb
      omega
    · rfl
  · intro a mem
    rcases mem with old | rfl
    · have := h.counted a old
      omega
    · omega
  · intro a mem o used
    rcases mem with old | rfl
    · exact h.older a old o used
    · rw [number]
      exact h.counted o (origins o used)
  · intro a mem
    rcases mem with old | rfl
    · exact h.formed a old
    · exact formed
  · intro a mem
    rcases mem with old | rfl
    · exact h.allows a old
    · exact value

end Family

end Node

namespace Record

variable {V : Type}

/-- No operand and no result is unknown, and of a local at most the first node. -/
structure Tidy (r : Record V) : Prop where
  stack : ∀ node ∈ r.stack, node.isUnknown = false
  result : ∀ node, r.result = some node → node.isUnknown = false
  histories : ∀ name, ∀ node ∈ (r.history name).tail, node.isUnknown = false

namespace Tidy

variable {r q : Record V} {node : Node V}

theorem empty : ({} : Record V).Tidy := ⟨nofun, nofun, nofun⟩

theorem push (h : r.Tidy) (known : node.isUnknown = false) : (r.push node).Tidy where
  stack other mem := (List.mem_cons.mp mem).elim (fun new => new ▸ known) (h.stack other)
  result := h.result
  histories := h.histories

theorem setResult (h : r.Tidy) (known : node.isUnknown = false) : (r.setResult node).Tidy where
  stack := h.stack
  result _ same := Option.some.inj same ▸ known
  histories := h.histories

/-- Other operands, all of which were there, and the same locals and result. -/
theorem of_stack (h : r.Tidy) (stack : ∀ other ∈ q.stack, other ∈ r.stack)
    (histories : q.histories = r.histories) (result : q.result = r.result) : q.Tidy where
  stack other mem := h.stack other (stack other mem)
  result other same := h.result other (result ▸ same)
  histories name := by
    unfold history
    rw [histories]
    exact h.histories name

theorem history_write (r : Record V) (name other : String) (node : Node V) :
    (r.write name node).history other =
      if name = other then r.history name ++ [node] else r.history other := by
  unfold history
  rw [Record.history_write]
  split
  · exact List.reverse_cons
  · rfl

theorem write (h : r.Tidy) (name : String)
    (known : r.history name ≠ [] → node.isUnknown = false) : (r.write name node).Tidy where
  stack := h.stack
  result := h.result
  histories other later mem := by
    rw [history_write] at mem
    split at mem
    · next same =>
      cases before : r.history name with
      | nil =>
        rw [before] at mem
        cases mem
      | cons first rest =>
        have old := h.histories name later
        rw [before] at mem old known
        rcases List.mem_append.mp mem with inside | new
        · exact old inside
        · rw [List.mem_singleton.mp new]
          exact known (List.cons_ne_nil _ _)
    · exact h.histories other later mem

/-- A read starts the history of a local that has none. -/
theorem current (h : r.Tidy) (name : String) (fresh : Nat) : (r.current name fresh).2.2.Tidy := by
  cases before : r.histories.getD name [] with
  | cons newest older =>
    rw [current_of_cons before]
    exact h
  | nil =>
    rw [current_of_nil before]
    refine h.write name fun some => absurd ?_ some
    rw [history, before]
    rfl

end Tidy

end Record

namespace Shadow

variable {K : Kinds}

/-- All nodes of the store are in `G`, and all records are tidy. -/
structure Within (G : Node K.Value → Prop) (s : Shadow K) : Prop where
  nodes : ∀ node ∈ s.store.nodes, G node
  tidy : ∀ r ∈ s.store.frames.contents, r.Tidy

/-- A family has the nodes of the store, and those of `G`. -/
def Extends (allowed : Option K.Value → Prop) (G : Node K.Value → Prop) (s : Shadow K) : Prop :=
  ∃ G' : Node K.Value → Prop, (∀ a, G a → G' a) ∧ Node.Family allowed G' s.nextSeq ∧ s.Within G'

namespace Within

variable {G G' : Node K.Value → Prop} {s t : Shadow K} {frame : K.Frame} {r : Record K.Value}
  {n : Nat} {dead : K.Frame → Prop}

theorem mono (h : s.Within G) (more : ∀ a, G a → G' a) : s.Within G' :=
  ⟨fun node mem => more node (h.nodes node mem), h.tidy⟩

theorem of_store (h : s.Within G) (same : t.store = s.store) : t.Within G := by
  constructor
  · rw [same]
    exact h.nodes
  · rw [same]
    exact h.tidy

theorem record (h : s.Within G) (frame : K.Frame) :
    (s.recordOf frame).Tidy ∧ ∀ node ∈ (s.recordOf frame).nodes, G node := by
  refine ⟨?_, fun node mem => h.nodes node (mem_nodes_of_record frame mem)⟩
  unfold recordOf
  cases found : s.record? frame with
  | none => exact .empty
  | some r => exact h.tidy r (mem_contents_of_content? found)

theorem onRecord (h : s.Within G) (on : OnRecord dead frame s t r n) (more : ∀ a, G a → G' a)
    (inside : ∀ node ∈ r.nodes, G' node) (tidy : r.Tidy) : t.Within G' := by
  constructor
  · intro node mem
    rcases on.nodes mem with new | old
    · exact inside node new
    · exact more node (h.nodes node old)
  · intro q mem
    rcases on.frames.contents q mem with rfl | old
    · exact tidy
    · exact h.tidy q old

/-- A change that leaves the records alone. -/
theorem onSlots (h : s.Within G) (frames : t.store.frames = s.store.frames) (more : ∀ a, G a → G' a)
    (nodes : ∀ node ∈ t.store.nodes, G' node ∨ node ∈ s.store.nodes) : t.Within G' := by
  constructor
  · intro node mem
    rcases nodes node mem with new | old
    · exact new
    · exact more node (h.nodes node old)
  · rw [frames]
    exact h.tidy

end Within

/-- What holds of the graph that the store can reach. -/
structure WellFormed (s : Shadow K) : Prop where
  /-- A number belongs to one node only. -/
  unique : ∀ a b, Node.Reached s.store.nodes a → Node.Reached s.store.nodes b → a.seq = b.seq → a = b
  counted : ∀ a, Node.Reached s.store.nodes a → a.seq < s.nextSeq
  /-- Nodes are made from nodes that were there. -/
  older : ∀ a, Node.Reached s.store.nodes a → ∀ o ∈ a.origins, o.seq < a.seq
  formed : ∀ a, Node.Reached s.store.nodes a → a.Formed
  tidy : ∀ r ∈ s.store.frames.contents, r.Tidy

theorem Extends.wellFormed {allowed : Option K.Value → Prop} {G : Node K.Value → Prop}
    {s : Shadow K} (h : s.Extends allowed G) : s.WellFormed := by
  obtain ⟨G', -, family, within⟩ := h
  have inside : ∀ {a}, Node.Reached s.store.nodes a → G' a := family.reached within.nodes
  constructor
  · exact fun a b ha hb => family.unique a b (inside ha) (inside hb)
  · exact fun a ha => family.counted a (inside ha)
  · exact fun a ha => family.older a (inside ha)
  · exact fun a ha => family.formed a (inside ha)
  · exact within.tidy

namespace WellFormed

variable {s : Shadow K}

/-- What a well-formed store reaches is a family. -/
theorem family (h : s.WellFormed) {allowed : Option K.Value → Prop}
    (allows : ∀ a, Node.Reached s.store.nodes a → allowed a.value) :
    Node.Family allowed (Node.Reached s.store.nodes) s.nextSeq where
  closed _ there _ used := .origin there used
  unique := h.unique
  counted := h.counted
  older := h.older
  formed := h.formed
  allows := allows

theorem of_same {t : Shadow K} (h : s.WellFormed) (same : SameState s t) : t.WellFormed := by
  have nodes := same.nodes
  constructor
  · rw [nodes]
    exact h.unique
  · rw [nodes, same.2]
    exact h.counted
  · rw [nodes]
    exact h.older
  · rw [nodes]
    exact h.formed
  · rw [same.1]
    exact h.tidy

theorem within (h : s.WellFormed) : s.Within (Node.Reached s.store.nodes) where
  nodes _ mem := .root mem
  tidy := h.tidy

end WellFormed

end Shadow

namespace Tracer

open Shadow

variable {K : Kinds} {allowed : Option K.Value → Prop} {G : Node K.Value → Prop} {s t : Shadow K}
  {frame : K.Frame} {n : Nat}

/-! ### Reading slots -/

/-- A read adds at most the unknown node that it starts a slot with. -/
theorem family_current (unknown : allowed none) (family : Node.Family allowed G n)
    {slots : Slots K.Value} (inside : ∀ node ∈ slots.values, G node) (name : String) :
    ∃ G' : Node K.Value → Prop, (∀ a, G a → G' a) ∧
      Node.Family allowed G' (slots.current name n).2.1 ∧ G' (slots.current name n).1 ∧
      ∀ node ∈ (slots.current name n).2.2.values, G' node := by
  unfold Slots.current
  cases found : slots.get? name with
  | some node =>
    exact ⟨G, fun _ => id, family, inside node (Dict.mem_values_of_get? found), inside⟩
  | none =>
    refine ⟨Node.With G (.unknown n), fun _ => .inl, family.add rfl nofun (.unknown n) unknown,
      .inr rfl, fun node mem => ?_⟩
    rcases Dict.mem_values_set mem with rfl | old
    · exact .inr rfl
    · exact .inl (inside node old)

theorem family_currentLocal (unknown : allowed none) (family : Node.Family allowed G n)
    {record : Record K.Value} (inside : ∀ node ∈ record.nodes, G node) (name : String) :
    ∃ G' : Node K.Value → Prop, (∀ a, G a → G' a) ∧
      Node.Family allowed G' (record.current name n).2.1 ∧ G' (record.current name n).1 ∧
      ∀ node ∈ (record.current name n).2.2.nodes, G' node := by
  cases history : record.histories.getD name [] with
  | cons newest older =>
    rw [Record.current_of_cons history]
    have there : newest ∈ record.histories.getD name [] := history ▸ List.mem_cons_self
    exact ⟨G, fun _ => id, family, inside newest (Record.mem_nodes_of_history there), inside⟩
  | nil =>
    rw [Record.current_of_nil history]
    refine ⟨Node.With G (.unknown n), fun _ => .inl, family.add rfl nofun (.unknown n) unknown,
      .inr rfl, fun node mem => ?_⟩
    rcases Record.nodes_write mem with rfl | old
    · exact .inr rfl
    · exact .inl (inside node old)

/-! ### Elementary changes -/

variable {G' : Node K.Value → Prop} {record : Record K.Value} {dead : K.Frame → Prop}
  {site : Site K} {value : K.Value} {origins : List (Node K.Value)}

theorem extends_refl (family : Node.Family allowed G s.nextSeq) (within : s.Within G) :
    s.Extends allowed G :=
  ⟨G, fun _ => id, family, within⟩

theorem extends_same (family : Node.Family allowed G s.nextSeq) (within : s.Within G)
    (same : SameState s t) : t.Extends allowed G :=
  ⟨G, fun _ => id, by rwa [same.2], within.of_store same.1⟩

/-- A change of a record that makes no node. -/
theorem extends_record (family : Node.Family allowed G n) (within : s.Within G)
    (on : OnRecord dead frame s t record n) (inside : ∀ node ∈ record.nodes, G node)
    (tidy : record.Tidy) : t.Extends allowed G :=
  ⟨G, fun _ => id, by rwa [on.nextSeq], within.onRecord on (fun _ => id) inside tidy⟩

/-- A rule ends by making the node of its site from nodes that are there, and pushing it. -/
theorem extends_push (valued : allowed (some value)) (more : ∀ a, G a → G' a)
    (family : Node.Family allowed G' n) (within : s.Within G')
    (inside : ∀ node ∈ record.nodes, G' node) (tidy : record.Tidy) (old : ∀ o ∈ origins, G' o)
    (on : OnRecord dead frame s t (record.push (site.node n value origins)) (n + 1)) :
    t.Extends allowed G := by
  have formed : (site.node n value origins).Formed := Option.some_ne_none value
  refine ⟨Node.With G' (site.node n value origins), fun a mem => .inl (more a mem), ?_, ?_⟩
  · rw [on.nextSeq]
    exact family.add rfl old formed valued
  · refine within.onRecord on (fun _ => .inl) (fun node mem => ?_) (tidy.push rfl)
    rcases Record.nodes_push mem with rfl | before
    · exact .inr rfl
    · exact .inl (inside node before)

theorem tidy_of_takeOperands {operands : Except Fault (List (Node K.Value))}
    {record' : Record K.Value} {m : Nat} (tidy : record.Tidy)
    (run : (takeOperands site).run.run (record, m) = (operands, record', n)) :
    record'.Tidy ∧ n = m := by
  have keeps := takeOperands_keeps site record m
  rw [Ends, run] at keeps
  obtain ⟨histories, result, next, stack⟩ := keeps
  refine ⟨tidy.of_stack (fun other mem => ?_) histories result, next⟩
  cases operands with
  | ok taken => exact stack ▸ List.mem_append_right _ mem
  | error _ => exact stack ▸ mem

theorem tidy_of_takeReceiver {absent : Violation}
    {operands : Except Fault (Node K.Value × List (Node K.Value))} {record' : Record K.Value}
    {m : Nat} (tidy : record.Tidy)
    (run : (takeReceiver site absent).run.run (record, m) = (operands, record', n)) :
    record'.Tidy ∧ n = m := by
  rw [run_takeReceiver] at run
  rcases taken : (takeOperands site).run.run (record, m) with
    ⟨fault | _ | ⟨receiver, others⟩, rest, k⟩
  all_goals
    rw [taken] at run
    cases run
    exact tidy_of_takeOperands tidy taken

theorem tidy_drop {top : Node K.Value} {below : List (Node K.Value)} (tidy : record.Tidy)
    (stack : record.stack = top :: below) : ({ record with stack := below } : Record K.Value).Tidy :=
  tidy.of_stack (fun _ mem => stack ▸ List.mem_cons_of_mem _ mem) rfl rfl

section Slots

variable (valued : allowed (some value)) (family : Node.Family allowed G s.nextSeq)
  (within : s.Within G)

include valued family within

/-- A slot that is no local is read before the node is pushed. -/
theorem extends_read (unknown : allowed none) {slots : Slots K.Value}
    (values : ∀ node ∈ slots.values, G node) (name : String)
    {mid t : Shadow K} (frames : mid.store.frames = s.store.frames)
    (nodes : ∀ node ∈ mid.store.nodes,
      node ∈ (slots.current name s.nextSeq).2.2.values ∨ node ∈ s.store.nodes)
    (on : OnRecord dead frame mid t ((s.recordOf frame).push (site.node
      (slots.current name s.nextSeq).2.1 value [(slots.current name s.nextSeq).1]))
      ((slots.current name s.nextSeq).2.1 + 1)) : t.Extends allowed G := by
  obtain ⟨tidy, inside⟩ := within.record frame
  obtain ⟨G', more, family', origin, read⟩ := family_current unknown family values name
  have between : mid.Within G' :=
    within.onSlots frames more fun node mem => (nodes node mem).imp_left (read node)
  exact extends_push valued more family' between (fun node mem => more node (inside node mem)) tidy
    (fun o mem => List.mem_singleton.mp mem ▸ origin) on

/-- A slot that is no local is written between the pop of the origin and the push of the node. -/
theorem extends_write {slots : Slots K.Value} (values : ∀ node ∈ slots.values, G node) (name : String)
    {top : Node K.Value} {below : List (Node K.Value)} (stack : (s.recordOf frame).stack = top :: below)
    {mid late t : Shadow K}
    (popped : OnRecord dead frame s mid { s.recordOf frame with stack := below } (s.nextSeq + 1))
    (frames : late.store.frames = mid.store.frames)
    (nodes : ∀ node ∈ late.store.nodes,
      node ∈ (slots.set name (site.node s.nextSeq value [top])).values ∨ node ∈ mid.store.nodes)
    (on : OnRecord dead frame late t (({ s.recordOf frame with stack := below } : Record _).push
      (site.node s.nextSeq value [top])) (s.nextSeq + 1)) : t.Extends allowed G := by
  obtain ⟨tidy, inside⟩ := within.record frame
  have used : G top := inside top (Record.mem_nodes.mpr (.inl (stack ▸ List.mem_cons_self)))
  have left : ∀ node ∈ ({ s.recordOf frame with stack := below } : Record K.Value).nodes, G node :=
    fun node mem => inside node (Record.nodes_drop [top] stack mem)
  have tidyLeft := tidy_drop tidy stack
  let node := site.node s.nextSeq value [top]
  have between : late.Within (Node.With G node) := by
    refine (within.onRecord popped (fun _ => id) left tidyLeft).onSlots frames (fun _ => .inl) ?_
    intro other mem
    refine (nodes other mem).imp_left fun written => ?_
    rcases Dict.mem_values_set written with rfl | old
    · exact .inr rfl
    · exact .inl (values other old)
  refine ⟨Node.With G node, fun _ => .inl, ?_, between.onRecord on (fun _ => id) (fun other mem => ?_)
    (tidyLeft.push rfl)⟩
  · rw [on.nextSeq]
    exact family.add rfl (fun o mem => List.mem_singleton.mp mem ▸ used) (Option.some_ne_none _)
      valued
  · rcases Record.nodes_push mem with rfl | mem
    · exact .inr rfl
    · exact .inl (left other mem)

end Slots

/-! ### On return -/

section Rules

variable {tracer : Tracer} {host : Host K} (sane : s.Unpoisoned)
  (family : Node.Family allowed G s.nextSeq) (within : s.Within G)

include sane family within

theorem extends_operands (valued : allowed (some value)) :
    Ends (applyLeave tracer host site frame value .useStackDefStack) s
      fun _ t => t.Extends allowed G := by
  obtain ⟨tidy, inside⟩ := within.record frame
  rcases run : (takeOperands site).run.run (s.recordOf frame, s.nextSeq) with
    ⟨operands, record, next⟩
  obtain ⟨tidyLeft, rfl⟩ := tidy_of_takeOperands tidy run
  obtain ⟨-, left, taken⟩ := nodes_of_takeOperands run
  refine (leave_operands sane run).mono fun r t done => ?_
  cases operands with
  | error fault =>
    exact extends_record family within done.2 (fun node mem => inside node (left node mem)) tidyLeft
  | ok operands =>
    exact extends_push valued (fun _ => id) family within (fun node mem => inside node (left node mem))
      tidyLeft (fun node mem => inside node (taken _ rfl node mem)) done.2

theorem extends_readLocal (unknown : allowed none) (valued : allowed (some value)) :
    Ends (applyLeave tracer host site frame value .useLocalDefStack) s
      fun _ t => t.Extends allowed G := by
  obtain ⟨tidy, inside⟩ := within.record frame
  cases found : site.localSlot with
  | none =>
    exact .of_run (run_leave_lacking rfl (congrArg Option.isSome found)) (extends_refl family within)
  | some name =>
    refine (leave_readLocal sane name found).mono fun r t done => ?_
    obtain ⟨G', more, family', origin, read⟩ := family_currentLocal unknown family inside name
    exact extends_push valued more family' (within.mono more) read (tidy.current name _)
      (fun o mem => List.mem_singleton.mp mem ▸ origin) done.2

theorem extends_writeLocal (valued : allowed (some value)) :
    Ends (applyLeave tracer host site frame value .useStackDefLocalStack) s
      fun _ t => t.Extends allowed G := by
  obtain ⟨tidy, inside⟩ := within.record frame
  cases found : site.localSlot with
  | none =>
    exact .of_run (run_leave_lacking rfl (congrArg Option.isSome found)) (extends_refl family within)
  | some name =>
    refine (leave_writeLocal sane name found).mono fun r t done => ?_
    cases stack : (s.recordOf frame).stack with
    | nil =>
      rw [stack] at done
      exact extends_record family within done.2 inside tidy
    | cons top below =>
      rw [stack] at done
      obtain ⟨-, on⟩ := done
      have used : G top := inside top (Record.mem_nodes.mpr (.inl (stack ▸ List.mem_cons_self)))
      let node := site.node s.nextSeq value [top]
      refine ⟨Node.With G node, fun _ => .inl, ?_, ?_⟩
      · rw [on.nextSeq]
        exact family.add rfl (fun o mem => List.mem_singleton.mp mem ▸ used)
          (Option.some_ne_none _) valued
      · refine within.onRecord on (fun _ => .inl) (fun other mem => ?_)
          (((tidy_drop tidy stack).write name fun _ => rfl).push rfl)
        rcases Record.nodes_push mem with rfl | mem
        · exact .inr rfl
        · rcases Record.nodes_write mem with rfl | mem
          · exact .inr rfl
          · exact .inl (inside other (Record.nodes_drop [top] stack mem))

theorem extends_readClassVariable (unknown : allowed none) (valued : allowed (some value)) :
    Ends (applyLeave tracer host site frame value .useClassVarDefStack) s
      fun _ t => t.Extends allowed G := by
  cases found : site.classVariable with
  | none =>
    exact .of_run (run_leave_lacking rfl (congrArg Option.isSome found)) (extends_refl family within)
  | some owned =>
    refine (leave_readClassVariable sane owned found).mono fun r t done => ?_
    obtain ⟨-, mid, read, on⟩ := done
    have values : ∀ node ∈ (s.scopeSlots owned.scope).values, G node :=
      fun node mem => within.nodes node (mem_nodes_of_scope mem)
    exact extends_read valued family within unknown values owned.name read.frames
      (fun _ => read.nodes) on

theorem extends_writeClassVariable (valued : allowed (some value)) :
    Ends (applyLeave tracer host site frame value .useStackDefClassVar) s
      fun _ t => t.Extends allowed G := by
  obtain ⟨tidy, inside⟩ := within.record frame
  cases found : site.classVariable with
  | none =>
    exact .of_run (run_leave_lacking rfl (congrArg Option.isSome found)) (extends_refl family within)
  | some owned =>
    refine (leave_writeClassVariable sane owned found).mono fun r t done => ?_
    cases stack : (s.recordOf frame).stack with
    | nil =>
      rw [stack] at done
      exact extends_record family within done.2 inside tidy
    | cons top below =>
      rw [stack] at done
      obtain ⟨-, mid, late, popped, written, on⟩ := done
      have values : ∀ node ∈ (s.scopeSlots owned.scope).values, G node :=
        fun node mem => within.nodes node (mem_nodes_of_scope mem)
      exact extends_write valued family within values owned.name stack popped written.frames
        (fun _ => written.nodes) on

theorem extends_readGlobal (unknown : allowed none) (valued : allowed (some value)) :
    Ends (applyLeave tracer host site frame value .useGlobalDefStack) s
      fun _ t => t.Extends allowed G := by
  cases found : site.globalName with
  | none =>
    exact .of_run (run_leave_lacking rfl (congrArg Option.isSome found)) (extends_refl family within)
  | some name =>
    refine (leave_readGlobal sane name found).mono fun r t done => ?_
    obtain ⟨-, mid, read, on⟩ := done
    have values : ∀ node ∈ s.store.globals.values, G node :=
      fun node mem => within.nodes node (mem_nodes.mpr (.inr (.inr (.inr mem))))
    exact extends_read valued family within unknown values name read.frames (fun _ => read.nodes) on

theorem extends_writeGlobal (valued : allowed (some value)) :
    Ends (applyLeave tracer host site frame value .useStackDefGlobal) s
      fun _ t => t.Extends allowed G := by
  obtain ⟨tidy, inside⟩ := within.record frame
  cases found : site.globalName with
  | none =>
    exact .of_run (run_leave_lacking rfl (congrArg Option.isSome found)) (extends_refl family within)
  | some name =>
    refine (leave_writeGlobal sane name found).mono fun r t done => ?_
    cases stack : (s.recordOf frame).stack with
    | nil =>
      rw [stack] at done
      exact extends_record family within done.2 inside tidy
    | cons top below =>
      rw [stack] at done
      obtain ⟨-, mid, late, popped, written, on⟩ := done
      have values : ∀ node ∈ s.store.globals.values, G node :=
        fun node mem => within.nodes node (mem_nodes.mpr (.inr (.inr (.inr mem))))
      exact extends_write valued family within values name stack popped written.frames
        (fun _ => written.nodes) on

theorem extends_writeProperty (valued : allowed (some value)) :
    Ends (applyLeave tracer host site frame value .useStackDefPropertyStack) s
      fun _ t => t.Extends allowed G := by
  obtain ⟨tidy, inside⟩ := within.record frame
  cases found : site.property with
  | none =>
    exact .of_run (run_leave_lacking rfl (congrArg Option.isSome found)) (extends_refl family within)
  | some name =>
    rcases run : (takeReceiver site (.writeWithoutReceiver site.id site.label)).run.run
      (s.recordOf frame, s.nextSeq) with ⟨operands, record, next⟩
    obtain ⟨tidyLeft, rfl⟩ := tidy_of_takeReceiver tidy run
    obtain ⟨-, left, taken⟩ := nodes_of_takeReceiver run
    have leftInside : ∀ node ∈ record.nodes, G node := fun node mem => inside node (left node mem)
    refine (leave_assignProperty sane name found run).mono fun r t done => ?_
    cases operands with
    | error fault => exact extends_record family within done.2 leftInside tidyLeft
    | ok operands =>
      obtain ⟨receiver, others⟩ := operands
      obtain ⟨-, mid, late, popped, written, on⟩ := done
      let node := site.node s.nextSeq value (receiver :: others)
      have mids : mid.Within G := within.onRecord popped (fun _ => id) leftInside tidyLeft
      have between : late.Within (Node.With G node) := by
        cases behind : objectBehind host receiver with
        | none =>
          rw [behind] at written
          exact (mids.of_store written.1).mono fun _ => .inl
        | some object =>
          rw [behind] at written
          refine mids.onSlots written.frames (fun _ => .inl) fun other mem => ?_
          refine (written.nodes mem).imp_left fun inSlots => ?_
          rcases Dict.mem_values_set inSlots with rfl | old
          · exact .inr rfl
          · exact .inl (within.nodes other (mem_nodes_of_object old))
      refine ⟨Node.With G node, fun _ => .inl, ?_, between.onRecord on (fun _ => id)
        (fun other mem => ?_) (tidyLeft.push rfl)⟩
      · rw [on.nextSeq]
        exact family.add rfl (fun o mem => inside o (taken _ _ rfl o mem))
          (Option.some_ne_none _) valued
      · rcases Record.nodes_push mem with rfl | mem
        · exact .inr rfl
        · exact .inl (leftInside other mem)

theorem extends_readProperty (unknown : allowed none) (valued : allowed (some value)) :
    Ends (applyLeave tracer host site frame value .usePropertyStackDefStack) s
      fun _ t => t.Extends allowed G := by
  obtain ⟨tidy, inside⟩ := within.record frame
  cases found : site.property with
  | none =>
    exact .of_run (run_leave_lacking rfl (congrArg Option.isSome found)) (extends_refl family within)
  | some name =>
    rcases run : (takeReceiver site (.readWithoutReceiver site.id site.label)).run.run
      (s.recordOf frame, s.nextSeq) with ⟨operands, record, next⟩
    obtain ⟨tidyLeft, rfl⟩ := tidy_of_takeReceiver tidy run
    obtain ⟨-, left, taken⟩ := nodes_of_takeReceiver run
    have leftInside : ∀ node ∈ record.nodes, G node := fun node mem => inside node (left node mem)
    refine (leave_fetchProperty sane name found run).mono fun r t done => ?_
    cases operands with
    | error fault => exact extends_record family within done.2 leftInside tidyLeft
    | ok operands =>
      obtain ⟨receiver, others⟩ := operands
      obtain ⟨-, mid, late, slot, seq, popped, read, on⟩ := done
      have mids : mid.Within G := within.onRecord popped (fun _ => id) leftInside tidyLeft
      -- what the slot holds is in a family that has the nodes of the store after the read
      obtain ⟨G', more, family', origin, between⟩ : ∃ G' : Node K.Value → Prop,
          (∀ a, G a → G' a) ∧ Node.Family allowed G' seq ∧ G' slot ∧ late.Within G' := by
        cases behind : objectBehind host receiver with
        | none =>
          rw [behind] at read
          obtain ⟨rfl, rfl, store, -⟩ := read
          refine ⟨Node.With G (.unknown s.nextSeq), fun _ => .inl, ?_, .inr rfl, ?_⟩
          · exact family.add rfl nofun (.unknown _) unknown
          · exact (mids.of_store store).mono fun _ => .inl
        | some object =>
          rw [behind] at read
          obtain ⟨rfl, rfl, read⟩ := read
          have values : ∀ node ∈ (s.objectSlots object).values, G node :=
            fun node mem => within.nodes node (mem_nodes_of_object mem)
          obtain ⟨G', more, family', origin, inSlots⟩ := family_current unknown family values name
          refine ⟨G', more, family', origin, mids.onSlots read.frames more fun node mem => ?_⟩
          exact (read.nodes mem).imp_left (inSlots node)
      refine extends_push valued more family' between (fun node mem => more node (leftInside node mem))
        tidyLeft (fun o mem => ?_) on
      rcases List.mem_append.mp mem with operand | last
      · exact more o (inside o (taken _ _ rfl o operand))
      · exact List.mem_singleton.mp last ▸ origin

theorem extends_bindArgument (unknown : allowed none) (valued : allowed (some value)) :
    Ends (applyLeave tracer host site frame value .useArgDefStack) s
      fun _ t => t.Extends allowed G := by
  obtain ⟨tidy, inside⟩ := within.record frame
  cases found : site.argument with
  | none =>
    exact .of_run (run_leave_lacking rfl (congrArg Option.isSome found)) (extends_refl family within)
  | some slot =>
    refine (leave_bindArgument sane slot found).mono fun r t done => ?_
    cases known : callerRecord? host s frame with
    | none =>
      rw [known] at done
      have family' : Node.Family allowed (Node.With G (.unknown s.nextSeq)) (s.nextSeq + 1) :=
        family.add rfl nofun (.unknown s.nextSeq) unknown
      exact extends_push valued (fun _ => .inl) family' (within.mono fun _ => .inl)
        (fun node mem => .inl (inside node mem)) tidy
        (fun o mem => .inr (List.mem_singleton.mp mem)) done.2
    | some caller =>
      rw [known] at done
      dsimp only at done
      cases peeked : caller.peekAt (argumentTotal host frame slot - (slot.index + 1)) with
      | error fault =>
        rw [peeked] at done
        exact extends_same family within done.2
      | ok origin =>
        rw [peeked] at done
        have old : G origin := by
          obtain ⟨f, -, there⟩ := Option.bind_eq_some_iff.mp known
          have onStack : origin ∈ caller.stack := by
            unfold Record.peekAt at peeked
            split at peeked
            · next there =>
              cases peeked
              exact List.mem_of_getElem? there
            · cases peeked
          refine within.nodes origin (mem_nodes_of_record f ?_)
          rw [recordOf_eq there]
          exact Record.mem_nodes.mpr (.inl onStack)
        exact extends_push valued (fun _ => id) family within inside tidy
          (fun o mem => List.mem_singleton.mp mem ▸ old) done.2

theorem extends_boundary :
    Ends (applyLeave tracer host site frame value .functionBoundary) s
      fun _ t => t.Extends allowed G := by
  obtain ⟨tidy, inside⟩ := within.record frame
  refine (leave_boundary sane).mono fun r t done => ?_
  cases handed : handedBack? host s frame with
  | none =>
    rw [handed] at done
    exact extends_same family within done.2
  | some both =>
    obtain ⟨caller, node⟩ := both
    rw [handed] at done
    obtain ⟨-, mid, took, gave⟩ := done
    obtain ⟨-, one⟩ := handedBack?_eq handed
    have onStack : node ∈ (s.recordOf frame).stack := one ▸ List.mem_singleton.mpr rfl
    have mids : mid.Within G := within.onRecord took (fun _ => id)
      (fun other mem => inside other (Record.nodes_drop [node] one mem)) (tidy_drop tidy one)
    obtain ⟨tidyCaller, insideCaller⟩ := mids.record caller
    refine extends_record family mids gave (fun other mem => ?_)
      (tidyCaller.push (tidy.stack node onStack))
    rcases Record.nodes_push mem with rfl | mem
    · exact inside other (Record.mem_nodes.mpr (.inl onStack))
    · exact insideCaller other mem

/-- Every rule applied on return makes its nodes from nodes that are there. -/
theorem extends_leave (unknown : allowed none) (valued : allowed (some value))
    (category : Category) :
    Ends (applyLeave tracer host site frame value category) s
      fun _ t => t.Extends allowed G := by
  obtain ⟨tidy, inside⟩ := within.record frame
  cases category with
  | functionBoundary => exact extends_boundary sane family within
  | noUseDefStack =>
    refine (leave_noUse sane).mono fun r t done => ?_
    exact extends_push valued (fun _ => id) family within inside tidy
      (show ∀ o ∈ [], G o from nofun) done.2
  | useStackDefStack => exact extends_operands sane family within valued
  | useLocalDefStack => exact extends_readLocal sane family within unknown valued
  | useStackDefLocalStack => exact extends_writeLocal sane family within valued
  | useArgDefStack => exact extends_bindArgument sane family within unknown valued
  | useStackDefPropertyStack => exact extends_writeProperty sane family within valued
  | usePropertyStackDefStack => exact extends_readProperty sane family within unknown valued
  | useStackDefReturn => exact extends_refl family within
  | useClassVarDefStack => exact extends_readClassVariable sane family within unknown valued
  | useStackDefClassVar => exact extends_writeClassVariable sane family within valued
  | useGlobalDefStack => exact extends_readGlobal sane family within unknown valued
  | useStackDefGlobal => exact extends_writeGlobal sane family within valued
  | callNode => exact extends_same family within ⟨rfl, rfl⟩

/-! ### On enter and unwind -/

theorem extends_enter (category : Category) :
    Ends (applyEnter host site frame category) s
      fun _ t => t.Extends allowed G := by
  obtain ⟨tidy, inside⟩ := within.record frame
  by_cases boundary : category = .functionBoundary
  · subst boundary
    refine (enter_boundary sane).mono fun r t done => ?_
    exact extends_record family within done.2
      (fun node mem => absurd mem (Record.nodes_empty node)) .empty
  · cases marking : category.marksDepth with
    | true =>
      refine (enter_marking sane marking).mono fun r t done => ?_
      exact extends_record family within done.2 inside (tidy.of_stack (fun _ => id) rfl rfl)
    | false =>
      refine (enter_other boundary marking).mono ?_
      rintro r t ⟨-, rfl⟩
      exact extends_refl family within

theorem extends_unwind (exception : String) (category : Category) :
    Ends (applyUnwind host site frame exception category) s
      fun _ t => t.Extends allowed G := by
  obtain ⟨tidy, inside⟩ := within.record frame
  by_cases isReturn : category = .useStackDefReturn
  · subst isReturn
    refine (unwind_return sane exception).mono fun r t done => ?_
    cases stack : (s.recordOf frame).stack with
    | nil =>
      rw [stack] at done
      exact extends_record family within done.2 inside tidy
    | cons top below =>
      rw [stack] at done
      obtain ⟨-, on⟩ := done
      have onStack : top ∈ (s.recordOf frame).stack := stack ▸ List.mem_cons_self
      have used : G top := inside top (Record.mem_nodes.mpr (.inl onStack))
      -- the value is that of the operand, which is not unknown
      have value : top.value ≠ none := by
        have known := tidy.stack top onStack
        have formed := family.formed top used
        rw [formed.isUnknown] at known
        unfold Node.Formed at formed
        cases creator : top.creator with
        | none =>
          rw [creator] at known
          cases known
        | some _ =>
          rw [creator] at formed
          exact formed
      let node : Node K.Value := ⟨s.nextSeq, creatorOf site, top.value, [top]⟩
      refine ⟨Node.With G node, fun _ => .inl, ?_, ?_⟩
      · rw [on.nextSeq]
        exact family.add rfl (fun o mem => List.mem_singleton.mp mem ▸ used) value
          (family.allows top used)
      · refine within.onRecord on (fun _ => .inl) (fun other mem => ?_)
          (((tidy_drop tidy stack).push rfl).setResult rfl)
        rcases Record.nodes_setResult mem with rfl | mem
        · exact .inr rfl
        · rcases Record.nodes_push mem with rfl | mem
          · exact .inr rfl
          · exact .inl (inside other (Record.nodes_drop [top] stack mem))
  · cases marking : category.marksDepth with
    | true =>
      refine (unwind_marking sane marking exception).mono fun r t done => ?_
      cases found : s.record? frame with
      | none =>
        rw [found] at done
        exact extends_same family within done.2
      | some record =>
        rw [found] at done
        rw [recordOf_eq found] at tidy inside
        exact extends_record family within done.2 inside (tidy.of_stack (fun _ => id) rfl rfl)
    | false =>
      refine (unwind_other isReturn marking exception).mono fun r t done => ?_
      exact extends_same family within done.2

end Rules

end Tracer

/-! ### Whatever happens -/

open Shadow

variable {K : Kinds} {tracer : Tracer} {allowed : Option K.Value → Prop} {G : Node K.Value → Prop}

/-- Whatever is told at a checkpoint, each of its rules makes its nodes from nodes that are there. -/
theorem Tracer.extends_rule {host : Host K} {c : Checkpoint K} {s : Shadow K} (sane : s.Unpoisoned)
    (unknown : allowed none) (valued : ∀ v, c.moment = .leave v → allowed (some v))
    (family : Node.Family allowed G s.nextSeq) (within : s.Within G) (category : Category) :
    Ends (tracer.rule host c category) s fun _ t => t.Extends allowed G := by
  obtain ⟨site, frame, moment⟩ := c
  cases moment with
  | enter => exact extends_enter sane family within category
  | leave value => exact extends_leave sane family within unknown (valued value rfl) category
  | unwind exception => exact extends_unwind sane family within exception category

/-- What the rules keep is kept at a checkpoint as a whole. -/
theorem Tracer.ends_react {P : Shadow K → Prop} {host : Host K} {c : Checkpoint K}
    (same : ∀ s t, SameState s t → P s → P t)
    (rule : ∀ category s, P s → Ends (tracer.rule host c category) s fun _ t => P t) {s : Shadow K}
    (start : P s) : Ends (tracer.react host c) s fun _ t => P t := by
  have rules : ∀ (categories : List Category) (s : Shadow K), P s →
      Ends (categories.forM fun category =>
        ExceptT.adapt (·.atSite c.site.id) (tracer.rule host c category)) s fun _ t => P t := by
    intro categories
    induction categories with
    | nil => exact fun _ => id
    | cons category rest ih =>
      intro s before
      rw [ends_rules_cons]
      refine (rule category s before).mono fun r t after => ?_
      cases r with
      | ok _ => exact ih t after
      | error _ => exact after
  unfold Ends
  rw [run_react]
  exact rules _ _ (same _ _ (sameState_noted s c) start)

/-- At a checkpoint the graph stays well formed, and the values of its nodes stay among those allowed
    if the one that is told is allowed. -/
theorem Tracer.react_wellFormed {host : Host K} {c : Checkpoint K} {s : Shadow K}
    (sane : s.Unpoisoned) (h : s.WellFormed)
    (allows : ∀ a, Node.Reached s.store.nodes a → allowed a.value) (unknown : allowed none)
    (valued : ∀ v, c.moment = .leave v → allowed (some v)) :
    Ends (tracer.react host c) s fun _ t =>
      t.WellFormed ∧ ∀ a, Node.Reached t.store.nodes a → allowed a.value := by
  let P : Shadow K → Prop := fun t => t.Unpoisoned ∧ t.Extends allowed fun _ => False
  have start : P s := ⟨sane, _, fun _ => False.elim, h.family allows, h.within⟩
  refine (Tracer.ends_react (P := P) ?_ ?_ start).mono fun _ t ⟨_, extends'⟩ => ?_
  · rintro s t same ⟨sane, G, more, family, within⟩
    exact ⟨same.unpoisoned sane, G, more, by rwa [same.2], within.of_store same.1⟩
  · rintro category s ⟨sane, G, -, family, within⟩
    rcases ran : (tracer.rule host c category).run.run s with ⟨done, t⟩
    have valid : (⟨.rule host c category, s, done.isOk, t⟩ : Step K).Valid tracer := by
      simp only [Step.Valid, ran, and_self]
    obtain ⟨G', -, rest⟩ := Tracer.extends_rule sane unknown valued family within category
    rw [ran] at rest
    unfold Ends
    rw [ran]
    exact ⟨(Step.keeps valid sane).1, G', fun _ => False.elim, rest⟩
  · refine ⟨extends'.wellFormed, fun a there => ?_⟩
    obtain ⟨G, -, family, within⟩ := extends'
    exact family.allows a (family.reached within.nodes there)

/-- Whatever a step does, it makes its nodes from nodes that are there. -/
theorem Step.extends {step : Step K} (valid : step.Valid tracer) (sane : step.before.Unpoisoned)
    (family : Node.Family (fun _ => True) G step.before.nextSeq) (within : step.before.Within G) :
    step.after.Extends (fun _ => True) G := by
  obtain ⟨deed, before, done, after⟩ := step
  cases deed with
  | sweep host =>
    simp only [Valid] at valid
    obtain ⟨-, rfl⟩ := valid
    refine ⟨G, fun _ => id, family, fun node mem => within.nodes node (before.nodes_sweep host mem),
      fun r mem => within.tidy r (Table.contents_sweep _ _ mem)⟩
  | release frame =>
    simp only [Valid] at valid
    obtain ⟨-, rfl⟩ := valid
    refine ⟨G, fun _ => id, family, fun node mem => ?_, fun r mem => ?_⟩
    · rw [mem_nodes] at mem
      refine within.nodes node (mem_nodes.mpr (mem.imp_left ?_))
      rintro ⟨r, there, inside⟩
      exact ⟨r, Table.contents_remove _ _ there, inside⟩
    · exact within.tidy r (Table.contents_remove _ _ mem)
  | rule host c category =>
    simp only [Valid] at valid
    obtain ⟨rfl, -⟩ := valid
    exact Tracer.extends_rule sane trivial (fun _ _ => trivial) family within category

/-- An empty store has no nodes. -/
theorem Shadow.extends_ofInterval (interval nextSeq : Nat) (log : Log) :
    (⟨.ofInterval interval, nextSeq, log⟩ : Shadow K).Extends (fun _ => True) fun _ => False :=
  ⟨fun _ => False, fun _ => id, .none, nofun, nofun⟩

/-- From an empty store on, whatever checkpoints the tracer is told of, on whatever frames and sites,
    refused ones included, and whenever its store is swept or a frame is released in between: the
    graph that the store reaches is well formed. -/
theorem Shadow.wellFormed_afterAll (tracer : Tracer) (interval nextSeq : Nat) (log : Log)
    (acts : List (Act K)) :
    ((⟨.ofInterval interval, nextSeq, log⟩ : Shadow K).afterAll tracer acts).WellFormed := by
  let P : List (Step K) → Shadow K → Prop := fun _ t =>
    t.Unpoisoned ∧ t.Extends (fun _ => True) fun _ => False
  have start : P [] (⟨.ofInterval interval, nextSeq, log⟩ : Shadow K) :=
    ⟨unpoisoned_ofInterval interval nextSeq log, extends_ofInterval interval nextSeq log⟩
  have same : ∀ past s t, SameState s t → P past s → P past t := by
    rintro past s t same ⟨sane, G, more, family, within⟩
    exact ⟨same.unpoisoned sane, G, more, by rwa [same.2], within.of_store same.1⟩
  have next : ∀ past step, step.Valid tracer → P past step.before →
      P (past ++ [step]) step.after := by
    rintro past step valid ⟨sane, G, -, family, within⟩
    obtain ⟨G', -, rest⟩ := Step.extends valid sane family within
    exact ⟨(Step.keeps valid sane).1, G', fun _ => False.elim, rest⟩
  exact (Shadow.along same next acts [] _ start).2.2.wellFormed

end Lineage
