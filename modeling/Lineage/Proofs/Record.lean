import Lineage.Proofs.Outcome
import Lineage.Tracer

/-!
# Work on one record

What the parts of the rules do to the one record they work on. The operands of a site are what lies on
the stack above the depth it noted on enter; taking them leaves the stack as the site found it.
-/

namespace Lineage

variable {K : Kinds} {V α : Type}

/-- The node that a site builds for a value. -/
def Site.node (site : Site K) (seq : Nat) (value : K.Value) (origins : List (Node K.Value)) :
    Node K.Value :=
  ⟨seq, Tracer.creatorOf site, some value, origins⟩

namespace RecordM

theorem ends_take (step : Record V → Except Fault (α × Record V)) (r : Record V) (n : Nat)
    (post : Except Fault α → Record V × Nat → Prop) :
    Ends (take step) (r, n) post ↔
      match step r with
      | .ok (a, rest) => post (.ok a) (rest, n)
      | .error fault => post (.error fault) (r, n) := by
  unfold take
  rw [ends_bind, ends_get]
  dsimp only
  rcases step r with fault | ⟨a, rest⟩
  · exact ends_throw ..
  · rw [ends_bind, ends_set, ends_pure]

theorem run_take (step : Record V → Except Fault (α × Record V)) (r : Record V) (n : Nat) :
    (take step).run.run (r, n) =
      match step r with
      | .ok (a, rest) => (.ok a, rest, n)
      | .error fault => (.error fault, r, n) := by
  change Ends (take step) (r, n) fun outcome rest => (outcome, rest) = _
  rw [ends_take]
  rcases step r with fault | ⟨a, rest⟩ <;> rfl

theorem run_change (step : Record V → Record V) (r : Record V) (n : Nat) :
    (change step).run.run (r, n) = (.ok (), step r, n) := rfl

end RecordM

namespace Record

@[simp] theorem push_stack (r : Record V) (node : Node V) : (r.push node).stack = node :: r.stack :=
  rfl
@[simp] theorem push_histories (r : Record V) (node : Node V) :
    (r.push node).histories = r.histories := rfl
@[simp] theorem push_result (r : Record V) (node : Node V) : (r.push node).result = r.result := rfl
@[simp] theorem push_marks (r : Record V) (node : Node V) : (r.push node).marks = r.marks := rfl
@[simp] theorem write_stack (r : Record V) (name : String) (node : Node V) :
    (r.write name node).stack = r.stack := rfl
@[simp] theorem write_result (r : Record V) (name : String) (node : Node V) :
    (r.write name node).result = r.result := rfl
@[simp] theorem write_marks (r : Record V) (name : String) (node : Node V) :
    (r.write name node).marks = r.marks := rfl
@[simp] theorem setResult_stack (r : Record V) (node : Node V) :
    (r.setResult node).stack = r.stack := rfl
@[simp] theorem setResult_histories (r : Record V) (node : Node V) :
    (r.setResult node).histories = r.histories := rfl
@[simp] theorem setResult_marks (r : Record V) (node : Node V) :
    (r.setResult node).marks = r.marks := rfl
@[simp] theorem mark_stack (r : Record V) (site : SiteId) : (r.mark site).stack = r.stack := rfl
@[simp] theorem mark_histories (r : Record V) (site : SiteId) :
    (r.mark site).histories = r.histories := rfl
@[simp] theorem mark_result (r : Record V) (site : SiteId) : (r.mark site).result = r.result := rfl
@[simp] theorem mark_marks (r : Record V) (site : SiteId) :
    (r.mark site).marks = ⟨site, r.stack.length⟩ :: r.marks := rfl
@[simp] theorem unmark_stack (r : Record V) (site : SiteId) : (r.unmark site).stack = r.stack := rfl
@[simp] theorem unmark_histories (r : Record V) (site : SiteId) :
    (r.unmark site).histories = r.histories := rfl
@[simp] theorem unmark_result (r : Record V) (site : SiteId) :
    (r.unmark site).result = r.result := rfl

/-- Forgetting the mark made last leaves the marks from before. -/
theorem unmark_marks_cons {r : Record V} {site : SiteId} {depth : Nat} {marks : List DepthMark}
    (h : r.marks = ⟨site, depth⟩ :: marks) : (r.unmark site).marks = marks := by
  simp [unmark, h]

/-! ### Histories -/

theorem history_write (r : Record V) (name other : String) (node : Node V) :
    (r.write name node).histories.getD other [] =
      if name = other then node :: r.histories.getD name [] else r.histories.getD other [] := by
  by_cases h : name = other <;> simp [write, Dict.getD, Dict.get?_set, h]

@[simp] theorem current_stack (r : Record V) (name : String) (fresh : Nat) :
    (r.current name fresh).2.2.stack = r.stack := by
  unfold current; split <;> rfl
@[simp] theorem current_result (r : Record V) (name : String) (fresh : Nat) :
    (r.current name fresh).2.2.result = r.result := by
  unfold current; split <;> rfl
@[simp] theorem current_marks (r : Record V) (name : String) (fresh : Nat) :
    (r.current name fresh).2.2.marks = r.marks := by
  unfold current; split <;> rfl

theorem current_of_cons {r : Record V} {name : String} {node : Node V} {older : List (Node V)}
    (h : r.histories.getD name [] = node :: older) (fresh : Nat) :
    r.current name fresh = (node, fresh, r) := by
  unfold current; rw [h]

theorem current_of_nil {r : Record V} {name : String} (h : r.histories.getD name [] = [])
    (fresh : Nat) :
    r.current name fresh = (.unknown fresh, fresh + 1, r.write name (.unknown fresh)) := by
  unfold current; rw [h]

/-! ### Nodes -/

theorem mem_nodes {r : Record V} {node : Node V} :
    node ∈ r.nodes ↔ node ∈ r.stack ∨ (∃ history ∈ r.histories.values, node ∈ history) ∨
      r.result = some node := by
  simp [nodes]

theorem nodes_empty (node : Node V) : node ∉ ({} : Record V).nodes := by
  simp [nodes, Dict.values]

theorem mem_nodes_of_history {r : Record V} {name : String} {node : Node V}
    (h : node ∈ r.histories.getD name []) : node ∈ r.nodes := by
  unfold Dict.getD at h
  cases found : r.histories.get? name with
  | none => simp [found] at h
  | some history =>
    rw [found] at h
    exact mem_nodes.mpr (.inr (.inl ⟨history, Dict.mem_values_of_get? found, h⟩))

theorem nodes_push {r : Record V} {node other : Node V} (h : other ∈ (r.push node).nodes) :
    other = node ∨ other ∈ r.nodes := by
  rcases mem_nodes.mp h with onStack | rest
  · exact (List.mem_cons.mp onStack).imp id fun mem => mem_nodes.mpr (.inl mem)
  · exact .inr (mem_nodes.mpr (.inr rest))

theorem nodes_write {r : Record V} {name : String} {node other : Node V}
    (h : other ∈ (r.write name node).nodes) : other = node ∨ other ∈ r.nodes := by
  rcases mem_nodes.mp h with onStack | ⟨history, mem, inside⟩ | result
  · exact .inr (mem_nodes.mpr (.inl onStack))
  · rcases Dict.mem_values_set mem with rfl | mem
    · exact (List.mem_cons.mp inside).imp id mem_nodes_of_history
    · exact .inr (mem_nodes.mpr (.inr (.inl ⟨history, mem, inside⟩)))
  · exact .inr (mem_nodes.mpr (.inr (.inr result)))

theorem nodes_setResult {r : Record V} {node other : Node V}
    (h : other ∈ (r.setResult node).nodes) : other = node ∨ other ∈ r.nodes := by
  rcases mem_nodes.mp h with onStack | history | result
  · exact .inr (mem_nodes.mpr (.inl onStack))
  · exact .inr (mem_nodes.mpr (.inr (.inl history)))
  · exact .inl (Option.some.inj result).symm

/-- Operands taken off leave the other nodes. -/
theorem nodes_drop {r : Record V} (taken : List (Node V)) {below : List (Node V)}
    {marks : List DepthMark} {other : Node V} (stack : r.stack = taken ++ below)
    (h : other ∈ ({ r with stack := below, marks } : Record V).nodes) : other ∈ r.nodes := by
  rcases mem_nodes.mp h with onStack | rest
  · exact mem_nodes.mpr (.inl (stack ▸ List.mem_append_right _ onStack))
  · exact mem_nodes.mpr (.inr rest)

/-- Reading a local may start its history. -/
theorem nodes_current {r : Record V} {name : String} {fresh : Nat} {other : Node V}
    (h : other ∈ (r.current name fresh).2.2.nodes) :
    other = (r.current name fresh).1 ∨ other ∈ r.nodes := by
  unfold current at h ⊢
  split at h
  · exact .inr h
  · exact nodes_write h

end Record

namespace Tracer

/-- The operands of a site: all that was pushed since its innermost mark, which is used up. -/
theorem run_takeOperands (site : Site K) (r : Record K.Value) (n : Nat) :
    (takeOperands site).run.run (r, n) =
      match r.mark? site.id with
      | none => (.error (.violation (.noDepthMark site.id)), r, n)
      | some mark =>
          if r.depth < mark.depth then
            (.error (.violation (.belowEntryDepth site.id site.label r.depth mark.depth)),
              r.unmark site.id, n)
          else
            (.ok (r.stack.take (r.depth - mark.depth)),
              { r.unmark site.id with stack := r.stack.drop (r.depth - mark.depth) }, n) := by
  change Ends (takeOperands site) (r, n) fun outcome rest => (outcome, rest) = _
  unfold takeOperands
  rw [ends_bind, RecordM.ends_take]
  cases found : r.mark? site.id with
  | none => simp only [Record.takeMark, found]
  | some mark =>
    simp only [Record.takeMark, found, ends_bind, ends_get]
    have depth : (r.unmark site.id).depth = r.depth := rfl
    simp only [depth]
    split
    · rw [ends_bind, ends_throw]
    · next enough =>
      have taken : ((r.unmark site.id).stack.take (r.depth - mark.depth)).length =
          r.depth - mark.depth := by
        simp [Record.depth]
      simp only [RecordM.ends_take, Record.popMany, taken, Nat.lt_irrefl, if_false]
      rfl

/-- The operands of a site whose mark is the innermost one: those above the marked depth. -/
theorem run_takeOperands_of_marks {site : Site K} {r : Record K.Value}
    {operands below : List (Node K.Value)} {marks : List DepthMark}
    (marked : r.marks = ⟨site.id, below.length⟩ :: marks) (stack : r.stack = operands ++ below)
    (n : Nat) :
    (takeOperands site).run.run (r, n) = (.ok operands, { r with stack := below, marks }, n) := by
  have found : r.mark? site.id = some ⟨site.id, below.length⟩ := by
    simp [Record.mark?, marked]
  have depth : r.depth = operands.length + below.length := by simp [Record.depth, stack]
  have unmarked : r.unmark site.id = { r with marks } := by
    simp [Record.unmark, marked]
  rw [run_takeOperands, found]
  simp only [depth, Nat.not_lt.mpr (Nat.le_add_left below.length operands.length), if_false,
    Nat.add_sub_cancel, unmarked, stack, List.take_left', List.drop_left']

/-- What taking operands leaves alone, and that it gives up what it takes. -/
theorem takeOperands_keeps (site : Site K) (r : Record K.Value) (n : Nat) :
    Ends (takeOperands site) (r, n) fun outcome rest =>
      rest.1.histories = r.histories ∧ rest.1.result = r.result ∧ rest.2 = n ∧
        match outcome with
        | .ok operands => operands ++ rest.1.stack = r.stack
        | .error _ => rest.1.stack = r.stack := by
  rw [Ends, run_takeOperands]
  split
  · exact ⟨rfl, rfl, rfl, rfl⟩
  · split
    · exact ⟨rfl, rfl, rfl, rfl⟩
    · exact ⟨rfl, rfl, rfl, List.take_append_drop _ _⟩

theorem run_takeReceiver (site : Site K) (absent : Violation) (r : Record K.Value) (n : Nat) :
    (takeReceiver site absent).run.run (r, n) =
      match (takeOperands site).run.run (r, n) with
      | (.ok (receiver :: others), rest) => (.ok (receiver, others), rest)
      | (.ok [], rest) => (.error (.violation absent), rest)
      | (.error fault, rest) => (.error fault, rest) := by
  unfold takeReceiver
  rw [run_bind]
  rcases (takeOperands site).run.run (r, n) with ⟨fault | _ | ⟨receiver, others⟩, rest⟩ <;> rfl

/-- The topmost operand becomes the origin of a node that is not pushed yet. -/
theorem run_popInto (site : Site K) (value : K.Value) (r : Record K.Value) (n : Nat) :
    (popInto site value).run.run (r, n) =
      match r.stack with
      | [] => (.error (.underflow none 1 0), r, n)
      | top :: below => (.ok (site.node n value [top]), { r with stack := below }, n + 1) := by
  change Ends (popInto site value) (r, n) fun outcome rest => (outcome, rest) = _
  unfold popInto
  rw [ends_bind, RecordM.ends_take]
  unfold Record.pop
  rcases r.stack with _ | ⟨top, below⟩ <;> rfl

end Tracer

end Lineage
