import Lineage.Proofs.Slots

/-!
# Which slot a rule reads or writes

The slot that a rule has used can be told from the node that it has pushed: `Tracer.accessOf`. For
every rule, whatever its outcome, `Effect` says that this slot has become what the rule made of it and
that no other slot has got another node.
-/

namespace Lineage

/-- What has been done to the slots. -/
inductive Access (K : Kinds) where
  | nothing
  | reads (slot : Slot K) (origin : Node K.Value)
  | writes (slot : Slot K) (node : Node K.Value)
  /-- The locals of a frame have been given up. -/
  | resets (frame : K.Frame)

namespace Access

variable {K : Kinds}

def Touches : Access K → Slot K → Prop
  | reads slot _, x => x = slot
  | writes slot _, x => x = slot
  | resets frame, .frameLocal f _ => f = frame
  | _, _ => False

/-- What a read has found is what was there, or an unknown node put there by the read. -/
def Done (access : Access K) (s t : Shadow K) : Prop :=
  match access with
  | nothing => True
  | reads slot origin => t.current slot = some origin ∧
      (s.current slot = some origin ∨ s.current slot = none ∧ ∃ seq, origin = .unknown seq)
  | writes slot node => t.current slot = some node
  | resets frame => ∀ name, t.current (.frameLocal frame name) = none

end Access

namespace Category

/-- Sites of the category produce the value of a slot. -/
def readsSlot : Category → Bool
  | useLocalDefStack | usePropertyStackDefStack | useClassVarDefStack | useGlobalDefStack => true
  | _ => false

end Category

namespace Tracer

open Shadow

variable {K : Kinds}

/-- The slot that the rule of a category has used, where `node` is what it has pushed. -/
def slotOf (host : Host K) (site : Site K) (frame : K.Frame) (node : Node K.Value) :
    Category → Option (Slot K)
  | .useLocalDefStack | .useStackDefLocalStack => site.localSlot.map (.frameLocal frame)
  | .usePropertyStackDefStack | .useStackDefPropertyStack => do
      let name ← site.property
      let object ← node.origins.head?.bind (objectBehind host)
      return .property object name
  | .useClassVarDefStack | .useStackDefClassVar =>
      site.classVariable.map fun owned => .classVariable owned.scope owned.name
  | .useGlobalDefStack | .useStackDefGlobal => site.globalName.map .global
  | _ => none

/-- The origin that stands for the slot that was read: the last one of a property read, the only one
    of any other. -/
def slotOrigin (category : Category) (node : Node K.Value) : Option (Node K.Value) :=
  if category = .usePropertyStackDefStack then node.origins.getLast?
  else match node.origins with
    | [origin] => some origin
    | _ => none

/-- What the rule of a category has done to the slots, by the node on top of the stack afterwards. -/
def accessOf (host : Host K) (site : Site K) (frame : K.Frame) (category : Category)
    (after : Shadow K) : Access K :=
  match (after.recordOf frame).stack with
  | [] => .nothing
  | node :: _ =>
      match slotOf host site frame node category with
      | none => .nothing
      | some slot =>
          if category.readsSlot then
            match slotOrigin category node with
            | some origin => .reads slot origin
            | none => .nothing
          else .writes slot node

/-- A change within the reach of a rule of `site`, of which `access` tells what it has done to the
    slots. -/
def Effect (host : Host K) (site : Site K) (frame : K.Frame) (value : Option K.Value)
    (access : Access K) (s t : Shadow K) : Prop :=
  ∃ reach : Reach K, reach.value = value ∧ (∀ f, reach.frame = some f → f = frame) ∧
    (∀ o, reach.object = some o → ∃ node ∈ s.store.nodes, objectBehind host node = some o) ∧
    (∀ c, reach.scope = some c → site.classVariable.map (·.scope) = some c) ∧
    Moves host reach access.Touches s t ∧ (∀ x, access.Touches x → reach.Near x) ∧ access.Done s t

variable {tracer : Tracer} {host : Host K} {site : Site K} {frame : K.Frame} {value : K.Value}
  {s t u : Shadow K}

/-- No slot has got another node. -/
theorem effect_nothing {v : Option K.Value}
    (moves : Moves host { frame := some frame, value := v } (fun _ => False) s t) :
    Effect host site frame v .nothing s t := by
  refine ⟨{ frame := some frame, value := v }, rfl, ?_, nofun, nofun, moves, nofun, trivial⟩
  exact fun f own => (Option.some.inj own).symm

theorem effect_same {v : Option K.Value} (sane : s.Unpoisoned) (same : SameState s t) :
    Effect host site frame v .nothing s t := effect_nothing (.of_store sane same.1)

/-- A record whose histories are what they were. -/
theorem moves_record {reach : Reach K} {touched : Slot K → Prop}
    {record : Record K.Value} {n : Nat} (on : OnRecord host.MayDrop frame s t record n)
    (sane : s.Unpoisoned) (own : reach.frame = some frame)
    (histories : record.histories = (s.recordOf frame).histories)
    (nodes : ∀ node ∈ record.nodes, reach.Known s node) : Moves host reach touched s t :=
  .of_onRecord on sane own (fun name _ => by rw [histories]; rfl) nodes

/-- The access of a rule that has pushed `node`. -/
theorem accessOf_eq {dead : K.Frame → Prop} {record : Record K.Value} {node : Node K.Value} {n : Nat}
    (on : OnRecord dead frame s t (record.push node) n) (category : Category) :
    accessOf host site frame category t =
      match slotOf host site frame node category with
      | none => .nothing
      | some slot =>
          if category.readsSlot then
            match slotOrigin category node with
            | some origin => .reads slot origin
            | none => .nothing
          else .writes slot node := by
  unfold accessOf
  rw [on.recordOf]
  rfl

theorem known_value {reach : Reach K} (own : reach.value = some value) (n : Nat)
    (origins : List (Node K.Value)) : reach.Known s (site.node n value origins) :=
  .inr (.inl own.symm)

/-- A rule of no slot that pushes a node. -/
theorem effect_push {category : Category} {record : Record K.Value} {m n : Nat}
    {origins : List (Node K.Value)} (sane : s.Unpoisoned)
    (on : OnRecord host.MayDrop frame s t (record.push (site.node m value origins)) n)
    (histories : record.histories = (s.recordOf frame).histories)
    (nodes : ∀ node ∈ record.nodes, node ∈ (s.recordOf frame).nodes)
    (none' : ∀ node, slotOf host site frame node category = none) :
    Effect host site frame (some value) (accessOf host site frame category t) s t := by
  rw [accessOf_eq on, none']
  refine effect_nothing (moves_record on sane rfl histories fun node mem => ?_)
  rcases Record.nodes_push mem with rfl | mem
  · exact known_value rfl m origins
  · exact Reach.known_of_record (nodes node mem)

theorem nodes_of_takeOperands {operands : Except Fault (List (Node K.Value))}
    {record record' : Record K.Value} {m n : Nat}
    (run : (takeOperands site).run.run (record, m) = (operands, record', n)) :
    record'.histories = record.histories ∧ (∀ node ∈ record'.nodes, node ∈ record.nodes) ∧
      ∀ taken, operands = .ok taken → ∀ node ∈ taken, node ∈ record.nodes := by
  have keeps := takeOperands_keeps site record m
  rw [Ends, run] at keeps
  obtain ⟨histories, result, -, stack⟩ := keeps
  dsimp only at histories result stack
  have onStack : ∀ node ∈ record'.stack, node ∈ record.stack := by
    intro node mem
    cases operands with
    | ok taken => exact stack ▸ List.mem_append_right _ mem
    | error _ => exact stack ▸ mem
  refine ⟨histories, fun node mem => ?_, ?_⟩
  · rw [Record.mem_nodes] at mem ⊢
    rw [histories, result] at mem
    exact mem.imp_left (onStack node)
  · rintro taken rfl node mem
    exact Record.mem_nodes.mpr (.inl (stack ▸ List.mem_append_left _ mem))

theorem effect_operands (sane : s.Unpoisoned) :
    Ends (applyLeave tracer host site frame value .useStackDefStack) s fun r t =>
      Effect host site frame (some value) (match r with
        | .ok _ => accessOf host site frame .useStackDefStack t
        | .error _ => .nothing) s t := by
  rcases run : (takeOperands site).run.run (s.recordOf frame, s.nextSeq) with
    ⟨operands, record, next⟩
  obtain ⟨histories, nodes, -⟩ := nodes_of_takeOperands run
  refine (leave_operands sane run).mono fun r t done => ?_
  cases operands with
  | error fault =>
    obtain ⟨rfl, on⟩ := done
    exact effect_nothing (moves_record on sane rfl histories fun node mem =>
      Reach.known_of_record (nodes node mem))
  | ok operands =>
    obtain ⟨rfl, on⟩ := done
    exact effect_push sane on histories nodes fun _ => rfl

/-! ### Locals -/

/-- The head of a history after a read, and the heads of the others. -/
theorem current_spec (record : Record K.Value) (name : String) (fresh : Nat) :
    let current := record.current name fresh
    (current.2.2.histories.getD name []).head? = some current.1 ∧
      ((record.histories.getD name []).head? = some current.1 ∨
        (record.histories.getD name []).head? = none ∧ ∃ seq, current.1 = .unknown seq) ∧
      ∀ other, other ≠ name →
        current.2.2.histories.getD other [] = record.histories.getD other [] := by
  cases history : record.histories.getD name [] with
  | nil =>
    rw [Record.current_of_nil history]
    refine ⟨?_, .inr ⟨rfl, fresh, rfl⟩, fun other ne => ?_⟩
    · rw [Record.history_write, if_pos rfl]
      rfl
    · rw [Record.history_write, if_neg (Ne.symm ne)]
  | cons node older =>
    rw [Record.current_of_cons history]
    refine ⟨?_, .inl rfl, fun _ _ => rfl⟩
    rw [history]
    rfl

theorem effect_readLocal (sane : s.Unpoisoned) :
    Ends (applyLeave tracer host site frame value .useLocalDefStack) s fun r t =>
      Effect host site frame (some value) (match r with
        | .ok _ => accessOf host site frame .useLocalDefStack t
        | .error _ => .nothing) s t := by
  cases found : site.localSlot with
  | none =>
    exact .of_run (run_leave_lacking rfl (congrArg Option.isSome found)) (effect_same sane (.refl s))
  | some name =>
    refine (leave_readLocal sane _ found).mono ?_
    rintro r t ⟨rfl, on⟩
    obtain ⟨here, before, others⟩ := current_spec (s.recordOf frame) name s.nextSeq
    have access : accessOf host site frame .useLocalDefStack t =
        .reads (.frameLocal frame name) ((s.recordOf frame).current name s.nextSeq).1 := by
      rw [accessOf_eq on]
      simp [slotOf, found, Category.readsSlot, slotOrigin, Site.node]
    dsimp only
    rw [access]
    refine ⟨{ frame := some frame, value := some value }, rfl,
      fun f own => (Option.some.inj own).symm, nofun, nofun,
      .of_onRecord on sane rfl (fun other untouched => ?_) fun node mem => ?_, ?_, ?_, before⟩
    · refine congrArg List.head? (others other fun same => untouched ?_)
      rw [same]
      rfl
    · rcases Record.nodes_push mem with rfl | mem
      · exact known_value rfl _ _
      · rcases Record.nodes_current mem with rfl | mem
        · rcases before with old | ⟨-, seq, new⟩
          · exact Reach.known_of_record (Record.mem_nodes_of_history (List.mem_of_head? old))
          · rw [new]
            exact .inl rfl
        · exact Reach.known_of_record mem
    · rintro x rfl
      rfl
    · rw [current, on.recordOf]
      exact here

theorem effect_writeLocal (sane : s.Unpoisoned) :
    Ends (applyLeave tracer host site frame value .useStackDefLocalStack) s fun r t =>
      Effect host site frame (some value) (match r with
        | .ok _ => accessOf host site frame .useStackDefLocalStack t
        | .error _ => .nothing) s t := by
  cases found : site.localSlot with
  | none =>
    exact .of_run (run_leave_lacking rfl (congrArg Option.isSome found)) (effect_same sane (.refl s))
  | some name =>
    refine (leave_writeLocal sane _ found).mono fun r t done => ?_
    cases stack : (s.recordOf frame).stack with
    | nil =>
      rw [stack] at done
      obtain ⟨rfl, on⟩ := done
      exact effect_nothing (moves_record on sane rfl rfl fun _ => Reach.known_of_record)
    | cons top below =>
      rw [stack] at done
      obtain ⟨rfl, on⟩ := done
      have access : accessOf host site frame .useStackDefLocalStack t =
          .writes (.frameLocal frame name) (site.node s.nextSeq value [top]) := by
        rw [accessOf_eq on]
        simp [slotOf, found, Category.readsSlot]
      dsimp only
      rw [access]
      refine ⟨{ frame := some frame, value := some value }, rfl,
        fun f own => (Option.some.inj own).symm, nofun, nofun,
        .of_onRecord on sane rfl (fun other untouched => ?_) fun node mem => ?_, ?_, ?_⟩
      · have ne : name ≠ other := by
          rintro rfl
          exact untouched rfl
        refine congrArg List.head? ((Record.history_write _ name other _).trans ?_)
        rw [if_neg ne]
      · rcases Record.nodes_push mem with rfl | mem
        · exact known_value rfl _ _
        · rcases Record.nodes_write mem with rfl | mem
          · exact known_value rfl _ _
          · exact Reach.known_of_record (Record.nodes_drop [top] stack mem)
      · rintro x rfl
        rfl
      · have history := Record.history_write { s.recordOf frame with stack := below } name name
          (site.node s.nextSeq value [top])
        rw [if_pos rfl] at history
        change t.current (.frameLocal frame name) = some _
        rw [current, on.recordOf]
        exact congrArg List.head? history

/-! ### Class variables and globals -/

/-- The node of a slot after a read, and those of the others. -/
theorem slots_current_spec (slots : Slots K.Value) (name : String) (fresh : Nat) :
    let current := slots.current name fresh
    current.2.2.get? name = some current.1 ∧
      (slots.get? name = some current.1 ∨
        slots.get? name = none ∧ ∃ seq, current.1 = .unknown seq) ∧
      (∀ other, other ≠ name → current.2.2.get? other = slots.get? other) ∧
      ∀ node ∈ current.2.2.values, node ∈ slots.values ∨ node.value = none := by
  unfold Slots.current
  cases found : slots.get? name with
  | none =>
    refine ⟨?_, .inr ⟨rfl, fresh, rfl⟩, fun other ne => ?_, fun node mem => ?_⟩
    · rw [Dict.get?_set, if_pos rfl]
    · rw [Dict.get?_set, if_neg (Ne.symm ne)]
    · rcases Dict.mem_values_set mem with rfl | mem
      · exact .inr rfl
      · exact .inl mem
  | some node =>
    exact ⟨found, .inl rfl, fun _ _ => rfl, fun _ mem => .inl mem⟩

/-- The last push of a rule, after which the access can be told. -/
theorem moves_push {reach : Reach K} {touched : Slot K → Prop}
    {record : Record K.Value} {node : Node K.Value} {n : Nat}
    (on : OnRecord host.MayDrop frame s t (record.push node) n) (sane : s.Unpoisoned)
    (own : reach.frame = some frame) (before : s.recordOf frame = record)
    (known : reach.Known s node) : Moves host reach touched s t := by
  subst before
  refine moves_record on sane own rfl fun other mem => ?_
  rcases Record.nodes_push mem with rfl | mem
  · exact known
  · exact Reach.known_of_record mem

/-- Taking the topmost operand off. -/
theorem moves_pop {reach : Reach K} {touched : Slot K → Prop}
    {top : Node K.Value} {below : List (Node K.Value)} {n : Nat}
    (on : OnRecord host.MayDrop frame s t { s.recordOf frame with stack := below } n)
    (sane : s.Unpoisoned) (own : reach.frame = some frame)
    (stack : (s.recordOf frame).stack = top :: below) : Moves host reach touched s t :=
  moves_record on sane own rfl fun _ mem =>
    Reach.known_of_record (Record.nodes_drop [top] stack mem)

/-- The slot of a rule with one slot that is not a local. -/
theorem effect_of {access : Access K} {slot : Slot K} (reach : Reach K)
    (frameOnly : reach.frame = some frame) (object : reach.object = none)
    (scope : ∀ c, reach.scope = some c → site.classVariable.map (·.scope) = some c)
    (touches : ∀ x, access.Touches x → x = slot) (near : reach.Near slot)
    (moves : Moves host reach access.Touches s t) (done : access.Done s t) :
    Effect host site frame reach.value access s t := by
  refine ⟨reach, rfl, fun f own => ?_, fun o own => ?_, scope, moves, fun x touched => ?_, done⟩
  · exact Option.some.inj (own.symm.trans frameOnly)
  · rw [object] at own
    cases own
  · rw [touches x touched]
    exact near

theorem effect_readClassVariable (sane : s.Unpoisoned) :
    Ends (applyLeave tracer host site frame value .useClassVarDefStack) s fun r t =>
      Effect host site frame (some value) (match r with
        | .ok _ => accessOf host site frame .useClassVarDefStack t
        | .error _ => .nothing) s t := by
  cases found : site.classVariable with
  | none =>
    exact .of_run (run_leave_lacking rfl (congrArg Option.isSome found)) (effect_same sane (.refl s))
  | some owned =>
    refine (leave_readClassVariable sane _ found).mono ?_
    rintro r t ⟨rfl, mid, read, on⟩
    let slot : Slot K := .classVariable owned.scope owned.name
    obtain ⟨here, before, others, nodes⟩ :=
      slots_current_spec (s.scopeSlots owned.scope) owned.name s.nextSeq
    have access : accessOf host site frame .useClassVarDefStack t =
        .reads slot ((s.scopeSlots owned.scope).current owned.name s.nextSeq).1 := by
      rw [accessOf_eq on]
      simp [slotOf, found, Category.readsSlot, slotOrigin, Site.node, slot]
    let reach : Reach K :=
      { frame := some frame, scope := some owned.scope, value := some value }
    have readMoves : Moves host reach (· = slot) s mid := by
      refine .of_onScope read sane rfl (fun name untouched => others name ?_) fun node mem => ?_
      · rintro rfl
        exact untouched rfl
      · rcases nodes node mem with old | none'
        · exact Reach.known_of_mem (mem_nodes_of_scope old)
        · exact .inl none'
    have pushMoves : ∀ touched, Moves host reach touched mid t := fun touched =>
      moves_push on readMoves.sane rfl (recordOf_congr read.frames frame) (known_value rfl _ _)
    dsimp only
    rw [access]
    refine effect_of reach rfl rfl (fun c own => ?_) (fun _ => id) rfl
      (readMoves.trans (pushMoves _)) ⟨?_, before⟩
    · rw [found, ← own]
      rfl
    · refine ((pushMoves fun _ => False).near slot rfl id).trans ?_
      rw [current, scopeSlots, read.scopes.here]
      exact here

theorem effect_writeClassVariable (sane : s.Unpoisoned) :
    Ends (applyLeave tracer host site frame value .useStackDefClassVar) s fun r t =>
      Effect host site frame (some value) (match r with
        | .ok _ => accessOf host site frame .useStackDefClassVar t
        | .error _ => .nothing) s t := by
  cases found : site.classVariable with
  | none =>
    exact .of_run (run_leave_lacking rfl (congrArg Option.isSome found)) (effect_same sane (.refl s))
  | some owned =>
    refine (leave_writeClassVariable sane _ found).mono fun r t done => ?_
    cases stack : (s.recordOf frame).stack with
    | nil =>
      rw [stack] at done
      obtain ⟨rfl, on⟩ := done
      exact effect_nothing (moves_record on sane rfl rfl fun _ => Reach.known_of_record)
    | cons top below =>
      rw [stack] at done
      obtain ⟨rfl, mid, late, popped, written, on⟩ := done
      let slot : Slot K := .classVariable owned.scope owned.name
      let node := site.node s.nextSeq value [top]
      have access : accessOf host site frame .useStackDefClassVar t = .writes slot node := by
        rw [accessOf_eq on]
        simp [slotOf, found, Category.readsSlot, slot, node]
      let reach : Reach K :=
        { frame := some frame, scope := some owned.scope, value := some value }
      have popMoves : Moves host reach (· = slot) s mid := moves_pop popped sane rfl stack
      have same := scopeSlots_congr popped.scopes owned.scope
      have writeMoves : Moves host reach (· = slot) mid late := by
        refine .of_onScope written popMoves.sane rfl (fun name untouched => ?_) fun other mem => ?_
        · have ne : owned.name ≠ name := by
            rintro rfl
            exact untouched rfl
          rw [Dict.get?_set, if_neg ne, current, same]
        · rcases Dict.mem_values_set mem with rfl | mem
          · exact known_value rfl _ _
          · exact Reach.known_of_mem (mem_nodes_of_scope (same ▸ mem))
      have pushMoves : ∀ touched, Moves host reach touched late t := fun touched =>
        moves_push on writeMoves.sane rfl ((recordOf_congr written.frames frame).trans popped.recordOf)
          (known_value rfl _ _)
      dsimp only
      rw [access]
      refine effect_of reach rfl rfl (fun c own => ?_) (fun _ => id) rfl
        (popMoves.trans (writeMoves.trans (pushMoves _))) ?_
      · rw [found, ← own]
        rfl
      · refine ((pushMoves fun _ => False).near slot rfl id).trans ?_
        rw [current, scopeSlots, written.scopes.here]
        exact (Dict.get?_set ..).trans (if_pos rfl)

theorem effect_readGlobal (sane : s.Unpoisoned) :
    Ends (applyLeave tracer host site frame value .useGlobalDefStack) s fun r t =>
      Effect host site frame (some value) (match r with
        | .ok _ => accessOf host site frame .useGlobalDefStack t
        | .error _ => .nothing) s t := by
  cases found : site.globalName with
  | none =>
    exact .of_run (run_leave_lacking rfl (congrArg Option.isSome found)) (effect_same sane (.refl s))
  | some name =>
    refine (leave_readGlobal sane _ found).mono ?_
    rintro r t ⟨rfl, mid, read, on⟩
    let slot : Slot K := .global name
    obtain ⟨here, before, others, nodes⟩ := slots_current_spec s.store.globals name s.nextSeq
    have access : accessOf host site frame .useGlobalDefStack t =
        .reads slot (s.store.globals.current name s.nextSeq).1 := by
      rw [accessOf_eq on]
      simp [slotOf, found, Category.readsSlot, slotOrigin, Site.node, slot]
    let reach : Reach K := { frame := some frame, value := some value }
    have readMoves : Moves host reach (· = slot) s mid := by
      refine .of_onGlobals read sane (fun other untouched => others other ?_) fun node mem => ?_
      · rintro rfl
        exact untouched rfl
      · rcases nodes node mem with old | none'
        · exact Reach.known_of_mem (mem_nodes.mpr (.inr (.inr (.inr old))))
        · exact .inl none'
    have pushMoves : ∀ touched, Moves host reach touched mid t := fun touched =>
      moves_push on readMoves.sane rfl (recordOf_congr read.frames frame) (known_value rfl _ _)
    dsimp only
    rw [access]
    refine effect_of reach rfl rfl nofun (fun _ => id) trivial
      (readMoves.trans (pushMoves _)) ⟨?_, before⟩
    refine ((pushMoves fun _ => False).near slot trivial id).trans ?_
    rw [current, read.globals]
    exact here

theorem effect_writeGlobal (sane : s.Unpoisoned) :
    Ends (applyLeave tracer host site frame value .useStackDefGlobal) s fun r t =>
      Effect host site frame (some value) (match r with
        | .ok _ => accessOf host site frame .useStackDefGlobal t
        | .error _ => .nothing) s t := by
  cases found : site.globalName with
  | none =>
    exact .of_run (run_leave_lacking rfl (congrArg Option.isSome found)) (effect_same sane (.refl s))
  | some name =>
    refine (leave_writeGlobal sane _ found).mono fun r t done => ?_
    cases stack : (s.recordOf frame).stack with
    | nil =>
      rw [stack] at done
      obtain ⟨rfl, on⟩ := done
      exact effect_nothing (moves_record on sane rfl rfl fun _ => Reach.known_of_record)
    | cons top below =>
      rw [stack] at done
      obtain ⟨rfl, mid, late, popped, written, on⟩ := done
      let slot : Slot K := .global name
      let node := site.node s.nextSeq value [top]
      have access : accessOf host site frame .useStackDefGlobal t = .writes slot node := by
        rw [accessOf_eq on]
        simp [slotOf, found, Category.readsSlot, slot, node]
      let reach : Reach K := { frame := some frame, value := some value }
      have popMoves : Moves host reach (· = slot) s mid := moves_pop popped sane rfl stack
      have writeMoves : Moves host reach (· = slot) mid late := by
        refine .of_onGlobals written popMoves.sane (fun other untouched => ?_) fun other mem => ?_
        · have ne : name ≠ other := by
            rintro rfl
            exact untouched rfl
          rw [Dict.get?_set, if_neg ne, current, popped.globals]
        · rcases Dict.mem_values_set mem with rfl | mem
          · exact known_value rfl _ _
          · exact Reach.known_of_mem (mem_nodes.mpr (.inr (.inr (.inr (popped.globals ▸ mem)))))
      have pushMoves : ∀ touched, Moves host reach touched late t := fun touched =>
        moves_push on writeMoves.sane rfl ((recordOf_congr written.frames frame).trans popped.recordOf)
          (known_value rfl _ _)
      dsimp only
      rw [access]
      refine effect_of reach rfl rfl (fun _ own => (Option.some_ne_none _ own.symm).elim)
        (fun _ => id) trivial (popMoves.trans (writeMoves.trans (pushMoves _))) ?_
      refine ((pushMoves fun _ => False).near slot trivial id).trans ?_
      rw [current, written.globals]
      exact (Dict.get?_set ..).trans (if_pos rfl)

/-! ### Properties -/

theorem nodes_of_takeReceiver {absent : Violation}
    {operands : Except Fault (Node K.Value × List (Node K.Value))} {record record' : Record K.Value}
    {m n : Nat} (run : (takeReceiver site absent).run.run (record, m) = (operands, record', n)) :
    record'.histories = record.histories ∧ (∀ node ∈ record'.nodes, node ∈ record.nodes) ∧
      ∀ receiver others, operands = .ok (receiver, others) →
        ∀ node ∈ receiver :: others, node ∈ record.nodes := by
  rw [run_takeReceiver] at run
  rcases taken : (takeOperands site).run.run (record, m) with
    ⟨fault | _ | ⟨receiver, others⟩, rest, k⟩
  all_goals
    rw [taken] at run
    cases run
    obtain ⟨histories, nodes, inside⟩ := nodes_of_takeOperands taken
    refine ⟨histories, nodes, ?_⟩
  · rintro receiver others ⟨⟩
  · rintro receiver others ⟨⟩
  · rintro receiver' others' ⟨⟩
    exact inside _ rfl

/-- A property gets a node. -/
theorem moves_setProperty {reach : Reach K} {inHand : List (Node K.Value)} {object : K.Object}
    {name : String} {node : Node K.Value} {n : Nat}
    (on : OnObject (host.Lost inHand s t object) object s t ((s.objectSlots object).set name node) n)
    (sane : s.Unpoisoned) (own : reach.object = some object) (inside : node ∈ inHand)
    (known : reach.Known s node) : Moves host reach (· = .property object name) s t := by
  refine .of_onObject on sane own (fun other untouched => ?_) (fun other mem => ?_) fun other mem => ?_
  · have ne : name ≠ other := by
      rintro rfl
      exact untouched rfl
    rw [Dict.get?_set, if_neg ne, current]
  · rcases Dict.mem_values_set mem with rfl | mem
    · exact .inl inside
    · exact .inr (.inl mem)
  · rcases Dict.mem_values_set mem with rfl | mem
    · exact known
    · exact Reach.known_of_mem (mem_nodes_of_object mem)

/-- A property is read, and gets an unknown node if it had none. -/
theorem moves_currentProperty {reach : Reach K} {inHand : List (Node K.Value)} {object : K.Object}
    {name : String} {fresh n : Nat}
    (on : OnObject (host.Lost inHand s t object) object s t
      ((s.objectSlots object).current name fresh).2.2 n)
    (sane : s.Unpoisoned) (own : reach.object = some object) :
    Moves host reach (· = .property object name) s t := by
  obtain ⟨-, -, rest, values⟩ := slots_current_spec (s.objectSlots object) name fresh
  refine .of_onObject on sane own (fun other untouched => ?_) (fun other mem => ?_) fun other mem => ?_
  · rw [current]
    refine rest other ?_
    rintro rfl
    exact untouched rfl
  · exact .inr (values other mem)
  · rcases values other mem with old | none'
    · exact Reach.known_of_mem (mem_nodes_of_object old)
    · exact .inl none'

section Receiver

variable {mid late : Shadow K} {record : Record K.Value} {origins : List (Node K.Value)} {l m n : Nat}
  (sane : s.Unpoisoned) (popped : OnRecord host.MayDrop frame s mid record l)
  (histories : record.histories = (s.recordOf frame).histories)
  (nodes : ∀ node ∈ record.nodes, node ∈ (s.recordOf frame).nodes)
  (on : OnRecord host.MayDrop frame late t (record.push (site.node m value origins)) n)

include sane popped histories nodes on

/-- The value of the receiver is no object: operands have been taken off, and a node pushed. -/
theorem effect_objectless (same : late.store = mid.store) :
    Effect host site frame (some value) .nothing s t := by
  have popMoves : Moves host { frame := some frame, value := some value } (fun _ => False) s mid :=
    moves_record popped sane rfl histories fun other mem => Reach.known_of_record (nodes other mem)
  have between : Moves host { frame := some frame, value := some value } (fun _ => False) mid late :=
    .of_store popMoves.sane same
  have before : late.recordOf frame = record :=
    (recordOf_congr (by rw [same]) frame).trans popped.recordOf
  exact effect_nothing (popMoves.trans (between.trans
    (moves_push on between.sane rfl before (known_value rfl _ _))))

/-- A property of the object behind the receiver has been used in between. -/
theorem effect_onProperty {access : Access K} {receiver final : Node K.Value} {object : K.Object}
    {name : String} (operand : receiver ∈ s.store.nodes)
    (behind : objectBehind host receiver = some object)
    (touches : ∀ x, access.Touches x ↔ x = .property object name)
    (moves : Moves host { frame := some frame, object := some object, value := some value }
      (· = .property object name) mid late)
    (frames : late.store.frames = mid.store.frames)
    (there : late.current (.property object name) = some final)
    (done : t.current (.property object name) = some final → access.Done s t) :
    Effect host site frame (some value) access s t := by
  let reach : Reach K := { frame := some frame, object := some object, value := some value }
  have popMoves : Moves host reach access.Touches s mid :=
    moves_record popped sane rfl histories fun other mem => Reach.known_of_record (nodes other mem)
  have before : late.recordOf frame = record := (recordOf_congr frames frame).trans popped.recordOf
  have pushMoves : ∀ touched, Moves host reach touched late t := fun touched =>
    moves_push on moves.sane rfl before (known_value rfl _ _)
  have same : access.Touches = (· = .property object name) := funext fun x => propext (touches x)
  refine ⟨reach, rfl, fun f own => (Option.some.inj own).symm, fun o own => ?_,
    fun _ own => (Option.some_ne_none _ own.symm).elim, ?_, fun x touched => ?_, done ?_⟩
  · exact ⟨receiver, operand, behind.trans own⟩
  · exact popMoves.trans (same ▸ moves.trans (pushMoves _))
  · rw [(touches x).mp touched]
    rfl
  · exact ((pushMoves fun _ => False).near (.property object name) rfl id).trans there

end Receiver

theorem effect_writeProperty (sane : s.Unpoisoned) :
    Ends (applyLeave tracer host site frame value .useStackDefPropertyStack) s fun r t =>
      Effect host site frame (some value) (match r with
        | .ok _ => accessOf host site frame .useStackDefPropertyStack t
        | .error _ => .nothing) s t := by
  cases found : site.property with
  | none =>
    exact .of_run (run_leave_lacking rfl (congrArg Option.isSome found)) (effect_same sane (.refl s))
  | some name =>
    rcases run : (takeReceiver site (.writeWithoutReceiver site.id site.label)).run.run
      (s.recordOf frame, s.nextSeq) with ⟨operands, record, next⟩
    obtain ⟨histories, nodes, inside⟩ := nodes_of_takeReceiver run
    refine (leave_assignProperty sane _ found run).mono fun r t done => ?_
    cases operands with
    | error fault =>
      obtain ⟨rfl, on⟩ := done
      exact effect_nothing (moves_record on sane rfl histories fun node mem =>
        Reach.known_of_record (nodes node mem))
    | ok operands =>
      obtain ⟨receiver, others⟩ := operands
      obtain ⟨rfl, mid, late, popped, written, on⟩ := done
      dsimp only
      rw [accessOf_eq on]
      cases behind : objectBehind host receiver with
      | none =>
        rw [behind] at written
        simp only [slotOf, found, Site.node, behind, List.head?_cons, Option.bind_some,
          Option.bind_eq_bind, Option.bind_none]
        exact effect_objectless sane popped histories nodes on written.1
      | some object =>
        rw [behind] at written
        simp only [slotOf, found, Site.node, behind, List.head?_cons, Option.bind_some,
          Option.bind_eq_bind, Option.pure_def, Category.readsSlot, Bool.false_eq_true, if_false]
        dsimp only at written
        rw [← objectSlots_congr popped.objects object] at written
        refine effect_onProperty sane popped histories nodes on
          (mem_nodes_of_record _ (inside _ _ rfl receiver List.mem_cons_self)) behind (fun _ => Iff.rfl)
          (moves_setProperty written (popped.unpoisoned sane) rfl List.mem_cons_self
            (known_value rfl _ _))
          written.frames ?_ id
        rw [current, objectSlots, written.objects.here]
        exact (Dict.get?_set ..).trans (if_pos rfl)

theorem effect_readProperty (sane : s.Unpoisoned) :
    Ends (applyLeave tracer host site frame value .usePropertyStackDefStack) s fun r t =>
      Effect host site frame (some value) (match r with
        | .ok _ => accessOf host site frame .usePropertyStackDefStack t
        | .error _ => .nothing) s t := by
  cases found : site.property with
  | none =>
    exact .of_run (run_leave_lacking rfl (congrArg Option.isSome found)) (effect_same sane (.refl s))
  | some name =>
    rcases run : (takeReceiver site (.readWithoutReceiver site.id site.label)).run.run
      (s.recordOf frame, s.nextSeq) with ⟨operands, record, next⟩
    obtain ⟨histories, nodes, inside⟩ := nodes_of_takeReceiver run
    refine (leave_fetchProperty sane _ found run).mono fun r t done => ?_
    cases operands with
    | error fault =>
      obtain ⟨rfl, on⟩ := done
      exact effect_nothing (moves_record on sane rfl histories fun node mem =>
        Reach.known_of_record (nodes node mem))
    | ok operands =>
      obtain ⟨receiver, others⟩ := operands
      obtain ⟨rfl, mid, late, origin, seq, popped, read, on⟩ := done
      dsimp only
      cases behind : objectBehind host receiver with
      | none =>
        rw [behind] at read
        rw [accessOf_eq on]
        simp only [slotOf, found, Site.node, behind, List.cons_append, List.head?_cons, Option.bind_some,
          Option.bind_eq_bind, Option.bind_none]
        exact effect_objectless sane popped histories nodes on read.2.2.1
      | some object =>
        rw [behind] at read
        obtain ⟨rfl, rfl, read⟩ := read
        let origin := ((s.objectSlots object).current name next).1
        have access : accessOf host site frame .usePropertyStackDefStack t =
            .reads (.property object name) origin := by
          have last := List.getLast?_concat (l := receiver :: others) (a := origin)
          rw [accessOf_eq on]
          simp only [slotOf, found, Site.node, List.cons_append, List.head?_cons, Option.bind_some,
            behind, Option.pure_def, Option.bind_eq_bind, slotOrigin, if_true]
          rw [← List.cons_append, last]
          rfl
        rw [access]
        obtain ⟨here, before, -⟩ := slots_current_spec (s.objectSlots object) name next
        rw [← objectSlots_congr popped.objects object] at read
        refine effect_onProperty sane popped histories nodes on
          (mem_nodes_of_record _ (inside _ _ rfl receiver List.mem_cons_self)) behind (fun _ => Iff.rfl)
          (moves_currentProperty read (popped.unpoisoned sane) rfl) read.frames ?_ fun there =>
            ⟨there, before⟩
        rw [current, objectSlots, read.objects.here, objectSlots_congr popped.objects]
        exact here

/-! ### All rules -/

theorem effect_bindArgument (sane : s.Unpoisoned) :
    Ends (applyLeave tracer host site frame value .useArgDefStack) s fun r t =>
      Effect host site frame (some value) (match r with
        | .ok _ => accessOf host site frame .useArgDefStack t
        | .error _ => .nothing) s t := by
  cases found : site.argument with
  | none =>
    exact .of_run (run_leave_lacking rfl (congrArg Option.isSome found)) (effect_same sane (.refl s))
  | some slot =>
    refine (leave_bindArgument sane _ found).mono fun r t done => ?_
    cases known : callerRecord? host s frame with
    | none =>
      rw [known] at done
      obtain ⟨rfl, on⟩ := done
      exact effect_push sane on rfl (fun _ => id) fun _ => rfl
    | some caller =>
      rw [known] at done
      dsimp only at done
      cases peeked : caller.peekAt (argumentTotal host frame slot - (slot.index + 1)) with
      | error fault =>
        rw [peeked] at done
        obtain ⟨rfl, same⟩ := done
        exact effect_same sane same
      | ok origin =>
        rw [peeked] at done
        obtain ⟨rfl, on⟩ := done
        exact effect_push sane on rfl (fun _ => id) fun _ => rfl

/-- The frames of a caller and of its callee are both records that were there. -/
theorem handedBack?_eq {caller : K.Frame} {node : Node K.Value}
    (h : handedBack? host s frame = some (caller, node)) :
    s.record? caller ≠ none ∧ (s.recordOf frame).stack = [node] := by
  unfold handedBack? at h
  split at h
  · cases h
  · next caller' called =>
    split at h
    · next callerRecord record known own =>
      split at h
      · next one stack =>
        cases h
        refine ⟨known ▸ Option.some_ne_none _, ?_⟩
        rw [recordOf_eq own, stack]
      · cases h
    · cases h

theorem effect_boundary (sane : s.Unpoisoned) :
    Ends (applyLeave tracer host site frame value .functionBoundary) s fun _ t =>
      Effect host site frame (some value) .nothing s t := by
  refine (leave_boundary sane).mono ?_
  rintro r t ⟨-, done⟩
  cases handed : handedBack? host s frame with
  | none =>
    rw [handed] at done
    exact effect_same sane done
  | some both =>
    obtain ⟨caller, node⟩ := both
    rw [handed] at done
    obtain ⟨mid, took, gave⟩ := done
    obtain ⟨there, one⟩ := handedBack?_eq handed
    let reach : Reach K := { frame := some frame, value := node.value }
    have takeMoves : Moves host reach (fun _ => False) s mid := 
      moves_pop (took.mono fun _ => False.elim) sane rfl one
    have still : mid.record? caller ≠ none := by
      by_cases own : caller = frame
      · rw [own, took.record?]
        exact Option.some_ne_none _
      · rwa [record?, (took.frames.others caller own).content?_eq id]
    have giveMoves : Moves host reach (fun _ => False) mid t :=
      .of_push gave takeMoves.sane still (.inr (.inl rfl))
    refine effect_nothing (Moves.of_value (takeMoves.trans giveMoves) ?_
      (gave.objects.trans took.objects))
    have onTop : node ∈ (s.recordOf frame).nodes :=
      Record.mem_nodes.mpr (.inl (one ▸ List.mem_singleton.mpr rfl))
    exact mem_nodes_of_record _ onTop

/-- Whatever the category and the outcome, a rule applied on return has done to the slots what can be
    told from the node that it has pushed. -/
theorem effect_leave (sane : s.Unpoisoned) (category : Category) :
    Ends (applyLeave tracer host site frame value category) s fun r t =>
      Effect host site frame (some value) (match r with
        | .ok _ => accessOf host site frame category t
        | .error _ => .nothing) s t := by
  have nothing : (∀ node, slotOf host site frame node category = none) →
      ∀ t, accessOf host site frame category t = .nothing := by
    intro none' t
    unfold accessOf
    split
    · rfl
    · rw [none']
  cases category with
  | functionBoundary =>
    refine (effect_boundary sane).mono fun r t effect => ?_
    cases r with
    | error _ => exact effect
    | ok _ => rwa [nothing fun _ => rfl]
  | noUseDefStack =>
    refine (leave_noUse sane).mono ?_
    rintro r t ⟨rfl, on⟩
    exact effect_push sane on rfl (fun _ => id) fun _ => rfl
  | useStackDefStack => exact effect_operands sane
  | useLocalDefStack => exact effect_readLocal sane
  | useStackDefLocalStack => exact effect_writeLocal sane
  | useArgDefStack => exact effect_bindArgument sane
  | useStackDefPropertyStack => exact effect_writeProperty sane
  | usePropertyStackDefStack => exact effect_readProperty sane
  | useStackDefReturn =>
    change Effect host site frame (some value) (accessOf host site frame _ s) s s
    rw [nothing fun _ => rfl]
    exact effect_same sane (.refl s)
  | useClassVarDefStack => exact effect_readClassVariable sane
  | useStackDefClassVar => exact effect_writeClassVariable sane
  | useGlobalDefStack => exact effect_readGlobal sane
  | useStackDefGlobal => exact effect_writeGlobal sane
  | callNode =>
    change Effect host site frame (some value) (accessOf host site frame _ _) s (s.note ..)
    rw [nothing fun _ => rfl]
    exact effect_same sane ⟨rfl, rfl⟩

/-- Entering the boundary of a function gives up the locals of its frame; nothing else is done to the
    slots on enter. -/
theorem effect_enter (sane : s.Unpoisoned) (category : Category) :
    Ends (applyEnter host site frame category) s fun r t => r = .ok () ∧
      Effect host site frame none
        (if category = .functionBoundary then .resets frame else .nothing) s t := by
  by_cases boundary : category = .functionBoundary
  · subst boundary
    refine (enter_boundary sane).mono ?_
    rintro r t ⟨rfl, on⟩
    rw [if_pos rfl]
    refine ⟨rfl, { frame := some frame }, rfl, fun f own => (Option.some.inj own).symm, nofun, nofun,
      .of_onRecord on sane rfl (fun name untouched => absurd rfl untouched)
        fun node mem => absurd mem (Record.nodes_empty node), fun x touched => ?_, fun name => ?_⟩
    · cases x with
      | frameLocal f name => exact congrArg some touched.symm
      | property _ _ => cases touched
      | classVariable _ _ => cases touched
      | global _ => cases touched
    · rw [current, on.recordOf]
      rfl
  · rw [if_neg boundary]
    cases marking : category.marksDepth with
    | true =>
      refine (enter_marking sane marking).mono ?_
      rintro r t ⟨rfl, on⟩
      exact ⟨rfl, effect_nothing (moves_record on sane rfl rfl fun _ => Reach.known_of_record)⟩
    | false =>
      refine (enter_other boundary marking).mono ?_
      rintro r t ⟨rfl, rfl⟩
      exact ⟨rfl, effect_same sane (.refl _)⟩

/-- No slot gets another node when a site is left by an exception. -/
theorem effect_unwind (sane : s.Unpoisoned) (exception : String) (category : Category) :
    Ends (applyUnwind host site frame exception category) s fun _ t =>
      Effect host site frame none .nothing s t := by
  by_cases isReturn : category = .useStackDefReturn
  · subst isReturn
    refine (unwind_return sane exception).mono fun r t done => ?_
    cases stack : (s.recordOf frame).stack with
    | nil =>
      rw [stack] at done
      exact effect_nothing (moves_record done.2 sane rfl rfl fun _ => Reach.known_of_record)
    | cons top below =>
      rw [stack] at done
      have onTop : top ∈ (s.recordOf frame).nodes :=
        Record.mem_nodes.mpr (.inl (stack ▸ List.mem_cons_self))
      refine effect_nothing (moves_record done.2 sane rfl rfl fun node mem => ?_)
      have new : ∀ node : Node K.Value, node.value = top.value →
          Reach.Known { frame := some frame } s node := fun node same =>
        .inr (.inr ⟨top, mem_nodes_of_record _ onTop, same.symm⟩)
      rcases Record.nodes_setResult mem with rfl | mem
      · exact new _ rfl
      · rcases Record.nodes_push mem with rfl | mem
        · exact new _ rfl
        · exact Reach.known_of_record (Record.nodes_drop [top] stack mem)
  · cases marking : category.marksDepth with
    | true =>
      refine (unwind_marking sane marking exception).mono ?_
      rintro r t ⟨-, done⟩
      cases found : s.record? frame with
      | none =>
        rw [found] at done
        exact effect_same sane done
      | some record =>
        rw [found] at done
        have own := recordOf_eq found
        exact effect_nothing (moves_record (done.mono fun _ => False.elim) sane rfl (by rw [own]; rfl)
          fun node mem =>
          Reach.known_of_record (by rw [own]; exact mem))
    | false =>
      refine (unwind_other isReturn marking exception).mono ?_
      rintro r t ⟨-, same⟩
      exact effect_same sane same

end Tracer

end Lineage
