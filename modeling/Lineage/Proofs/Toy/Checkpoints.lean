import Lineage.Proofs.Graph
import Lineage.Proofs.Toy.Mirror

/-!
# Checkpoints of tagged code

What the tracer does at the checkpoints of a piece of tagged code, next to what the ledger does: the
two still agree afterwards, and no checkpoint is refused. One theorem for the enter of a piece, one
for its return with a value, one for a `return` on its way through it, and the same for the boundary
of a function.
-/

namespace Lineage.Toy

open Shadow Tracer

/-- The category that decides what happens at the site of a piece of code. -/
def categoryOf : Code → Category
  | .int _ | .str _ | .nil | .new _ => .noUseDefStack
  | .getLocal _ => .useLocalDefStack
  | .setLocal .. => .useStackDefLocalStack
  | .arg _ => .useArgDefStack
  | .add .. | .body _ | .call .. => .useStackDefStack
  | .getProperty .. => .usePropertyStackDefStack
  | .setProperty .. => .useStackDefPropertyStack
  | .getGlobal _ => .useGlobalDefStack
  | .setGlobal .. => .useStackDefGlobal
  | .getClassVariable _ => .useClassVarDefStack
  | .setClassVariable .. => .useStackDefClassVar
  | .ret _ => .useStackDefReturn
  | .tagged .. => .functionBoundary

theorem isTagged_of_piece {scope : ScopeId} {traced : Bool} {code : Code}
    (piece : code.Piece scope traced) : code.isTagged = false := by
  cases piece <;> rfl

theorem siteOf_id (scope : ScopeId) (id : SiteId) (label : String) (code : Code) :
    (siteOf scope id label code).id = id := by
  cases code <;> rfl

theorem categories_siteOf {scope : ScopeId} {traced : Bool} {code : Code}
    (piece : code.Piece scope traced) (id : SiteId) (label : String) :
    (siteOf scope id label code).categories.toList = [categoryOf code] ∨
      (siteOf scope id label code).categories.toList = [categoryOf code, .callNode] := by
  cases piece
  case call => exact .inr rfl
  all_goals exact .inl rfl

/-- All that happens at a site is what the rule of its category does, up to what is logged. -/
theorem ends_rules_piece {scope : ScopeId} {traced : Bool} {code : Code}
    (piece : code.Piece scope traced) (id : SiteId) (label : String)
    {rule : Category → ShadowM kinds Unit} {t : Shadow kinds} {post : Shadow kinds → Prop}
    (decides : Ends (rule (categoryOf code)) t fun r u => r = .ok () ∧ post u)
    (quiet : ∀ u, Ends (rule .callNode) u fun r v => r = .ok () ∧ SameState u v)
    (stable : ∀ u v, SameState u v → post u → post v) :
    Ends (applyRules (siteOf scope id label code) rule) t fun r u => r = .ok () ∧ post u := by
  unfold applyRules
  rcases categories_siteOf piece id label with only | both
  · rw [only, ends_rules_cons]
    refine decides.mono ?_
    rintro r u ⟨rfl, done⟩
    exact ⟨rfl, done⟩
  · rw [both, ends_rules_cons]
    refine decides.mono ?_
    rintro r u ⟨rfl, done⟩
    dsimp only
    rw [ends_rules_cons]
    refine (quiet u).mono ?_
    rintro r v ⟨rfl, same⟩
    exact ⟨rfl, stable u v same done⟩

/-- What is in the store after the rules of a site was there after that of its category. -/
theorem nodes_of_rules_piece {scope : ScopeId} {traced : Bool} {code : Code}
    (piece : code.Piece scope traced) (id : SiteId) (label : String)
    {rule : Category → ShadowM kinds Unit} {t : Shadow kinds} {kept : List (Node Value)}
    (left : Ends (applyRules (siteOf scope id label code) rule) t fun _ u => u.store.nodes = kept)
    (quiet : ∀ u, Ends (rule .callNode) u fun r v => r = .ok () ∧ SameState u v) :
    Ends (rule (categoryOf code)) t fun _ u => u.store.nodes = kept := by
  unfold applyRules at left
  rcases categories_siteOf piece id label with only | both
  · rw [only, ends_rules_cons] at left
    refine left.mono fun r u after => ?_
    cases r <;> exact after
  · rw [both, ends_rules_cons] at left
    refine left.mono fun r u after => ?_
    cases r with
    | error _ => exact after
    | ok _ =>
      dsimp only at after
      rw [ends_rules_cons] at after
      obtain ⟨after, done, same⟩ := after.both (quiet u)
      rw [done] at after
      exact same.nodes.symm.trans after

namespace Activation

/-- The activation as code inside a tagged piece finds it. -/
def inside (a : Activation) (id : SiteId) (code : Code) (operands : List (Node Value)) :
    Activation where
  traced := a.traced
  arguments := a.arguments
  below := operands ++ a.below
  marks :=
    if (categoryOf code).marksDepth then ⟨id, (operands ++ a.below).length⟩ :: a.marks else a.marks

end Activation

variable {exact : Prop} {p : Place} {a : Activation} {t : Shadow kinds} {l : Ledger} {code : Code}
  {id : SiteId} {label : String}

theorem Place.Spared.trans_same {u v : Shadow kinds} (h : p.Spared t u) (same : SameState u v) :
    p.Spared t v := h.trans (.of_frames (by rw [same.1]))

theorem notBoundary_of_piece {scope : ScopeId} {traced : Bool} (piece : code.Piece scope traced) :
    categoryOf code ≠ .functionBoundary := by
  cases piece <;> exact Category.noConfusion

/-! ### On enter -/

theorem applyEnter_piece (h : Mirrors exact p a t l) (sound : p.Sound) (traced : a.traced = true)
    (piece : code.Piece p.scope true) :
    Ends (applyEnter p.host (siteOf p.scope id label code) p.frame (categoryOf code)) t
      fun r u => r = .ok () ∧ (p.Spared t u ∧
        Mirrors exact p (a.inside id code l.operands) u { l with operands := [] }) := by
  obtain ⟨record, found, stack, marks, locals⟩ := h.traced traced
  have here := recordOf_eq found
  cases marking : (categoryOf code).marksDepth with
  | true =>
    refine (enter_marking h.sane marking).mono ?_
    rintro r u ⟨rfl, on⟩
    rw [here, siteOf_id] at on
    refine ⟨rfl, h.onRecord sound on traced rfl ⟨?_, ?_, locals⟩ h.next ⟨rfl, rfl, rfl⟩
      (fun _ mem => mem) fun hexact node mem => ?_⟩
    · exact stack
    · rw [Record.mark_marks, stack, marks, Activation.inside, marking]
      rfl
    · refine (h.stored hexact).nodes node (mem_nodes_of_record p.frame ?_)
      rw [here]
      exact mem
  | false =>
    refine (enter_other (notBoundary_of_piece piece) marking).mono ?_
    rintro r u ⟨rfl, rfl⟩
    refine ⟨rfl, .of_frames rfl, h.recast traced traced rfl ?_⟩
    rintro r ⟨stack, marks, locals⟩
    refine ⟨stack, ?_, locals⟩
    rw [marks, Activation.inside, marking]
    rfl

/-- A piece that consumes operands notes the depth of the stack, any other notes nothing. -/
theorem enter_piece (id : SiteId) (label : String) (h : Mirrors exact p a t l) (sound : p.Sound)
    (traced : a.traced = true) (piece : code.Piece p.scope true) :
    Ends (enter p.host (siteOf p.scope id label code) p.frame) t fun r u => r = .ok () ∧
      (p.Spared t u ∧ Mirrors exact p (a.inside id code l.operands) u { l with operands := [] }) := by
  unfold enter
  rw [ends_bind, ShadowM.ends_note]
  have noted := h.same (u := t.note .trace "router enter"
    (Checkpoint.siteFields (siteOf p.scope id label code))) ⟨rfl, rfl⟩
  refine ends_rules_piece piece id label (applyEnter_piece noted sound traced piece) ?_ ?_
  · intro u
    refine (enter_other Category.noConfusion rfl).mono ?_
    rintro r v ⟨rfl, rfl⟩
    exact ⟨rfl, .refl _⟩
  · rintro u v same ⟨spared, mirrors⟩
    exact ⟨spared.trans_same same, mirrors.same same⟩

/-! ### On return -/

/-- What the operands of a piece are known to be once it has come to a value. -/
def Ready (exact : Prop) (p : Place) (t : Shadow kinds) (l : Ledger) : Code → Prop
  | .int _ | .str _ | .nil | .new _ | .getLocal _ | .getGlobal _ | .getClassVariable _ =>
      l.operands = []
  | .arg index => l.operands = [] ∧
      ∀ frame, p.world.frame? p.frame = some frame → index < frame.args.length
  | .setLocal .. | .setGlobal .. | .setClassVariable .. => ∃ node, l.operands = [node]
  | .getProperty .. | .setProperty .. => ∃ receiver others, l.operands = receiver :: others ∧
      (exact → ∀ o, Ledger.objectBehind receiver = some o →
        p.world.Made (.object o) ∧ l.propertyNodes o = t.objectSlots o)
  | .add .. | .body _ | .call .. => True
  | .ret _ | .tagged .. => False

/-- The state of the program is the same. -/
structure Ledger.SameRun (l l' : Ledger) : Prop where
  world : l'.world = l.world
  globals : l'.globals = l.globals
  locals : l'.locals = l.locals

/-- Nothing has been made but `node` and origins of it, and each has been given a number. -/
structure MadeFor (node : Node Value) (l l' : Ledger) : Prop where
  kept : ∀ n ∈ l.made, n ∈ l'.made
  only : ∀ n ∈ l'.made, n ∈ l.made ∨ n = node ∨ n ∈ node.origins
  count : l'.next + l.made.length = l.next + l'.made.length

/-- A piece has left one node of its own, with its value. -/
def Pushed (site : Site kinds) (value : Value) (outer : List (Node Value)) (l l' : Ledger) : Prop :=
  ∃ node, l'.operands = node :: outer ∧ node.value = some value ∧
    node.creator = creatorOf site ∧ MadeFor node l l'

/-- The ledger and the shadow state after the return of a piece. -/
def Concluded (exact : Prop) (p : Place) (a : Activation) (t : Shadow kinds) (l : Ledger)
    (s : Setting) (site : Site kinds) (code : Code) (value : Value) (outer : List (Node Value))
    (u : Shadow kinds) : Prop :=
  ∃ l', (exact → (Ledger.conclude s site code value outer).run.run l = (.ok (), l')) ∧
    p.Spared t u ∧ Mirrors exact p a u l' ∧ l.SameRun l' ∧ Pushed site value outer l l'

variable {value : Value} {outer : List (Node Value)} {s : Setting} {tracer : Tracer}

theorem objectBehind_host (p : Place) (node : Node Value) :
    Tracer.objectBehind p.host node = Ledger.objectBehind node := by
  unfold Tracer.objectBehind Ledger.objectBehind
  rcases node.value with _ | _ | _ | _ | _ <;> rfl

theorem Ledger.run_current (slots : Ledger → Slots Value) (put : Slots Value → Ledger → Ledger)
    (name : String) (l : Ledger) :
    (current slots put name).run.run l =
      match (slots l).get? name with
      | some node => (.ok node, l)
      | none =>
          let fresh := Node.unknown l.next
          let later := { l with next := l.next + 1, made := fresh :: l.made }
          (.ok fresh, put ((slots later).set name fresh) later) := by
  unfold current
  rw [run_bind, run_get]
  dsimp only
  cases (slots l).get? name <;> rfl

/-- Once a node is in slots, they have only that and what has been made before. -/
theorem mem_cons_of_set {slots : Slots Value} {name : String} {node other : Node Value}
    {made : List (Node Value)} (known : ∀ n ∈ slots.values, n ∈ made)
    (mem : other ∈ (slots.set name node).values) : other ∈ node :: made := by
  rcases Dict.mem_values_set mem with rfl | old
  · exact List.mem_cons_self
  · exact List.mem_cons_of_mem _ (known _ old)

/-- Slots that are put back change nothing. -/
theorem Ledger.putProperties_self (o : ObjectId) (l : Ledger) :
    Ledger.putProperties o (l.propertyNodes o) l = l := by
  have same : (fun other => if other = o then l.propertyNodes o else l.propertyNodes other) =
      l.propertyNodes := by
    funext other
    split
    · next eq => rw [eq]
    · rfl
  unfold Ledger.putProperties
  rw [same]

/-- The ledger after a look into slots: what has never been written is unknown. -/
def Ledger.looked (l : Ledger) (slots : Slots Value) (name : String) : Ledger :=
  { l with
    next := (slots.current name l.next).2.1
    made := if (slots.get? name).isSome then l.made else .unknown l.next :: l.made }

namespace Ledger

variable {slots : Slots Value} {name : String} {node : Node Value}

/-- A ledger that has the slots of the shadow state finds what a look into these finds. -/
theorem run_looked {view : Ledger → Slots Value} {put : Slots Value → Ledger → Ledger} {l : Ledger}
    (same : view l = slots) (puts : put (view l) l = l)
    (keeps : ∀ next made, view { l with next, made } = view l) :
    (current view put name).run.run l =
      (.ok (slots.current name l.next).1,
        put (slots.current name l.next).2.2 (l.looked slots name)) := by
  subst same
  rw [run_current]
  unfold Slots.current looked
  cases known : (view l).get? name with
  | some node =>
    simp only [Slots.current, known, Option.isSome_some, if_true]
    exact congrArg (Prod.mk _) puts.symm
  | none =>
    simp only [Slots.current, known, Option.isSome_none, if_false, Bool.false_eq_true, keeps]

theorem made_looked {l : Ledger} (mem : node ∈ l.made) : node ∈ (l.looked slots name).made := by
  unfold looked
  dsimp only
  split
  · exact mem
  · exact List.mem_cons_of_mem _ mem

/-- The node that the look has found has been made. -/
theorem found_looked {l : Ledger} (known : ∀ node, slots.get? name = some node → node ∈ l.made) :
    (slots.current name l.next).1 ∈ (l.looked slots name).made := by
  unfold Slots.current looked
  cases there : slots.get? name with
  | some node => exact known node there
  | none => exact List.mem_cons_self

/-- The slots after the look have no nodes but those that have been made. -/
theorem mem_looked {l : Ledger} (known : ∀ node ∈ slots.values, node ∈ l.made)
    (mem : node ∈ (slots.current name l.next).2.2.values) : node ∈ (l.looked slots name).made := by
  unfold Slots.current at mem
  unfold looked
  cases there : slots.get? name with
  | some node =>
    simp only [there] at mem
    exact known _ mem
  | none =>
    simp only [there] at mem
    exact mem_cons_of_set known mem

end Ledger

theorem made_cons {node : Node Value} {l l' : Ledger} (made : l'.made = node :: l.made)
    (next : l'.next = l.next + 1) : MadeFor node l l' where
  kept _ mem := made ▸ List.mem_cons_of_mem _ mem
  only n mem := by
    rw [made] at mem
    exact (List.mem_cons.mp mem).elim (fun new => .inr (.inl new)) .inl
  count := by
    rw [made, next, List.length_cons]
    omega

theorem made_cons_cons {node origin : Node Value} {l l' : Ledger} (used : origin ∈ node.origins)
    (made : l'.made = node :: origin :: l.made) (next : l'.next = l.next + 1 + 1) :
    MadeFor node l l' where
  kept _ mem := made ▸ List.mem_cons_of_mem _ (List.mem_cons_of_mem _ mem)
  only n mem := by
    rw [made] at mem
    rcases List.mem_cons.mp mem with rfl | mem
    · exact .inr (.inl rfl)
    · rcases List.mem_cons.mp mem with rfl | mem
      · exact .inr (.inr used)
      · exact .inl mem
  count := by
    rw [made, next, List.length_cons, List.length_cons]
    omega

theorem made_cons_looked {slots : Slots Value} {name : String} {node : Node Value} {l l' : Ledger}
    (used : (slots.current name l.next).1 ∈ node.origins)
    (made : l'.made = node :: (l.looked slots name).made)
    (next : l'.next = (l.looked slots name).next + 1) : MadeFor node l l' := by
  unfold Ledger.looked Slots.current at made next
  unfold Slots.current at used
  cases known : slots.get? name with
  | some _ =>
    simp only [known] at made next
    exact made_cons made next
  | none =>
    simp only [known] at used made next
    exact made_cons_cons used made next

/-- The ledger after a piece has made a node of its operands. -/
def Ledger.pushUsed (l : Ledger) (site : Site kinds) (value : Value) (outer : List (Node Value)) :
    Ledger :=
  let node := site.node l.next value l.operands
  { l with operands := node :: outer, next := l.next + 1, made := node :: l.made }

theorem pushed_pushUsed (l : Ledger) (site : Site kinds) (value : Value)
    (outer : List (Node Value)) : Pushed site value outer l (l.pushUsed site value outer) := by
  exact ⟨site.node l.next value l.operands, rfl, rfl, rfl, made_cons rfl rfl⟩

/-- Nodes of the record of the frame are known to the ledger. -/
theorem Mirrors.made_of_record (h : Mirrors exact p a t l) (hexact : exact) {record : Record Value}
    (found : t.record? p.frame = some record) {node : Node Value} (mem : node ∈ record.nodes) :
    node ∈ l.made :=
  (h.stored hexact).nodes node (mem_nodes_of_record _ (recordOf_eq found ▸ mem))

/-- Code that uses nothing. -/
theorem leave_leaf (h : Mirrors exact p (a.inside id code outer) t l) (sound : p.Sound)
    (traced : a.traced = true) (category : categoryOf code = .noUseDefStack)
    (empty : l.operands = []) (ledger : (Ledger.conclude s (siteOf p.scope id label code) code value
      outer).run.run l = (.ok (), l.pushUsed (siteOf p.scope id label code) value outer)) :
    Ends (applyLeave tracer p.host (siteOf p.scope id label code) p.frame value
      (categoryOf code)) t fun r u => r = .ok () ∧
        Concluded exact p a t l s (siteOf p.scope id label code) code value outer u := by
  obtain ⟨record, found, stack, marks, locals⟩ := h.traced traced
  rw [category]
  refine (leave_noUse h.sane).mono ?_
  rintro r u ⟨rfl, on⟩
  rw [recordOf_eq found, ← h.next, ← empty] at on
  rw [empty] at stack
  rw [Activation.inside, category] at marks
  obtain ⟨spared, mirrors⟩ := h.pushed sound on traced rfl stack marks locals
    (fun _ mem => List.mem_cons_of_mem _ mem) fun hexact =>
      ⟨List.mem_cons_self, fun _ mem => List.mem_cons_of_mem _ (h.made_of_record hexact found mem)⟩
  exact ⟨rfl, _, fun _ => ledger, spared, mirrors, ⟨rfl, rfl, rfl⟩, pushed_pushUsed ..⟩

/-- Code that uses all its operands. -/
theorem leave_consume (h : Mirrors exact p (a.inside id code outer) t l) (sound : p.Sound)
    (traced : a.traced = true) (category : categoryOf code = .useStackDefStack)
    (ledger : (Ledger.conclude s (siteOf p.scope id label code) code value
      outer).run.run l = (.ok (), l.pushUsed (siteOf p.scope id label code) value outer)) :
    Ends (applyLeave tracer p.host (siteOf p.scope id label code) p.frame value
      (categoryOf code)) t fun r u => r = .ok () ∧
        Concluded exact p a t l s (siteOf p.scope id label code) code value outer u := by
  obtain ⟨record, found, stack, marks, locals⟩ := h.traced traced
  have marked : record.marks =
      ⟨(siteOf p.scope id label code).id, (outer ++ a.below).length⟩ :: a.marks := by
    rw [marks, siteOf_id, Activation.inside, category]
    rfl
  rw [category]
  refine (leave_operands h.sane (by
    rw [recordOf_eq found]
    exact run_takeOperands_of_marks marked stack t.nextSeq)).mono ?_
  rintro r u ⟨rfl, on⟩
  rw [← h.next] at on
  obtain ⟨spared, mirrors⟩ := h.pushed sound on traced rfl rfl rfl locals
    (fun _ mem => List.mem_cons_of_mem _ mem) fun hexact =>
      ⟨List.mem_cons_self, fun _ mem => List.mem_cons_of_mem _
        (h.made_of_record hexact found (Record.nodes_drop _ stack mem))⟩
  exact ⟨rfl, _, fun _ => ledger, spared, mirrors, ⟨rfl, rfl, rfl⟩, pushed_pushUsed ..⟩

/-- The ledger makes the node of a piece from its origins, and writes it where the piece has
    written. -/
theorem run_conclude {site : Site kinds} {origins : List (Node Value)} {l' : Ledger} (code : Code)
    (run : (Ledger.originsOf s l.operands code).run.run l = (.ok origins, l')) :
    (Ledger.conclude s site code value outer).run.run l =
      (let node := site.node l'.next value origins
      let after := { l' with next := l'.next + 1, made := node :: l'.made }
      (.ok (), { Ledger.writeSlot l.operands node after code with operands := node :: outer })) := by
  unfold Ledger.conclude
  rw [run_bind, run_get]
  dsimp only
  rw [run_bind, run]
  rfl

/-- The only origin is what was read. -/
theorem run_only {read : LedgerM (Node Value)} {node : Node Value} {l' : Ledger}
    (run : read.run.run l = (.ok node, l')) :
    (do return [← read] : LedgerM (List (Node Value))).run.run l = (.ok [node], l') := by
  rw [run_bind, run]
  rfl

/-- Where the histories of a record end with the nodes of the slots, both find the same of a local. -/
theorem current_eq {record : Record Value} {slots : Slots Value}
    (latest : ∀ name, (record.histories.getD name []).head? = slots.get? name) (name : String)
    (fresh : Nat) : (record.current name fresh).1 = (slots.current name fresh).1 ∧
      (record.current name fresh).2.1 = (slots.current name fresh).2.1 ∧
      ∀ other, ((record.current name fresh).2.2.histories.getD other []).head? =
        (slots.current name fresh).2.2.get? other := by
  have head := latest name
  unfold Slots.current
  cases known : slots.get? name with
  | some node =>
    rw [known] at head
    obtain ⟨older, history⟩ := List.head?_eq_some_iff.mp head
    rw [Record.current_of_cons history]
    exact ⟨rfl, rfl, latest⟩
  | none =>
    rw [known] at head
    rw [Record.current_of_nil (List.head?_eq_none_iff.mp head)]
    refine ⟨rfl, rfl, fun other => ?_⟩
    rw [Record.history_write, Dict.get?_set]
    split
    · rfl
    · exact latest other

theorem leave_getLocal {name : String} (h : Mirrors exact p (a.inside id (.getLocal name) outer) t l)
    (sound : p.Sound) (traced : a.traced = true) (empty : l.operands = []) :
    Ends (applyLeave tracer p.host (siteOf p.scope id label (.getLocal name)) p.frame value
      .useLocalDefStack) t fun r u => r = .ok () ∧
        Concluded exact p a t l s (siteOf p.scope id label (.getLocal name)) (.getLocal name) value
          outer u := by
  obtain ⟨record, found, stack, marks, locals⟩ := h.traced traced
  obtain ⟨sameNode, sameNext, latest⟩ := current_eq locals name l.next
  rw [empty] at stack
  refine (leave_readLocal h.sane name rfl).mono ?_
  rintro r u ⟨rfl, on⟩
  refine ⟨rfl, ?_⟩
  rw [recordOf_eq found, ← h.next] at on
  dsimp only at on
  have inHistory : exact → ∀ node, l.localNodes.get? name = some node → node ∈ l.made := by
    intro hexact node known
    rw [← locals name] at known
    exact h.made_of_record hexact found (Record.mem_nodes_of_history (List.mem_of_head? known))
  have looked : exact → ∀ other ∈ (record.current name l.next).2.2.nodes,
      other ∈ (l.looked l.localNodes name).made := by
    intro hexact other mem
    rcases Record.nodes_current mem with rfl | old
    · rw [sameNode]
      exact Ledger.found_looked (inHistory hexact)
    · exact Ledger.made_looked (h.made_of_record hexact found old)
  rw [sameNode, sameNext] at on
  obtain ⟨spared, mirrors⟩ := h.pushed sound on traced rfl ((Record.current_stack ..).trans stack)
    ((Record.current_marks ..).trans marks) latest
    (fun _ mem => List.mem_cons_of_mem _ (Ledger.made_looked mem)) fun hexact =>
      ⟨List.mem_cons_self, fun _ mem => List.mem_cons_of_mem _ (looked hexact _ mem)⟩
  exact ⟨_, fun _ => run_conclude _ (run_only (Ledger.run_looked rfl rfl fun _ _ => rfl)), spared,
    mirrors, ⟨rfl, rfl, rfl⟩, _, rfl, rfl, rfl, made_cons_looked List.mem_cons_self rfl rfl⟩

theorem leave_setLocal {name : String} {code : Code}
    (h : Mirrors exact p (a.inside id (.setLocal name code) outer) t l) (sound : p.Sound)
    (traced : a.traced = true) {origin : Node Value} (one : l.operands = [origin]) :
    Ends (applyLeave tracer p.host (siteOf p.scope id label (.setLocal name code)) p.frame value
      .useStackDefLocalStack) t fun r u => r = .ok () ∧
        Concluded exact p a t l s (siteOf p.scope id label (.setLocal name code))
          (.setLocal name code) value outer u := by
  obtain ⟨record, found, stack, marks, locals⟩ := h.traced traced
  rw [one] at stack
  have rule : Ends (applyLeave tracer p.host (siteOf p.scope id label (.setLocal name code)) p.frame
      value .useStackDefLocalStack) t _ := leave_writeLocal h.sane name rfl
  rw [recordOf_eq found, stack] at rule
  refine rule.mono ?_
  rintro r u ⟨rfl, on⟩
  refine ⟨rfl, ?_⟩
  rw [← h.next] at on
  have run : (Ledger.originsOf s l.operands (.setLocal name code)).run.run l = (.ok [origin], l) := by
    rw [one]
    rfl
  have written : ∀ node other, ((Record.write { record with stack := outer ++ a.below } name
      node).histories.getD other []).head? = (l.localNodes.set name node).get? other := by
    intro node other
    rw [Record.history_write, Dict.get?_set]
    split
    · rfl
    · exact locals other
  obtain ⟨spared, mirrors⟩ := h.pushed sound on traced rfl rfl marks (written _)
    (fun _ mem => List.mem_cons_of_mem _ mem) fun hexact =>
      ⟨List.mem_cons_self, fun _ mem => (Record.nodes_write mem).elim
        (fun new => by rw [new]; exact List.mem_cons_self)
        fun old => List.mem_cons_of_mem _
          (h.made_of_record hexact found (Record.nodes_drop [origin] stack old))⟩
  refine ⟨_, fun _ => run_conclude _ run, spared, mirrors, ⟨rfl, rfl, rfl⟩, _, rfl, rfl, rfl,
    made_cons rfl rfl⟩

/-- The node of an argument is the operand that the caller has left for it. -/
theorem run_argument {nodes : List (Node Value)} {index : Nat} {node : Node Value}
    (known : s.arguments = some nodes) (there : nodes[nodes.length - (index + 1)]? = some node)
    (l : Ledger) : (Ledger.argument s index).run.run l = (.ok node, l) := by
  unfold Ledger.argument
  rw [known]
  simp only [there]
  rfl

theorem leave_arg {index : Nat} (h : Mirrors exact p (a.inside id (.arg index) outer) t l)
    (sound : p.Sound) (traced : a.traced = true) (arguments : s.arguments = a.arguments)
    (empty : l.operands = [])
    (bound : ∀ frame, p.world.frame? p.frame = some frame → index < frame.args.length) :
    Ends (applyLeave tracer p.host (siteOf p.scope id label (.arg index)) p.frame value
      .useArgDefStack) t fun r u => r = .ok () ∧
        Concluded exact p a t l s (siteOf p.scope id label (.arg index)) (.arg index) value
          outer u := by
  obtain ⟨record, found, stack, marks, locals⟩ := h.traced traced
  obtain ⟨frame, here, -⟩ := sound.frame
  obtain ⟨known, enough⟩ := h.passed frame here
  have inRange := bound frame here
  rw [empty] at stack
  have rule : Ends (applyLeave tracer p.host (siteOf p.scope id label (.arg index)) p.frame value
      .useArgDefStack) t _ := leave_bindArgument h.sane ⟨index, .fromFrame⟩ rfl
  have caller : callerRecord? p.host t p.frame = frame.caller.bind t.record? := by
    unfold callerRecord? Place.host World.host
    simp only [here, Option.bind_some]
  have count : argumentTotal p.host p.frame ⟨index, .fromFrame⟩ = frame.args.length := by
    unfold argumentTotal Place.host World.host
    simp only [here, Option.map_some, Option.getD_some]
  rw [caller, count, recordOf_eq found, ← h.next] at rule
  refine rule.mono ?_
  intro r u done
  cases recorded : frame.caller.bind t.record? with
  | none =>
    rw [recorded] at done known
    obtain ⟨rfl, on⟩ := done
    refine ⟨rfl, ?_⟩
    have run : (Ledger.argument s index).run.run l =
        (.ok (.unknown l.next), { l with next := l.next + 1, made := .unknown l.next :: l.made }) := by
      unfold Ledger.argument
      rw [arguments, show a.arguments = none from known]
      rfl
    obtain ⟨spared, mirrors⟩ := h.pushed sound on traced rfl stack marks locals
      (fun _ mem => List.mem_cons_of_mem _ (List.mem_cons_of_mem _ mem)) fun hexact =>
        ⟨List.mem_cons_self, fun _ mem => List.mem_cons_of_mem _
          (List.mem_cons_of_mem _ (h.made_of_record hexact found mem))⟩
    refine ⟨_, fun _ => run_conclude _ (run_only run), spared, mirrors, ⟨rfl, rfl, rfl⟩, _, rfl, rfl,
      rfl, made_cons_cons List.mem_cons_self rfl rfl⟩
  | some callerRecord =>
    rw [recorded] at done known
    have long := enough callerRecord recorded
    obtain ⟨node, peeked⟩ : ∃ node, callerRecord.stack[frame.args.length - (index + 1)]? = some node :=
      ⟨_, List.getElem?_eq_getElem (by omega)⟩
    simp only [Record.peekAt, peeked] at done
    obtain ⟨rfl, on⟩ := done
    refine ⟨rfl, ?_⟩
    have length : (callerRecord.stack.take frame.args.length).length = frame.args.length :=
      List.length_take_of_le long
    have run := run_argument (arguments.trans known)
      (show _ = some node by rw [length, List.getElem?_take_of_lt (by omega)]; exact peeked) l
    obtain ⟨spared, mirrors⟩ := h.pushed sound on traced rfl stack marks locals
      (fun _ mem => List.mem_cons_of_mem _ mem) fun hexact =>
        ⟨List.mem_cons_self, fun _ mem => List.mem_cons_of_mem _ (h.made_of_record hexact found mem)⟩
    refine ⟨_, fun _ => run_conclude _ (run_only run), spared, mirrors, ⟨rfl, rfl, rfl⟩, _, rfl, rfl,
      rfl, made_cons rfl rfl⟩

theorem leave_getClassVariable {name : String}
    (h : Mirrors exact p (a.inside id (.getClassVariable name) outer) t l) (sound : p.Sound)
    (traced : a.traced = true) (empty : l.operands = []) :
    Ends (applyLeave tracer p.host (siteOf p.scope id label (.getClassVariable name)) p.frame value
      .useClassVarDefStack) t fun r u => r = .ok () ∧
        Concluded exact p a t l s (siteOf p.scope id label (.getClassVariable name))
          (.getClassVariable name) value outer u := by
  obtain ⟨record, found, stack, marks, locals⟩ := h.traced traced
  rw [empty] at stack
  refine (leave_readClassVariable h.sane ⟨name, p.scope⟩ rfl).mono ?_
  rintro r u ⟨rfl, mid, read, on⟩
  refine ⟨rfl, ?_⟩
  rw [recordOf_eq found] at on
  rw [← h.next] at on read
  have between := h.onScope read (fun _ => Ledger.made_looked) fun hexact _ =>
    Ledger.mem_looked fun _ mem => (h.stored hexact).nodes _ (mem_nodes_of_scope mem)
  obtain ⟨spared, mirrors⟩ := between.pushed sound on traced rfl stack marks locals
    (fun _ mem => List.mem_cons_of_mem _ mem) fun hexact =>
      ⟨List.mem_cons_self, fun _ mem => List.mem_cons_of_mem _
        (Ledger.made_looked (h.made_of_record hexact found mem))⟩
  exact ⟨_, fun hexact => run_conclude _
      (run_only (Ledger.run_looked (h.stored hexact).classes rfl fun _ _ => rfl)),
    (Place.Spared.of_frames read.frames).trans spared, mirrors, ⟨rfl, rfl, rfl⟩, _, rfl, rfl, rfl,
    made_cons_looked List.mem_cons_self rfl rfl⟩

theorem leave_getGlobal {name : String}
    (h : Mirrors exact p (a.inside id (.getGlobal name) outer) t l) (sound : p.Sound)
    (traced : a.traced = true) (empty : l.operands = []) :
    Ends (applyLeave tracer p.host (siteOf p.scope id label (.getGlobal name)) p.frame value
      .useGlobalDefStack) t fun r u => r = .ok () ∧
        Concluded exact p a t l s (siteOf p.scope id label (.getGlobal name)) (.getGlobal name) value
          outer u := by
  obtain ⟨record, found, stack, marks, locals⟩ := h.traced traced
  rw [empty] at stack
  refine (leave_readGlobal h.sane name rfl).mono ?_
  rintro r u ⟨rfl, mid, read, on⟩
  refine ⟨rfl, ?_⟩
  rw [recordOf_eq found] at on
  rw [← h.next] at on read
  have between := h.onGlobals read (fun _ => Ledger.made_looked) fun hexact _ =>
    Ledger.mem_looked fun _ mem =>
      (h.stored hexact).nodes _ (mem_nodes.mpr (.inr (.inr (.inr mem))))
  obtain ⟨spared, mirrors⟩ := between.pushed sound on traced rfl stack marks locals
    (fun _ mem => List.mem_cons_of_mem _ mem) fun hexact =>
      ⟨List.mem_cons_self, fun _ mem => List.mem_cons_of_mem _
        (Ledger.made_looked (h.made_of_record hexact found mem))⟩
  exact ⟨_, fun hexact => run_conclude _
      (run_only (Ledger.run_looked (h.stored hexact).globals rfl fun _ _ => rfl)),
    (Place.Spared.of_frames read.frames).trans spared, mirrors, ⟨rfl, rfl, rfl⟩, _, rfl, rfl, rfl,
    made_cons_looked List.mem_cons_self rfl rfl⟩

/-- The operands of a piece have been taken off the stack, and no node has been pushed yet. -/
theorem consumed (h : Mirrors exact p (a.inside id code outer) t l) (sound : p.Sound)
    (traced : a.traced = true) {record r : Record Value} (found : t.record? p.frame = some record)
    {mid : Shadow kinds} {n : Nat} (on : OnRecord p.host.MayDrop p.frame t mid r n)
    (stack : r.stack = outer ++ a.below) (marks : r.marks = a.marks)
    (histories : r.histories = record.histories) (nodes : ∀ node ∈ r.nodes, node ∈ record.nodes)
    {m : List (Node Value)} (made : ∀ other ∈ l.made, other ∈ m) :
    p.Spared t mid ∧
      Mirrors exact p a mid { l with operands := outer, next := n, made := m } := by
  obtain ⟨_, same, before⟩ := h.traced traced
  rw [found] at same
  cases same
  refine h.onRecord sound on traced rfl ⟨stack, marks, ?_⟩ rfl ⟨rfl, rfl, rfl⟩ made ?_
  · rw [histories]
    exact before.locals
  · exact fun hexact node mem => made node (h.made_of_record hexact found (nodes node mem))

theorem leave_setClassVariable {name : String} {code : Code}
    (h : Mirrors exact p (a.inside id (.setClassVariable name code) outer) t l) (sound : p.Sound)
    (traced : a.traced = true) {origin : Node Value} (one : l.operands = [origin]) :
    Ends (applyLeave tracer p.host (siteOf p.scope id label (.setClassVariable name code)) p.frame
      value .useStackDefClassVar) t fun r u => r = .ok () ∧
        Concluded exact p a t l s (siteOf p.scope id label (.setClassVariable name code))
          (.setClassVariable name code) value outer u := by
  obtain ⟨record, found, stack, marks, locals⟩ := h.traced traced
  have rule : Ends (applyLeave tracer p.host (siteOf p.scope id label (.setClassVariable name code))
      p.frame value .useStackDefClassVar) t _ := leave_writeClassVariable h.sane ⟨name, p.scope⟩ rfl
  rw [recordOf_eq found, stack, one] at rule
  refine rule.mono ?_
  rintro r u ⟨rfl, mid, late, pop, write, on⟩
  refine ⟨rfl, ?_⟩
  rw [← h.next] at pop write on
  have run : (Ledger.originsOf s l.operands (.setClassVariable name code)).run.run l =
      (.ok [origin], l) := by
    rw [one]
    rfl
  let node := (siteOf p.scope id label (.setClassVariable name code)).node l.next value [origin]
  have fewer : ∀ other, other ∈ ({ record with stack := outer ++ a.below } : Record Value).nodes →
      other ∈ record.nodes := fun _ => Record.nodes_drop [origin] (one ▸ stack)
  obtain ⟨sparedPop, afterPop⟩ := consumed h sound traced found pop rfl marks rfl fewer
    (m := node :: l.made) fun _ mem => List.mem_cons_of_mem _ mem
  have afterWrite := afterPop.onScope write (m := node :: l.made) (fun _ mem => mem)
    fun hexact _ => mem_cons_of_set fun _ old => (h.stored hexact).nodes _ (mem_nodes_of_scope old)
  obtain ⟨sparedPush, mirrors⟩ := afterWrite.pushed (m := node :: l.made) sound on traced rfl rfl
    marks locals (fun _ mem => mem) fun hexact => ⟨List.mem_cons_self, fun _ mem =>
      (afterPop.stored hexact).nodes _ (pop.mem_nodes mem)⟩
  refine ⟨_, fun hexact => (run_conclude _ run).trans ?_,
    (sparedPop.trans (.of_frames write.frames)).trans sparedPush, mirrors, ⟨rfl, rfl, rfl⟩, _, rfl,
    rfl, rfl, made_cons rfl rfl⟩
  rw [← (h.stored hexact).classes]
  rfl

theorem leave_setGlobal {name : String} {code : Code}
    (h : Mirrors exact p (a.inside id (.setGlobal name code) outer) t l) (sound : p.Sound)
    (traced : a.traced = true) {origin : Node Value} (one : l.operands = [origin]) :
    Ends (applyLeave tracer p.host (siteOf p.scope id label (.setGlobal name code)) p.frame
      value .useStackDefGlobal) t fun r u => r = .ok () ∧
        Concluded exact p a t l s (siteOf p.scope id label (.setGlobal name code))
          (.setGlobal name code) value outer u := by
  obtain ⟨record, found, stack, marks, locals⟩ := h.traced traced
  have rule : Ends (applyLeave tracer p.host (siteOf p.scope id label (.setGlobal name code)) p.frame
      value .useStackDefGlobal) t _ := leave_writeGlobal h.sane name rfl
  rw [recordOf_eq found, stack, one] at rule
  refine rule.mono ?_
  rintro r u ⟨rfl, mid, late, pop, write, on⟩
  refine ⟨rfl, ?_⟩
  rw [← h.next] at pop write on
  have run : (Ledger.originsOf s l.operands (.setGlobal name code)).run.run l =
      (.ok [origin], l) := by
    rw [one]
    rfl
  let node := (siteOf p.scope id label (.setGlobal name code)).node l.next value [origin]
  have fewer : ∀ other, other ∈ ({ record with stack := outer ++ a.below } : Record Value).nodes →
      other ∈ record.nodes := fun _ => Record.nodes_drop [origin] (one ▸ stack)
  obtain ⟨sparedPop, afterPop⟩ := consumed h sound traced found pop rfl marks rfl fewer
    (m := node :: l.made) fun _ mem => List.mem_cons_of_mem _ mem
  have afterWrite := afterPop.onGlobals write (m := node :: l.made) (fun _ mem => mem)
    fun hexact _ => mem_cons_of_set fun _ old =>
      (h.stored hexact).nodes _ (mem_nodes.mpr (.inr (.inr (.inr old))))
  obtain ⟨sparedPush, mirrors⟩ := afterWrite.pushed (m := node :: l.made) sound on traced rfl rfl
    marks locals (fun _ mem => mem) fun hexact => ⟨List.mem_cons_self, fun _ mem =>
      (afterPop.stored hexact).nodes _ (pop.mem_nodes mem)⟩
  refine ⟨_, fun hexact => (run_conclude _ run).trans ?_,
    (sparedPop.trans (.of_frames write.frames)).trans sparedPush, mirrors, ⟨rfl, rfl, rfl⟩, _, rfl,
    rfl, rfl, made_cons rfl rfl⟩
  rw [← (h.stored hexact).globals]
  rfl

/-- What taking the operands of a piece does that expects a receiver among them. -/
theorem run_takeReceiver_of_stack {record : Record Value} {site : Site kinds} {receiver : Node Value}
    {others below : List (Node Value)} {marks : List DepthMark} (absent : Violation)
    (marked : record.marks = ⟨site.id, below.length⟩ :: marks)
    (stack : record.stack = receiver :: others ++ below) (n : Nat) :
    (takeReceiver site absent).run.run (record, n) =
      (.ok (receiver, others), { record with stack := below, marks }, n) := by
  rw [run_takeReceiver, run_takeOperands_of_marks marked stack]

/-- Of a checkpoint at which `value` is told: the graph was well formed before, the value is at hand,
    and afterwards the store has the nodes that are kept. -/
structure Settles (p : Place) (t : Shadow kinds) (value : Value) (work : ShadowM kinds Unit) :
    Prop where
  graph : t.WellFormed
  told : ∀ e ∈ Entity.ofValue value, e ∈ p.held
  left : Ends work t fun _ u => u.store.nodes = p.kept

/-- Where all that is kept in the end was computed from nodes that were in hand or in the store at every
    moment, no object is lost that is still alive. -/
theorem Place.not_lost {inHand : List (Node Value)} {mid late : Shadow kinds} {G : Node Value → Prop}
    (told : Node.Told G) (inside : ∀ node ∈ inHand ++ mid.store.nodes, G node)
    (used : ∀ e ∈ Entity.ofValue value, e ∈ p.held) {object : ObjectId}
    (reached : mid.objectSlots object = {} → ∀ kept,
      (∀ node ∈ late.store.nodes, node ∈ (late.objectSlots object).values ∨ node ∈ kept) →
      ∀ node, Node.Reached p.kept node → node.value = some value ∨ node.value = none ∨
        Node.Reached (inHand ++ kept) node) (o : ObjectId) (made : p.world.Made (.object o))
    (lives : p.Lives o) : ¬ p.host.Lost inHand mid late object o := by
  rintro ⟨new, kept, before, stays, dead⟩
  have subset : ∀ node ∈ inHand ++ kept, G node := fun node mem => inside node <|
    List.mem_append.mpr ((List.mem_append.mp mem).imp_right (before ·))
  refine Bool.false_ne_true (dead.symm.trans (World.object_survives told subset made (lives.mono ?_)))
  rintro e (mem | ⟨node, v, left, known, owned⟩)
  · exact .direct (.inl mem)
  · rcases reached (objectSlots_of_none new) kept stays node left with same | unknown | before
    · obtain rfl : v = value := Option.some.inj (known.symm.trans same)
      exact .direct (.inl (used e owned))
    · rw [unknown] at known
      cases known
    · exact .direct (.inr ⟨node, v, before, known, owned⟩)

/-- No object is lost where a property is written. -/
theorem Settles.not_lost_write {work : ShadowM kinds Unit} (settles : Settles p t value work)
    {record r : Record Value} {node : Node Value} (found : t.record? p.frame = some record)
    (number : node.seq = t.nextSeq) (formed : node.Formed)
    (origins : ∀ n ∈ node.origins, n ∈ record.nodes) {mid late u : Shadow kinds} {n k : Nat}
    {o : ObjectId} {name : String} (take : OnRecord p.host.MayDrop p.frame t mid r n)
    (fewer : ∀ n ∈ r.nodes, n ∈ record.nodes)
    (write : OnObject (p.host.Lost [node] mid late o) o mid late ((t.objectSlots o).set name node) n)
    (on : OnRecord p.host.MayDrop p.frame late u (r.push node) k) (left : u.store.nodes = p.kept)
    (other : ObjectId) (made : p.world.Made (.object other)) (lives : p.Lives other) :
    ¬ p.host.Lost [node] mid late o other := by
  have inRecord : ∀ n ∈ record.nodes, Node.Reached t.store.nodes n := fun n mem =>
    .root (mem_nodes_of_record p.frame (recordOf_eq found ▸ mem))
  have family : Node.Family (fun _ => True) (Node.Reached t.store.nodes) t.nextSeq :=
    settles.graph.family fun _ _ => trivial
  have told := (family.add number (fun n mem => inRecord n (origins n mem)) formed trivial).toTold
  refine Place.not_lost told ?_ settles.told (fun new kept stays n reached => .inr (.inr ?_)) other made
    lives
  · intro n mem
    rcases List.mem_append.mp mem with mem | mem
    · exact .inr (List.mem_singleton.mp mem)
    · exact .inl ((take.nodes mem).elim (fun inside => inRecord n (fewer n inside)) .root)
  · have there : ∀ n ∈ late.store.nodes, Node.Reached ([node] ++ kept) n := by
      intro n mem
      rcases stays n mem with inside | old
      · rw [write.objectSlots, ← objectSlots_congr take.objects, new] at inside
        rcases Dict.mem_values_set inside with rfl | none'
        · exact .root List.mem_cons_self
        · cases none'
      · exact .root (List.mem_cons_of_mem _ old)
    rw [← left] at reached
    refine reached.mono fun n mem => ?_
    rcases on.nodes mem with inside | mem
    · rcases Record.nodes_push inside with rfl | inside
      · exact .root List.mem_cons_self
      · refine there n (mem_nodes_of_record p.frame ?_)
        rwa [recordOf_congr write.frames, take.recordOf]
    · exact there n mem

/-- No object is lost where a property is read. -/
theorem Settles.not_lost_read {work : ShadowM kinds Unit} (settles : Settles p t value work)
    {record r : Record Value} {used : List (Node Value)} (found : t.record? p.frame = some record)
    (operands : ∀ n ∈ used, n ∈ record.nodes) {mid late u : Shadow kinds} {n : Nat} {o : ObjectId}
    {name : String} (take : OnRecord p.host.MayDrop p.frame t mid r n)
    (fewer : ∀ n ∈ r.nodes, n ∈ record.nodes) {current : Node Value × Nat × Slots Value}
    (reads : current = (t.objectSlots o).current name n)
    (read : OnObject (p.host.Lost used mid late o) o mid late current.2.2 current.2.1)
    {site : Site kinds} (on : OnRecord p.host.MayDrop p.frame late u
      (r.push (site.node current.2.1 value (used ++ [current.1]))) (current.2.1 + 1))
    (left : u.store.nodes = p.kept) (other : ObjectId) (made : p.world.Made (.object other))
    (lives : p.Lives other) : ¬ p.host.Lost used mid late o other := by
  have inRecord : ∀ n ∈ record.nodes, Node.Reached t.store.nodes n := fun n mem =>
    .root (mem_nodes_of_record p.frame (recordOf_eq found ▸ mem))
  have family : Node.Family (fun _ => True) (Node.Reached t.store.nodes) t.nextSeq :=
    settles.graph.family fun _ _ => trivial
  refine Place.not_lost family.toTold ?_ settles.told (fun new kept stays n' reached => ?_) other made
    lives
  · intro n mem
    rcases List.mem_append.mp mem with mem | mem
    · exact inRecord n (operands n mem)
    · exact (take.nodes mem).elim (fun inside => inRecord n (fewer n inside)) .root
  · -- the slot that is read is a new one
    rw [objectSlots_congr take.objects] at new
    rw [new] at reads
    subst reads
    let node := site.node (n + 1) value (used ++ [.unknown n])
    let Before (a : Node Value) := a = .unknown n ∨ Node.Reached (used ++ kept) a
    have there : ∀ a ∈ late.store.nodes, Before a := by
      intro a mem
      rcases stays a mem with inside | old
      · rw [read.objectSlots] at inside
        exact (Dict.mem_values_set inside).imp_right fun none' => absurd none' List.not_mem_nil
      · exact .inr (.root (List.mem_append_right _ old))
    have all : n' = node ∨ Before n' := by
      rw [← left] at reached
      induction reached with
      | root mem =>
        rcases on.nodes mem with inside | mem
        · refine (Record.nodes_push inside).imp_right fun inside =>
            there _ (mem_nodes_of_record p.frame ?_)
          rwa [recordOf_congr read.frames, take.recordOf]
        · exact .inr (there _ mem)
      | origin _ mem ih =>
        rcases ih with rfl | rfl | before
        · rcases List.mem_append.mp mem with mem | mem
          · exact .inr (.inr (.root (List.mem_append_left _ mem)))
          · exact .inr (.inl (List.mem_singleton.mp mem))
        · cases mem
        · exact .inr (.inr (.origin before mem))
    rcases all with rfl | rfl | before
    · exact .inl rfl
    · exact .inr (.inl rfl)
    · exact .inr (.inr before)

theorem leave_setProperty {name : String} {target code : Code}
    (h : Mirrors exact p (a.inside id (.setProperty target name code) outer) t l) (sound : p.Sound)
    (traced : a.traced = true) {receiver : Node Value} {others : List (Node Value)}
    (some' : l.operands = receiver :: others)
    (settles : exact → Settles p t value (applyLeave tracer p.host
      (siteOf p.scope id label (.setProperty target name code)) p.frame value
      .useStackDefPropertyStack))
    (known : exact → ∀ o, Ledger.objectBehind receiver = some o →
      p.world.Made (.object o) ∧ l.propertyNodes o = t.objectSlots o) :
    Ends (applyLeave tracer p.host (siteOf p.scope id label (.setProperty target name code)) p.frame
      value .useStackDefPropertyStack) t fun r u => r = .ok () ∧
        Concluded exact p a t l s (siteOf p.scope id label (.setProperty target name code))
          (.setProperty target name code) value outer u := by
  obtain ⟨record, found, stack, marks, locals⟩ := h.traced traced
  rw [some'] at stack
  have marked : record.marks = ⟨(siteOf p.scope id label (.setProperty target name code)).id,
      (outer ++ a.below).length⟩ :: a.marks := marks
  have left : Ends (applyLeave tracer p.host (siteOf p.scope id label (.setProperty target name code))
      p.frame value .useStackDefPropertyStack) t fun _ u => exact → u.store.nodes = p.kept :=
    fun hexact => (settles hexact).left
  refine ((leave_assignProperty h.sane name rfl (by
    rw [recordOf_eq found]
    exact run_takeReceiver_of_stack _ marked stack t.nextSeq)).both left).mono ?_
  rintro r u ⟨⟨rfl, mid, late, take, write, on⟩, left⟩
  refine ⟨rfl, ?_⟩
  rw [← h.next] at take write on
  have run : (Ledger.originsOf s l.operands (.setProperty target name code)).run.run l =
      (.ok (receiver :: others), l) := by
    rw [some']
    rfl
  let node := (siteOf p.scope id label (.setProperty target name code)).node l.next value
    (receiver :: others)
  have fewer : ∀ other, other ∈ ({ record with
      stack := outer ++ a.below, marks := a.marks } : Record Value).nodes →
      other ∈ record.nodes := fun _ => Record.nodes_drop (receiver :: others) stack
  obtain ⟨sparedTake, afterTake⟩ := consumed h sound traced found take rfl rfl rfl fewer
    (m := node :: l.made) fun _ mem => List.mem_cons_of_mem _ mem
  rw [objectBehind_host] at write
  cases behind : Ledger.objectBehind receiver with
  | none =>
    rw [behind] at write
    have wrote : ∀ after : Ledger,
        Ledger.writeSlot l.operands node after (.setProperty target name code) = after := by
      intro after
      simp [Ledger.writeSlot, some', behind]
    obtain ⟨sparedPush, mirrors⟩ := (afterTake.same write).pushed (m := node :: l.made) sound on
      traced rfl rfl rfl locals (fun _ mem => mem) fun hexact => ⟨List.mem_cons_self, fun _ mem =>
        (afterTake.stored hexact).nodes _ (take.mem_nodes mem)⟩
    refine ⟨_, fun _ => (run_conclude _ run).trans ?_,
      (sparedTake.trans_same write).trans sparedPush, mirrors, ⟨rfl, rfl, rfl⟩, _, rfl, rfl, rfl,
      made_cons rfl rfl⟩
    dsimp only
    rw [wrote]
  | some o =>
    rw [behind] at write
    have wrote : ∀ after : Ledger,
        Ledger.writeSlot l.operands node after (.setProperty target name code) =
          Ledger.putProperties o ((after.propertyNodes o).set name node) after := by
      intro after
      simp [Ledger.writeSlot, some', behind]
    have operands : ∀ n ∈ receiver :: others, n ∈ record.nodes := fun n mem =>
      Record.mem_nodes.mpr (.inl (stack ▸ List.mem_append_left _ mem))
    have formed : node.Formed := Option.some_ne_none value
    have afterWrite := afterTake.onObject write (m := node :: l.made)
      (fun hexact => (known hexact o behind).1) (fun hexact => (settles hexact).not_lost_write found
        h.next formed operands take fewer write on (left hexact)) (fun _ mem => mem)
      fun hexact _ => mem_cons_of_set fun _ old =>
        (h.stored hexact).nodes _ (mem_nodes_of_object old)
    obtain ⟨sparedPush, mirrors⟩ := afterWrite.pushed (m := node :: l.made) sound on traced rfl
      rfl rfl locals (fun _ mem => mem) fun hexact => ⟨List.mem_cons_self, fun _ mem =>
        (afterTake.stored hexact).nodes _ (take.mem_nodes mem)⟩
    refine ⟨_, fun hexact => (run_conclude _ run).trans ?_,
      (sparedTake.trans (.of_frames write.frames)).trans sparedPush, mirrors, ⟨rfl, rfl, rfl⟩, _,
      rfl, rfl, rfl, made_cons rfl rfl⟩
    dsimp only
    rw [wrote, ← (known hexact o behind).2]
    rfl

theorem leave_getProperty {name : String} {target : Code}
    (h : Mirrors exact p (a.inside id (.getProperty target name) outer) t l) (sound : p.Sound)
    (traced : a.traced = true) {receiver : Node Value} {others : List (Node Value)}
    (some' : l.operands = receiver :: others)
    (settles : exact → Settles p t value (applyLeave tracer p.host
      (siteOf p.scope id label (.getProperty target name)) p.frame value .usePropertyStackDefStack))
    (known : exact → ∀ o, Ledger.objectBehind receiver = some o →
      p.world.Made (.object o) ∧ l.propertyNodes o = t.objectSlots o) :
    Ends (applyLeave tracer p.host (siteOf p.scope id label (.getProperty target name)) p.frame
      value .usePropertyStackDefStack) t fun r u => r = .ok () ∧
        Concluded exact p a t l s (siteOf p.scope id label (.getProperty target name))
          (.getProperty target name) value outer u := by
  obtain ⟨record, found, stack, marks, locals⟩ := h.traced traced
  rw [some'] at stack
  have marked : record.marks = ⟨(siteOf p.scope id label (.getProperty target name)).id,
      (outer ++ a.below).length⟩ :: a.marks := marks
  have left : Ends (applyLeave tracer p.host (siteOf p.scope id label (.getProperty target name))
      p.frame value .usePropertyStackDefStack) t fun _ u => exact → u.store.nodes = p.kept :=
    fun hexact => (settles hexact).left
  refine ((leave_fetchProperty h.sane name rfl (by
    rw [recordOf_eq found]
    exact run_takeReceiver_of_stack _ marked stack t.nextSeq)).both left).mono ?_
  rintro r u ⟨⟨rfl, mid, late, slot, seq, take, read, on⟩, left⟩
  refine ⟨rfl, ?_⟩
  rw [← h.next] at take read
  have fewer : ∀ other, other ∈ ({ record with
      stack := outer ++ a.below, marks := a.marks } : Record Value).nodes →
      other ∈ record.nodes := fun _ => Record.nodes_drop (receiver :: others) stack
  obtain ⟨sparedTake, afterTake⟩ := consumed h sound traced found take rfl rfl rfl fewer
    (m := l.made) fun _ mem => mem
  rw [objectBehind_host] at read
  cases behind : Ledger.objectBehind receiver with
  | none =>
    rw [behind] at read
    have origins : Ledger.originsOf s l.operands (.getProperty target name) = do
        return receiver :: others ++ [← Ledger.create none none []] := by
      simp [Ledger.originsOf, some', behind]
    obtain ⟨rfl, rfl, store, seq⟩ := read
    have between := afterTake.fresh (m := .unknown l.next :: l.made) store seq
      fun _ mem => List.mem_cons_of_mem _ mem
    obtain ⟨sparedPush, mirrors⟩ := between.pushed sound on traced rfl rfl rfl locals
      (fun _ mem => List.mem_cons_of_mem _ mem) fun hexact => ⟨List.mem_cons_self, fun _ mem =>
        List.mem_cons_of_mem _ ((between.stored hexact).nodes _ (store ▸ take.mem_nodes mem))⟩
    have run : (Ledger.originsOf s l.operands (.getProperty target name)).run.run l =
        (.ok (receiver :: others ++ [.unknown l.next]),
          { l with next := l.next + 1, made := .unknown l.next :: l.made }) := by
      rw [origins]
      rfl
    refine ⟨_, fun _ => run_conclude _ run,
      (sparedTake.trans (.of_frames (by rw [store]))).trans sparedPush, mirrors, ⟨rfl, rfl, rfl⟩, _,
      rfl, rfl, rfl, made_cons_cons (List.mem_append_right _ List.mem_cons_self) rfl rfl⟩
  | some o =>
    rw [behind] at read
    have origins : Ledger.originsOf s l.operands (.getProperty target name) = do
        return receiver :: others ++
          [← Ledger.current (·.propertyNodes o) (Ledger.putProperties o) name] := by
      simp [Ledger.originsOf, some', behind]
    obtain ⟨rfl, rfl, read⟩ := read
    have operands : ∀ n ∈ receiver :: others, n ∈ record.nodes := fun n mem =>
      Record.mem_nodes.mpr (.inl (stack ▸ List.mem_append_left _ mem))
    have notLost := fun hexact => (settles hexact).not_lost_read found operands take fewer rfl read on
      (left hexact)
    have between := afterTake.onObject read (fun hexact => (known hexact o behind).1) notLost
      (fun _ => Ledger.made_looked) fun hexact _ =>
        Ledger.mem_looked fun _ mem => (h.stored hexact).nodes _ (mem_nodes_of_object mem)
    obtain ⟨sparedPush, mirrors⟩ := between.pushed sound on traced rfl rfl rfl locals
      (fun _ mem => List.mem_cons_of_mem _ mem) fun hexact => ⟨List.mem_cons_self, fun _ mem =>
        List.mem_cons_of_mem _ (Ledger.made_looked ((afterTake.stored hexact).nodes _
          (take.mem_nodes mem)))⟩
    have gathered : exact → (Ledger.originsOf s l.operands (.getProperty target name)).run.run l =
        (.ok (receiver :: others ++ [((t.objectSlots o).current name l.next).1]),
          Ledger.putProperties o ((t.objectSlots o).current name l.next).2.2
            (l.looked (t.objectSlots o) name)) := by
      intro hexact
      rw [origins, run_bind, Ledger.run_looked (known hexact o behind).2
        (Ledger.putProperties_self o l) fun _ _ => rfl]
      rfl
    exact ⟨_, fun hexact => run_conclude _ (gathered hexact),
      (sparedTake.trans (.of_frames read.frames)).trans sparedPush, mirrors, ⟨rfl, rfl, rfl⟩, _, rfl,
      rfl, rfl, made_cons_looked (List.mem_append_right _ List.mem_cons_self) rfl rfl⟩

theorem applyLeave_piece (h : Mirrors exact p (a.inside id code outer) t l) (sound : p.Sound)
    (traced : a.traced = true) (arguments : s.arguments = a.arguments)
    (piece : code.Piece p.scope true)
    (settles : exact → Settles p t value
      (applyLeave tracer p.host (siteOf p.scope id label code) p.frame value (categoryOf code)))
    (ready : Ready exact p t l code) :
    Ends (applyLeave tracer p.host (siteOf p.scope id label code) p.frame value
      (categoryOf code)) t fun r u => r = .ok () ∧
        Concluded exact p a t l s (siteOf p.scope id label code) code value outer u := by
  cases piece with
  | int n => exact leave_leaf h sound traced rfl ready rfl
  | str text => exact leave_leaf h sound traced rfl ready rfl
  | nil => exact leave_leaf h sound traced rfl ready rfl
  | new className => exact leave_leaf h sound traced rfl ready rfl
  | getLocal name => exact leave_getLocal h sound traced ready
  | setLocal name value =>
    obtain ⟨origin, one⟩ := ready
    exact leave_setLocal h sound traced one
  | arg index => exact leave_arg h sound traced arguments ready.1 ready.2
  | add left right => exact leave_consume h sound traced rfl rfl
  | call name args => exact leave_consume h sound traced rfl rfl
  | getProperty name receiver =>
    obtain ⟨node, others, some', known⟩ := ready
    exact leave_getProperty h sound traced some' settles known
  | setProperty name value receiver =>
    obtain ⟨node, others, some', known⟩ := ready
    exact leave_setProperty h sound traced some' settles known
  | getGlobal name => exact leave_getGlobal h sound traced ready
  | setGlobal name value =>
    obtain ⟨origin, one⟩ := ready
    exact leave_setGlobal h sound traced one
  | getClassVariable name => exact leave_getClassVariable h sound traced ready
  | setClassVariable name value =>
    obtain ⟨origin, one⟩ := ready
    exact leave_setClassVariable h sound traced one
  | ret value => exact ready.elim
  | body statements => exact leave_consume h sound traced rfl rfl

/-- A piece that has come to a value leaves one node of its own in place of its operands. -/
theorem leave_piece (id : SiteId) (label : String)
    (h : Mirrors exact p (a.inside id code outer) t l) (sound : p.Sound) (traced : a.traced = true)
    (arguments : s.arguments = a.arguments)
    (piece : code.Piece p.scope true)
    (settles : exact → Settles p t value
      (tracer.leave p.host (siteOf p.scope id label code) p.frame value))
    (ready : Ready exact p t l code) :
    Ends (tracer.leave p.host (siteOf p.scope id label code) p.frame value) t fun r u =>
      r = .ok () ∧
        Concluded exact p a t l s (siteOf p.scope id label code) code value outer u := by
  unfold leave at settles ⊢
  rw [ends_bind, ShadowM.ends_note]
  have noted := h.same (u := t.note .trace "router return" (Checkpoint.siteFields
    (siteOf p.scope id label code) ++ [("value", kinds.inspect value)])) ⟨rfl, rfl⟩
  have stillReady : Ready exact p (t.note .trace "router return" (Checkpoint.siteFields
      (siteOf p.scope id label code) ++ [("value", kinds.inspect value)])) l code := by
    cases code <;> exact ready
  have stillSettles : exact → Settles p (t.note .trace "router return" (Checkpoint.siteFields
      (siteOf p.scope id label code) ++ [("value", kinds.inspect value)])) value
      (applyLeave tracer p.host (siteOf p.scope id label code) p.frame value (categoryOf code)) := by
    intro hexact
    obtain ⟨graph, told, left⟩ := settles hexact
    rw [ends_bind, ShadowM.ends_note] at left
    exact ⟨graph.of_same ⟨rfl, rfl⟩, told,
      nodes_of_rules_piece piece id label left fun u => ⟨rfl, rfl, rfl⟩⟩
  refine ends_rules_piece piece id label
    (applyLeave_piece noted sound traced arguments piece stillSettles stillReady) ?_ ?_
  · exact fun u => ⟨rfl, rfl, rfl⟩
  · rintro u v same ⟨l', ledger, spared, mirrors, rest⟩
    exact ⟨l', ledger, spared.trans_same same, mirrors.same same, rest⟩

/-! ### On unwind -/

/-- The ledger and the shadow state after a `return` has passed through a piece. -/
def Abandoned (exact : Prop) (p : Place) (a : Activation) (t : Shadow kinds) (l : Ledger)
    (site : Site kinds) (code : Code) (value : Value) (outer : List (Node Value))
    (u : Shadow kinds) : Prop :=
  ∃ l', (exact → (Ledger.abandon site code outer).run.run l = (.ok (), l')) ∧
    p.Spared t u ∧ Mirrors exact p a u l' ∧ l.SameRun l' ∧
      ∃ node left, l'.operands = node :: left ++ outer ∧ node.value = some value ∧
        MadeFor node l l' ∧ (u.recordOf p.frame).result = some node

theorem unwind_ret {code : Code} {exception : String}
    (h : Mirrors exact p (a.inside id (.ret code) outer) t l) (sound : p.Sound)
    (traced : a.traced = true) {node : Node Value} {left : List (Node Value)}
    (some' : l.operands = node :: left) (returned : node.value = some value) :
    Ends (applyUnwind p.host (siteOf p.scope id label (.ret code)) p.frame exception
      .useStackDefReturn) t fun r u => r = .ok () ∧
        Abandoned exact p a t l (siteOf p.scope id label (.ret code)) (.ret code) value outer u := by
  obtain ⟨record, found, stack, marks, locals⟩ := h.traced traced
  have rule : Ends (applyUnwind p.host (siteOf p.scope id label (.ret code)) p.frame exception
      .useStackDefReturn) t _ := unwind_return h.sane exception
  rw [recordOf_eq found, stack, some'] at rule
  refine rule.mono ?_
  rintro r u ⟨rfl, on⟩
  refine ⟨rfl, ?_⟩
  rw [← h.next] at on
  let late : Node Value :=
    ⟨l.next, creatorOf (siteOf p.scope id label (.ret code)), node.value, [node]⟩
  let later : Ledger :=
    { l with operands := late :: left ++ outer, next := l.next + 1, made := late :: l.made }
  have recorded : Recorded a ((Record.push { record with stack := left ++ (outer ++ a.below) }
      late).setResult late) later :=
    ⟨congrArg (late :: ·) (List.append_assoc ..).symm, marks, locals⟩
  obtain ⟨spared, mirrors⟩ := h.onRecord sound on traced rfl recorded rfl ⟨rfl, rfl, rfl⟩
    (fun _ mem => List.mem_cons_of_mem _ mem) fun hexact other mem => by
      rcases Record.nodes_setResult mem with new | mem
      · exact new ▸ List.mem_cons_self
      · rcases Record.nodes_push mem with new | mem
        · exact new ▸ List.mem_cons_self
        · exact List.mem_cons_of_mem _ (h.made_of_record hexact found
            (Record.nodes_drop [node] (by rw [stack, some']; rfl) mem))
  refine ⟨_, fun _ => ?_, spared, mirrors, ⟨rfl, rfl, rfl⟩, late, left, rfl, returned,
    made_cons rfl rfl, by rw [on.recordOf]; rfl⟩
  unfold Ledger.abandon
  rw [run_bind, run_get]
  dsimp only
  rw [some']
  rfl

/-- A piece that is no `return` forgets the depth that it has noted; its operands stay, and so does
    the node of the `return`. -/
theorem unwind_other_piece {exception : String} (h : Mirrors exact p (a.inside id code outer) t l)
    (sound : p.Sound) (traced : a.traced = true) (notReturn : categoryOf code ≠ .useStackDefReturn) :
    Ends (applyUnwind p.host (siteOf p.scope id label code) p.frame exception (categoryOf code)) t
      fun r u => r = .ok () ∧
        (p.Spared t u ∧ Mirrors exact p a u { l with operands := l.operands ++ outer }) ∧
        (u.recordOf p.frame).result = (t.recordOf p.frame).result := by
  obtain ⟨record, found, stack, marks, locals⟩ := h.traced traced
  have regrouped : record.stack = (l.operands ++ outer) ++ a.below :=
    stack.trans (List.append_assoc ..).symm
  cases marking : (categoryOf code).marksDepth with
  | true =>
    refine (unwind_marking h.sane marking exception).mono ?_
    rw [found, siteOf_id]
    rintro r u ⟨rfl, on⟩
    have marked : record.marks = ⟨id, (outer ++ a.below).length⟩ :: a.marks := by
      rw [marks, Activation.inside, marking]
      rfl
    have unmarked := Record.unmark_marks_cons marked
    rw [← h.next] at on
    refine ⟨rfl, h.onRecord sound (on.mono fun _ => False.elim) traced rfl
      ⟨regrouped, unmarked, locals⟩ rfl ⟨rfl, rfl, rfl⟩ (fun _ mem => mem)
      fun hexact _ mem => h.made_of_record hexact found mem, ?_⟩
    rw [on.recordOf, recordOf_eq found]
    rfl
  | false =>
    refine (unwind_other notReturn marking exception).mono ?_
    rintro r u ⟨rfl, same⟩
    have unmarked : record.marks = a.marks := by
      rw [marks, Activation.inside, marking]
      rfl
    refine ⟨rfl, ⟨.of_frames (by rw [same.1]), (h.recast traced traced rfl ?_).same same⟩,
      by rw [recordOf_congr (s := t) (by rw [same.1])]⟩
    rintro r ⟨stack, marks, locals⟩
    refine ⟨stack.trans (List.append_assoc ..).symm, ?_, locals⟩
    rw [marks, Activation.inside, marking]
    rfl

/-- A `return` passes through a piece: what the piece has left stays, with the value on top. -/
theorem unwind_piece (id : SiteId) (label exception : String)
    (h : Mirrors exact p (a.inside id code outer) t l) (sound : p.Sound) (traced : a.traced = true)
    (piece : code.Piece p.scope true) {node : Node Value} {left : List (Node Value)}
    (some' : l.operands = node :: left) (returned : node.value = some value)
    (result : categoryOf code ≠ .useStackDefReturn → (t.recordOf p.frame).result = some node) :
    Ends (unwind p.host (siteOf p.scope id label code) p.frame exception) t fun r u =>
      r = .ok () ∧
        Abandoned exact p a t l (siteOf p.scope id label code) code value outer u := by
  unfold unwind
  rw [ends_bind, ShadowM.ends_note]
  have noted := h.same (u := t.note .trace "router unwind" (Checkpoint.siteFields
    (siteOf p.scope id label code) ++ [("exception", exception)])) ⟨rfl, rfl⟩
  refine ends_rules_piece piece id label ?_ ?_ ?_
  · by_cases isReturn : categoryOf code = .useStackDefReturn
    · cases piece
      case ret => exact unwind_ret noted sound traced some' returned
      all_goals cases isReturn
    · refine (unwind_other_piece noted sound traced isReturn).mono ?_
      rintro r u ⟨rfl, ⟨spared, mirrors⟩, same⟩
      refine ⟨rfl, _, fun _ => ?_, spared, mirrors, ⟨rfl, rfl, rfl⟩, node, left,
        by rw [some'], returned, ⟨fun _ mem => mem, fun _ mem => .inl mem, rfl⟩,
        same.trans (result isReturn)⟩
      unfold Ledger.abandon
      rw [run_bind, run_get]
      cases piece
      case ret => exact absurd rfl isReturn
      all_goals rfl
  · intro u
    refine (unwind_other Category.noConfusion rfl exception).mono ?_
    exact fun r v done => done
  · rintro u v same ⟨l', ledger, spared, mirrors, run, node, left, operands, value, made, result⟩
    exact ⟨l', ledger, spared.trans_same same, mirrors.same same, run, node, left, operands, value,
      made, by rwa [recordOf_congr (s := u) (by rw [same.1])]⟩

/-! ### Boundaries of functions -/

theorem categories_boundaryOf (id : SiteId) (label : String) :
    (boundaryOf id label).categories.toList = [.functionBoundary] := rfl

/-- A function is entered with an empty record. -/
theorem enter_function (id : SiteId) (label : String) {arguments : Option (List (Node Value))}
    (h : Mirrors exact p { traced := false, arguments } t l) (sound : p.Sound)
    (fresh : l.localNodes = {}) :
    Ends (enter p.host (boundaryOf id label) p.frame) t fun r u => r = .ok () ∧
      (p.Spared t u ∧ Mirrors exact p { traced := true, arguments } u l) := by
  unfold enter
  rw [ends_bind, ShadowM.ends_note]
  dsimp only
  rw [ends_applyRules_one (categories_boundaryOf id label)]
  have noted := h.same (u := t.note .trace "router enter"
    (Checkpoint.siteFields (boundaryOf id label))) ⟨rfl, rfl⟩
  refine (enter_boundary noted.sane).mono ?_
  rintro r u ⟨rfl, on⟩
  refine ⟨rfl, noted.onRecord sound on rfl rfl ⟨?_, rfl, ?_⟩ h.next ⟨rfl, rfl, rfl⟩
    (fun _ mem => mem) fun _ node mem => absurd mem (Record.nodes_empty node)⟩
  · rw [(h.untraced rfl).2]
    rfl
  · intro name
    rw [fresh]
    rfl

/-- What becomes of the one operand that a traced function has left. -/
inductive Handed (p : Place) (node : Node Value) (t u : Shadow kinds) : Prop
  /-- It stays where it is, as nobody traced has called the function. -/
  | kept (alone : callerRecord? p.host t p.frame = none) (same : SameState t u)
  /-- It goes to the caller. -/
  | given (caller : FrameId) (record callerRecord : Record Value) (mid : Shadow kinds)
      (called : p.host.callerOf p.frame = some caller) (own : t.record? p.frame = some record)
      (known : t.record? caller = some callerRecord)
      (took : OnRecord (fun _ => False) p.frame t mid { record with stack := [] } t.nextSeq)
      (gave : OnRecord (fun _ => False) caller mid u (callerRecord.push node) t.nextSeq)

theorem Handed.same_trans {node : Node Value} {u v : Shadow kinds} (same : SameState t u)
    (h : Handed p node u v) : Handed p node t v := by
  have records := record?_congr (s := t) (t := u) (by rw [same.1])
  cases h with
  | kept alone after =>
    refine .kept ?_ ⟨after.1.trans same.1, after.2.trans same.2⟩
    rwa [callerRecord?, show u.record? = t.record? from funext records] at alone
  | given caller record callerRecord mid called own known took gave =>
    rw [same.2] at took gave
    exact .given caller record callerRecord mid called (records _ ▸ own) (records _ ▸ known)
      (took.same_trans same) gave

theorem applyLeave_function {arguments : Option (List (Node Value))} {node : Node Value}
    (h : Mirrors exact p { traced := true, arguments } t l) (sound : p.Sound)
    (one : l.operands = [node]) (site : Site kinds) :
    Ends (applyLeave tracer p.host site p.frame value .functionBoundary) t fun r u =>
      r = .ok () ∧ Handed p node t u := by
  obtain ⟨record, found, stack, -, -⟩ := h.traced rfl
  rw [one] at stack
  obtain ⟨frame, here, callers⟩ := sound.frame
  have callerOf : p.host.callerOf p.frame = frame.caller := by
    unfold Place.host World.host
    simp only [here, Option.bind_some]
  refine (leave_boundary h.sane).mono ?_
  rintro r u ⟨rfl, done⟩
  refine ⟨rfl, ?_⟩
  unfold handedBack? at done
  cases called : p.host.callerOf p.frame with
  | none =>
    rw [called] at done
    exact .kept (by rw [callerRecord?, called]; rfl) done
  | some caller =>
    rw [called] at done
    dsimp only at done
    cases known : t.record? caller with
    | none =>
      rw [known] at done
      exact .kept (by rw [callerRecord?, called]; exact known) done
    | some callerRecord =>
      rw [known, found] at done
      dsimp only at done
      rw [stack] at done
      obtain ⟨mid, took, gave⟩ := done
      have ne := (callers caller (callerOf ▸ called)).1
      have still : mid.record? caller = t.record? caller :=
        (took.frames.others caller ne).content?_eq id
      rw [recordOf_eq found] at took
      rw [recordOf_eq (still.trans known)] at gave
      exact .given caller record callerRecord mid called found known took gave

theorem leave_function (id : SiteId) (label : String) {arguments : Option (List (Node Value))}
    {node : Node Value} (h : Mirrors exact p { traced := true, arguments } t l) (sound : p.Sound)
    (one : l.operands = [node]) :
    Ends (tracer.leave p.host (boundaryOf id label) p.frame value) t fun r u =>
      r = .ok () ∧ Handed p node t u := by
  unfold leave
  rw [ends_bind, ShadowM.ends_note]
  dsimp only
  rw [ends_applyRules_one (categories_boundaryOf id label)]
  have noted := h.same (u := t.note .trace "router return" (Checkpoint.siteFields
    (boundaryOf id label) ++ [("value", kinds.inspect value)])) ⟨rfl, rfl⟩
  refine (applyLeave_function noted sound one _).mono ?_
  rintro r u ⟨rfl, handed⟩
  exact ⟨rfl, .same_trans (u := t.note _ _ _) ⟨rfl, rfl⟩ handed⟩

end Lineage.Toy
