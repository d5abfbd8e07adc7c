import Lineage.Proofs.Toy.Tags
import Lineage.Proofs.Toy.Variables

/-!
# The books of a traced program

While a traced program runs, the ledger is in good order (`Books`): every node made obeys the rule of
its site, the numbers given away are those of the nodes made, and each variable has the value of its
latest node. Each form of code keeps the books, and by induction on the steps allowed all code does.
-/

namespace Lineage.Toy

open Tracer (creatorOf)

/-! ### The rule of a site -/

/-- The node is one of the site that tags the code. -/
def MadeBy (code : Code) (node : Node Value) : Prop :=
  ∃ site inner, code = .tagged site inner ∧ node.creator = creatorOf site

/-- The node is one of the body of the function. -/
def MadeByBody (p : Program) (name : String) (node : Node Value) : Prop :=
  ∃ boundary body, p.functions.get? name = some (.tagged boundary body) ∧ MadeBy body node

/-- A read came upon a node with its value, or upon nothing. -/
def FromSlot (slot : Node Value) (value : Option Value) : Prop :=
  slot.value = value ∨ slot = .unknown slot.seq ∧ value = some .nil

/-- The sum of two integers, or two texts one after the other. -/
inductive Sum : Option Value → Option Value → Option Value → Prop
  | int (a b : Int) : Sum (some (.int a)) (some (.int b)) (some (.int (a + b)))
  | str (a b : String) : Sum (some (.str a)) (some (.str b)) (some (.str (a ++ b)))

/-- What the origins of a node of the code's site are, and how they come to its value. -/
def Rule (p : Program) (origins : List (Node Value)) (value : Option Value) : Code → Prop
  | .int n => origins = [] ∧ value = some (.int n)
  | .str text => origins = [] ∧ value = some (.str text)
  | .nil => origins = [] ∧ value = some .nil
  | .new className => origins = [] ∧ ∃ id, value = some (.object id className)
  | .getLocal _ | .getGlobal _ | .getClassVariable _ =>
      ∃ slot, origins = [slot] ∧ FromSlot slot value
  | .arg _ => ∃ argument, origins = [argument] ∧ argument.value = value
  | .setLocal _ code | .setGlobal _ code | .setClassVariable _ code =>
      ∃ assigned, origins = [assigned] ∧ MadeBy code assigned ∧ assigned.value = value
  | .ret _ => ∃ returned, origins = [returned] ∧ returned.value = value
  | .add left right => ∃ r l, origins = [r, l] ∧ MadeBy right r ∧ MadeBy left l ∧
      Sum l.value r.value value
  | .call name args => ∃ body arguments, origins = body :: arguments.reverse ∧
      MadeByBody p name body ∧ List.Forall₂ MadeBy args arguments ∧ body.value = value
  | .getProperty receiver _ => ∃ object slot, origins = [object, slot] ∧ MadeBy receiver object ∧
      FromSlot slot value
  | .setProperty receiver _ code => ∃ object assigned, origins = [object, assigned] ∧
      MadeBy receiver object ∧ MadeBy code assigned ∧ assigned.value = value
  | .body statements => (∃ last others, origins = last :: others ∧ last.value = value) ∨
      statements = [] ∧ origins = [] ∧ value = some .nil
  | .tagged .. => False

/-- The node is unknown, or obeys the rule of a site of the program that it was created by. -/
def Filed (p : Program) (node : Node Value) : Prop :=
  node = .unknown node.seq ∨ ∃ site code, p.Tags site code ∧ node.creator = creatorOf site ∧
    Rule p node.origins node.value code

/-! ### Books in good order -/

/-- The nodes have the numbers from `start` on, the latest first. -/
inductive Numbered (start : Nat) : List (Node Value) → Nat → Prop
  | none : Numbered start [] start
  | next {made n node} (h : Numbered start made n) (number : node.seq = n) :
      Numbered start (node :: made) (n + 1)

/-- The variable has the value of its latest node, or neither. -/
def Agrees (value? : Option Value) (node? : Option (Node Value)) : Prop :=
  match value? with
  | some v => ∃ node, node? = some node ∧ node.value = some v
  | none => ∀ node, node? = some node → node = .unknown node.seq

/-- Whatever the value refers to has been made. -/
def World.MadeValue (w : World) (v : Value) : Prop := ∀ e ∈ Entity.ofValue v, w.Made e

/-- Every node made obeys its rule, is made of nodes made, and has the number given away for it. -/
structure Archive (p : Program) (start : Nat) (l : Ledger) : Prop where
  filed : ∀ node ∈ l.made, Filed p node
  closed : ∀ node ∈ l.made, ∀ origin ∈ node.origins, origin ∈ l.made
  numbered : Numbered start l.made l.next

/-- Besides, whatever is at hand is known, and every variable agrees with its latest node. -/
structure Books (p : Program) (start : Nat) (l : Ledger) : Prop extends Archive p start l where
  values : ∀ node ∈ l.made, ∀ v, node.value = some v → l.world.MadeValue v
  operands : ∀ node ∈ l.operands, node ∈ l.made
  slots : ∀ x node, l.node? x = some node → node ∈ l.made
  agrees : ∀ x, Agrees (l.value? p.scope x) (l.node? x)
  scope : l.world.Made (.scope p.scope)
  shares : ∀ e other, other ∈ l.world.sharesOf e → l.world.Made other

/-- Nothing has gone. -/
structure Ledger.Extends (l l' : Ledger) : Prop where
  grows : l.world.Grows l'.world
  made : ∀ node ∈ l.made, node ∈ l'.made

theorem Ledger.Extends.refl (l : Ledger) : l.Extends l := ⟨.refl _, fun _ => id⟩

theorem Ledger.Extends.trans {l l' l'' : Ledger} (first : l.Extends l') (second : l'.Extends l'') :
    l.Extends l'' :=
  ⟨first.grows.trans second.grows, fun node mem => second.made node (first.made node mem)⟩

theorem Ledger.extends_add (l : Ledger) (node : Node Value) : l.Extends (l.add node) :=
  ⟨.refl _, fun _ mem => List.mem_cons_of_mem _ mem⟩

theorem Ledger.extends_settle (l : Ledger) (scope : ScopeId) (x? : Option Variable) (v : Value)
    (node : Node Value) : l.Extends ((l.settle scope x? v).putNode? x? node) := by
  cases x? with
  | none => exact .refl l
  | some x =>
    refine ⟨fun id frame found => ?_, fun other mem => ?_⟩
    · change ((l.assign scope x v).putNode x node).world.frame? id = some frame
      rw [world_putNode, frame?_assign]
      exact found
    · change other ∈ ((l.assign scope x v).putNode x node).made
      rw [made_putNode, made_assign]
      exact mem

namespace Agrees

variable {value? : Option Value} {node? : Option (Node Value)}

theorem fromSlot (h : Agrees value? node?) (seq : Nat) :
    FromSlot (node?.getD (.unknown seq)) (some (value?.getD .nil)) := by
  cases value? with
  | some v =>
    obtain ⟨node, rfl, value⟩ := h
    exact .inl value
  | none =>
    cases node? with
    | none => exact .inr ⟨rfl, rfl⟩
    | some node => exact .inr ⟨h node rfl, rfl⟩

theorem some {v : Value} {node : Node Value} (value : node.value = some v) :
    Agrees (Option.some v) (Option.some node) := ⟨node, rfl, value⟩

theorem none_none : Agrees none none := nofun

theorem none_unknown (seq : Nat) : Agrees none (Option.some (.unknown seq)) := by
  rintro node ⟨⟩
  rfl

end Agrees

/-- The archive is what has been made. -/
theorem Archive.congr {p : Program} {start : Nat} {l l' : Ledger} (h : Archive p start l)
    (made : l'.made = l.made) (next : l'.next = l.next) : Archive p start l' where
  filed := made ▸ h.filed
  closed := made ▸ h.closed
  numbered := made ▸ next ▸ h.numbered

/-- A node is made from nodes there are. -/
theorem Archive.add {p : Program} {start : Nat} {l : Ledger} {node : Node Value}
    (h : Archive p start l) (number : node.seq = l.next) (filed : Filed p node)
    (origins : ∀ origin ∈ node.origins, origin ∈ l.made) : Archive p start (l.add node) where
  filed other mem := by
    rcases List.mem_cons.mp mem with rfl | old
    · exact filed
    · exact h.filed other old
  closed other mem origin used := by
    rcases List.mem_cons.mp mem with rfl | old
    · exact List.mem_cons_of_mem _ (origins origin used)
    · exact List.mem_cons_of_mem _ (h.closed other old origin used)
  numbered := .next h.numbered number

namespace Books

variable {p : Program} {start : Nat} {l l' : Ledger} {node : Node Value} {v : Value}
  {outer : List (Node Value)}

/-- The books do not depend on which operands there are, as long as those are known. -/
theorem withOperands (h : Books p start l) (known : ∀ node ∈ outer, node ∈ l.made) :
    Books p start { l with operands := outer } where
  toArchive := h.toArchive.congr rfl rfl
  values := h.values
  operands := known
  slots := h.slots
  agrees := h.agrees
  scope := h.scope
  shares := h.shares

theorem add (h : Books p start l) (number : node.seq = l.next) (filed : Filed p node)
    (origins : ∀ origin ∈ node.origins, origin ∈ l.made)
    (value : ∀ v, node.value = some v → l.world.MadeValue v) : Books p start (l.add node) where
  toArchive := h.toArchive.add number filed origins
  values other mem := by
    rcases List.mem_cons.mp mem with rfl | old
    · exact value
    · exact h.values other old
  operands other mem := List.mem_cons_of_mem _ (h.operands other mem)
  slots x other found := List.mem_cons_of_mem _ (h.slots x other found)
  agrees := h.agrees
  scope := h.scope
  shares := h.shares

theorem addUnknown (h : Books p start l) : Books p start (l.add (.unknown l.next)) :=
  h.add rfl (.inl rfl) (fun _ used => nomatch used) nofun

/-- A variable is given another node that agrees with its value. -/
theorem putNode (h : Books p start l) {x : Variable} (known : node ∈ l.made)
    (agrees : Agrees (l.value? p.scope x) (some node)) : Books p start (l.putNode x node) where
  toArchive := h.toArchive.congr Ledger.made_putNode Ledger.next_putNode
  values := by
    rw [Ledger.made_putNode, Ledger.world_putNode]
    exact h.values
  operands := by
    rw [Ledger.made_putNode, Ledger.operands_putNode]
    exact h.operands
  slots y other found := by
    rw [Ledger.made_putNode]
    rw [Ledger.node?_putNode] at found
    split at found
    · cases found
      exact known
    · exact h.slots y other found
  agrees y := by
    rw [Ledger.node?_putNode, Ledger.value?_putNode]
    split
    · next same =>
      subst same
      exact agrees
    · exact h.agrees y
  scope := by
    rw [Ledger.world_putNode]
    exact h.scope
  shares := by
    rw [Ledger.world_putNode]
    exact h.shares

/-- A value is assigned to a variable, with a node of it. -/
theorem assign (h : Books p start l) {x : Variable} (made : x.Made l.world p.scope)
    (known : node ∈ l.made) (value : node.value = some v) :
    Books p start ((l.assign p.scope x v).putNode x node) where
  toArchive := h.toArchive.congr (Ledger.made_putNode.trans Ledger.made_assign)
    (Ledger.next_putNode.trans Ledger.next_assign)
  values := by
    rw [Ledger.made_putNode, Ledger.made_assign, Ledger.world_putNode]
    exact fun other mem v value e inside =>
      (Ledger.made_world_assign e).mpr (h.values other mem v value e inside)
  operands := by
    rw [Ledger.made_putNode, Ledger.made_assign, Ledger.operands_putNode, Ledger.operands_assign]
    exact h.operands
  slots y other found := by
    rw [Ledger.made_putNode, Ledger.made_assign]
    rw [Ledger.node?_putNode, Ledger.node?_assign] at found
    split at found
    · cases found
      exact known
    · exact h.slots y other found
  agrees y := by
    rw [Ledger.node?_putNode, Ledger.value?_putNode, Ledger.value?_assign made, Ledger.node?_assign]
    split
    · exact .some value
    · exact h.agrees y
  scope := by
    rw [Ledger.world_putNode]
    exact (Ledger.made_world_assign _).mpr h.scope
  shares e other mem := by
    rw [Ledger.world_putNode] at mem ⊢
    refine (Ledger.made_world_assign _).mpr ?_
    rcases Ledger.sharesOf_assign mem with old | new
    · exact h.shares e other old
    · exact h.values node known v value other new

/-- The value that has been assigned to a variable, if there is one, has got its node. -/
theorem settle (h : Books p start l) {x? : Option Variable}
    (made : ∀ x, x? = some x → x.Made l.world p.scope) (known : node ∈ l.made)
    (value : node.value = some v) : Books p start ((l.settle p.scope x? v).putNode? x? node) := by
  cases x? with
  | none => exact h
  | some x => exact h.assign (made x rfl) known value

/-- A value has been computed. -/
theorem madeValue (h : Books p start l) (known : node ∈ l.made) (value : node.value = some v) :
    l.world.MadeValue v := h.values node known v value

theorem madeValue_nil (w : World) : w.MadeValue .nil := fun _ mem => nomatch mem

theorem madeValue_read (h : Books p start l) (x : Variable) :
    l.world.MadeValue ((l.value? p.scope x).getD .nil) := by
  have agrees := h.agrees x
  cases bound : l.value? p.scope x with
  | none => exact madeValue_nil _
  | some v =>
    rw [bound] at agrees
    obtain ⟨node, found, value⟩ := agrees
    exact h.madeValue (h.slots x node found) value

/-- Reading a variable finds a node that is known. -/
theorem touch (h : Books p start l) (x : Variable) :
    Books p start (l.touch x) ∧ l.Extends (l.touch x) ∧ l.latest x ∈ (l.touch x).made ∧
      FromSlot (l.latest x) (some ((l.value? p.scope x).getD .nil)) := by
  have agrees := h.agrees x
  have slot := agrees.fromSlot l.next
  unfold Ledger.touch Ledger.latest
  cases found : l.node? x with
  | some node =>
    rw [found] at slot
    exact ⟨h, .refl l, h.slots x node found, slot⟩
  | none =>
    rw [found] at slot agrees
    have unbound : (l.add (.unknown l.next)).value? p.scope x = none := by
      change l.value? p.scope x = none
      cases bound : l.value? p.scope x with
      | none => rfl
      | some v =>
        rw [bound] at agrees
        obtain ⟨_, impossible, -⟩ := agrees
        cases impossible
    refine ⟨h.addUnknown.putNode List.mem_cons_self ?_, ⟨?_, fun node mem => ?_⟩, ?_, slot⟩
    · rw [unbound]
      exact .none_unknown _
    · rw [Ledger.world_putNode]
      exact .refl _
    · rw [Ledger.made_putNode]
      exact List.mem_cons_of_mem _ mem
    · rw [Ledger.made_putNode]
      exact List.mem_cons_self

/-- The object behind an operand has been made. -/
theorem made_objectBehind (h : Books p start l) (known : node ∈ l.made) {o : ObjectId}
    (behind : Ledger.objectBehind node = some o) : l.world.Made (.object o) := by
  unfold Ledger.objectBehind at behind
  split at behind
  · next id className value =>
    cases behind
    exact h.values node known _ value _ (List.mem_singleton.mpr rfl)
  · cases behind

theorem made_writes (h : Books p start l) {code : Code} {x : Variable}
    (writes : code.writes l.operands = some x) : x.Made l.world p.scope := by
  cases code with
  | setLocal | setGlobal =>
    cases writes
    trivial
  | setClassVariable =>
    cases writes
    exact h.scope
  | setProperty receiver name value =>
    obtain ⟨o, behind, rfl⟩ := Option.map_eq_some_iff.mp writes
    obtain ⟨node, top, behind⟩ := Option.bind_eq_some_iff.mp behind
    exact h.made_objectBehind (h.operands node (List.mem_of_mem_head? top)) behind
  | _ => cases writes

end Books

/-! ### Code that keeps the books -/

section Keeping

variable {α β : Type} {p : Program} {start : Nat}

/-- From `l` on the books have been kept. -/
structure Kept (p : Program) (start : Nat) (l l' : Ledger) : Prop where
  books : Books p start l'
  extends' : l.Extends l'

/-- Work ends in states that satisfy `ok` or `ret`, or fails with the archive in order. -/
def Keeps (p : Program) (start : Nat) (work : LedgerM α) (l : Ledger) (ok : α → Ledger → Prop)
    (ret : Value → Ledger → Prop) : Prop :=
  Ends work l fun r l' => match r with
    | .ok a => ok a l'
    | .error (.returning v) => ret v l'
    | .error _ => Archive p start l'

namespace Keeps

variable {work : LedgerM α} {l : Ledger} {ok ok' : α → Ledger → Prop}
  {ret ret' : Value → Ledger → Prop}

theorem mono (h : Keeps p start work l ok ret) (hok : ∀ a l', ok a l' → ok' a l')
    (hret : ∀ v l', ret v l' → ret' v l') : Keeps p start work l ok' ret' := by
  refine Ends.mono h ?_
  rintro ((v | failure | _) | a) l' post
  · exact hret v l' post
  · exact post
  · exact post
  · exact hok a l' post

theorem pure {a : α} (h : ok a l) : Keeps p start (Pure.pure a) l ok ret := h

theorem of_run {a : α} {l' : Ledger} (run : work.run.run l = (.ok a, l')) (h : ok a l') :
    Keeps p start work l ok ret := Ends.of_run run h

theorem bind {next : α → LedgerM β} {okb : β → Ledger → Prop} (h : Keeps p start work l ok ret)
    (hnext : ∀ a l', ok a l' → Keeps p start (next a) l' okb ret) :
    Keeps p start (work >>= next) l okb ret := by
  unfold Keeps at h ⊢
  rw [ends_bind]
  refine Ends.mono h ?_
  rintro ((v | failure | _) | a) l' post
  · exact post
  · exact post
  · exact post
  · exact hnext a l' post

theorem get_bind {next : Ledger → LedgerM α} (h : Keeps p start (next l) l ok ret) :
    Keeps p start (get >>= next) l ok ret := by
  unfold Keeps
  rw [ends_bind, ends_get]
  exact h

theorem failing {failure : Failure} (h : Archive p start l) :
    Keeps p start (throw (.failing failure) : LedgerM α) l ok ret := h

theorem outOfFuel (h : Archive p start l) :
    Keeps p start (throw .outOfFuel : LedgerM α) l ok ret := h

theorem returning {v : Value} (h : ret v l) :
    Keeps p start (throw (.returning v) : LedgerM α) l ok ret := h

/-- A `return` is handled, anything else goes through. -/
theorem catching {handle : Interrupt → LedgerM α} (h : Keeps p start work l ok ret)
    (hret : ∀ v l', ret v l' → Keeps p start (handle (.returning v)) l' ok ret')
    (others : ∀ e, (∀ v, e ≠ .returning v) → handle e = throw e) :
    Keeps p start (tryCatch work handle) l ok ret' := by
  unfold Keeps at h ⊢
  rw [ends_tryCatch]
  refine Ends.mono h ?_
  rintro ((v | failure | _) | a) l' post
  · exact hret v l' post
  · dsimp only
    rw [others (.failing failure) fun _ => Interrupt.noConfusion]
    exact post
  · dsimp only
    rw [others .outOfFuel fun _ => Interrupt.noConfusion]
    exact post
  · exact post

end Keeps

end Keeping

end Lineage.Toy
