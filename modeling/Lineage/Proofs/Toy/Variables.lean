import Lineage.Proofs.Toy.Checkpoints

/-!
# The variables of a ledger

Locals, globals, class variables and properties differ only in where a ledger keeps them: each
variable has a value and a latest node. What a piece of code reads or writes is one variable at most,
and the node of a piece is concluded from its operands and that variable.
-/

namespace Lineage.Toy

/-- What code can assign to. -/
inductive Variable where
  | localVar (name : String)
  | globalVar (name : String)
  | classVar (name : String)
  | property (object : ObjectId) (name : String)
  deriving DecidableEq, Repr

/-- What the variable belongs to has been made. -/
def Variable.Made (w : World) (scope : ScopeId) : Variable → Prop
  | .localVar _ | .globalVar _ => True
  | .classVar _ => w.Made (.scope scope)
  | .property o _ => w.Made (.object o)

namespace Code

variable (used : List (Node Value))

/-- The variable that a piece with the given operands reads. -/
def reads : Code → Option Variable
  | .getLocal name => some (.localVar name)
  | .getGlobal name => some (.globalVar name)
  | .getClassVariable name => some (.classVar name)
  | .getProperty _ name => (used.head?.bind Ledger.objectBehind).map (.property · name)
  | _ => none

/-- The variable that a piece with the given operands assigns to. -/
def writes : Code → Option Variable
  | .setLocal name _ => some (.localVar name)
  | .setGlobal name _ => some (.globalVar name)
  | .setClassVariable name _ => some (.classVar name)
  | .setProperty _ name _ => (used.head?.bind Ledger.objectBehind).map (.property · name)
  | _ => none

end Code

namespace Ledger

variable (scope : ScopeId) (l : Ledger)

/-- The value that a variable is bound to. -/
def value? : Variable → Option Value
  | .localVar name => l.locals.get? name
  | .globalVar name => l.globals.get? name
  | .classVar name => l.world.scopes[scope.number]?.bind (·.get? name)
  | .property o name => l.world.objects[o.number]?.bind (·.get? name)

/-- The latest node of a variable. -/
def node? : Variable → Option (Node Value)
  | .localVar name => l.localNodes.get? name
  | .globalVar name => l.globalNodes.get? name
  | .classVar name => l.classNodes.get? name
  | .property o name => (l.propertyNodes o).get? name

def assign (x : Variable) (v : Value) : Ledger :=
  match x with
  | .localVar name => { l with locals := l.locals.set name v }
  | .globalVar name => { l with globals := l.globals.set name v }
  | .classVar name => { l with world := l.world.setClassVariable scope name v }
  | .property o name => { l with world := l.world.setProperty o name v }

def putNode (x : Variable) (node : Node Value) : Ledger :=
  match x with
  | .localVar name => putLocals (l.localNodes.set name node) l
  | .globalVar name => putGlobals (l.globalNodes.set name node) l
  | .classVar name => putClassVariables (l.classNodes.set name node) l
  | .property o name => putProperties o ((l.propertyNodes o).set name node) l

/-- A node has been made. -/
def add (node : Node Value) : Ledger := { l with next := l.next + 1, made := node :: l.made }

/-- The variable has been read: it has a node now. -/
def touch (x : Variable) : Ledger :=
  match l.node? x with
  | some _ => l
  | none => (l.add (.unknown l.next)).putNode x (.unknown l.next)

/-- The node that a read of the variable finds. -/
def latest (x : Variable) : Node Value := (l.node? x).getD (.unknown l.next)

/-- The value has been assigned to the variable, if there is one. -/
def settle (x? : Option Variable) (v : Value) : Ledger :=
  match x? with
  | some x => l.assign scope x v
  | none => l

def putNode? (x? : Option Variable) (node : Node Value) : Ledger :=
  match x? with
  | some x => l.putNode x node
  | none => l

variable {scope l} {x y : Variable} {v : Value} {node : Node Value}

theorem node?_putNode :
    (l.putNode x node).node? y = if x = y then some node else l.node? y := by
  cases x <;> cases y <;>
    simp only [putNode, putLocals, putGlobals, putClassVariables, putProperties, node?, Dict.get?_set,
      Variable.localVar.injEq, Variable.globalVar.injEq, Variable.classVar.injEq,
      Variable.property.injEq, reduceCtorEq, if_false]
  next o name o' name' =>
    by_cases same : o' = o
    · subst same
      simp [Dict.get?_set]
    · rw [if_neg same, if_neg fun eq => same eq.1.symm]

theorem value?_putNode : (l.putNode x node).value? scope y = l.value? scope y := by
  cases x <;> cases y <;> rfl

theorem node?_assign : (l.assign scope x v).node? y = l.node? y := by
  cases x <;> cases y <;> rfl

theorem value?_assign (made : x.Made l.world scope) :
    (l.assign scope x v).value? scope y = if x = y then some v else l.value? scope y := by
  cases x <;> cases y <;>
    simp only [assign, value?, World.setProperty, World.setClassVariable, Dict.get?_set,
      Array.getElem?_modify, Variable.localVar.injEq, Variable.globalVar.injEq,
      Variable.classVar.injEq, Variable.property.injEq, reduceCtorEq, if_false]
  next name name' =>
    have bound : scope.number < l.world.scopes.size := made
    simp [bound, Dict.get?_set]
  next o name o' name' =>
    have bound : o.number < l.world.objects.size := made
    by_cases same : o = o'
    · subst same
      simp [bound, Dict.get?_set]
    · have other : o.number ≠ o'.number := fun eq => same (congrArg ObjectId.mk eq)
      simp [same, other]

theorem made_putNode : (l.putNode x node).made = l.made := by cases x <;> rfl

theorem next_putNode : (l.putNode x node).next = l.next := by cases x <;> rfl

theorem world_putNode : (l.putNode x node).world = l.world := by cases x <;> rfl

theorem operands_putNode : (l.putNode x node).operands = l.operands := by cases x <;> rfl

theorem made_assign : (l.assign scope x v).made = l.made := by cases x <;> rfl

theorem next_assign : (l.assign scope x v).next = l.next := by cases x <;> rfl

theorem operands_assign : (l.assign scope x v).operands = l.operands := by cases x <;> rfl

theorem made_world_assign (e : Entity) :
    (l.assign scope x v).world.Made e ↔ l.world.Made e := by
  cases x <;> cases e <;> simp [assign, World.Made, World.setProperty, World.setClassVariable]

theorem sharesOf_assign {e other : Entity}
    (mem : other ∈ (l.assign scope x v).world.sharesOf e) :
    other ∈ l.world.sharesOf e ∨ other ∈ Entity.ofValue v := by
  cases x with
  | localVar | globalVar => exact .inl mem
  | classVar => exact World.sharesOf_setClassVariable mem
  | property => exact World.sharesOf_setProperty mem

theorem frame?_assign (id : FrameId) :
    (l.assign scope x v).world.frame? id = l.world.frame? id := by
  cases x <;> rfl

theorem settle_operands (x? : Option Variable) : (l.settle scope x? v).operands = l.operands := by
  cases x? with
  | none => rfl
  | some x => exact operands_assign

theorem add_settle (x? : Option Variable) :
    (l.settle scope x? v).add node = (l.add node).settle scope x? v := by
  rcases x? with _ | x
  · rfl
  · cases x <;> rfl

theorem settle_next (x? : Option Variable) : (l.settle scope x? v).next = l.next := by
  rcases x? with _ | x
  · rfl
  · exact next_assign

/-! ### The node of a piece -/

/-- Reading a variable leaves the ledger with a node of it. -/
theorem run_current_of {slots : Ledger → Slots Value} {put : Slots Value → Ledger → Ledger}
    {name : String} (known : (slots l).get? name = l.node? x)
    (putting : put ((slots (l.add (.unknown l.next))).set name (.unknown l.next))
      (l.add (.unknown l.next)) = (l.add (.unknown l.next)).putNode x (.unknown l.next)) :
    (current slots put name).run.run l = (.ok (l.latest x), l.touch x) := by
  rw [run_current, known]
  unfold latest touch
  cases l.node? x with
  | some node => rfl
  | none => exact congrArg (Prod.mk _) putting

/-- What a piece reads is an origin of its node, after its operands. -/
theorem run_originsOf_reads {s : Setting} {code : Code} {used : List (Node Value)}
    (reads : code.reads used = some x) (alone : (∀ r name, code ≠ .getProperty r name) → used = []) :
    (originsOf s used code).run.run l = (.ok (used ++ [l.latest x]), l.touch x) := by
  cases code with
  | getLocal name =>
    cases reads
    rw [alone nofun]
    exact run_only (run_current_of rfl rfl)
  | getGlobal name =>
    cases reads
    rw [alone nofun]
    exact run_only (run_current_of rfl rfl)
  | getClassVariable name =>
    cases reads
    rw [alone nofun]
    exact run_only (run_current_of rfl rfl)
  | getProperty receiver name =>
    obtain ⟨o, behind, rfl⟩ := Option.map_eq_some_iff.mp reads
    unfold originsOf
    rw [behind]
    dsimp only
    rw [run_bind, run_current_of (x := .property o name) rfl rfl]
    rfl
  | _ => cases reads

theorem writeSlot_eq (code : Code) (used : List (Node Value)) :
    writeSlot used node l code = l.putNode? (code.writes used) node := by
  cases code with
  | setProperty receiver name value =>
    unfold writeSlot Code.writes
    cases used.head?.bind objectBehind <;> rfl
  | _ => rfl

/-- The node of a piece is made of what has been gathered, and put where the piece has assigned. -/
theorem run_conclude_settled {s : Setting} {site : Site kinds} {code : Code} {settled : Ledger}
    {origins outer : List (Node Value)}
    (run : (originsOf s l.operands code).run.run l =
      (.ok origins, settled.settle scope (code.writes l.operands) v)) :
    (conclude s site code v outer).run.run l =
      (let node := site.node settled.next v origins
      (.ok (), { ((settled.add node).settle scope (code.writes l.operands) v).putNode?
        (code.writes l.operands) node with operands := node :: outer })) := by
  rw [run_conclude code run]
  dsimp only
  rw [writeSlot_eq, ← add_settle]
  unfold add
  rw [settle_next]

/-- Only a `return` itself gets a node where it leaves. -/
theorem run_abandon {site : Site kinds} {code : Code} {outer : List (Node Value)}
    (notReturn : ∀ value, code ≠ .ret value) : (abandon site code outer).run.run l =
      (.ok (), { l with operands := l.operands ++ outer }) := by
  unfold abandon
  rw [run_bind, run_get]
  cases code with
  | ret value => exact absurd rfl (notReturn value)
  | _ => rfl

end Ledger

end Lineage.Toy
