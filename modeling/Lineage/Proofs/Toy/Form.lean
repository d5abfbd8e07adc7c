import Lineage.Proofs.Contents
import Lineage.Proofs.Toy.Variables

/-!
# The form of a run

Which way a run takes depends on the kinds of values and on which objects they are, never on which
integer or text a value is. `form` leaves those payloads out, and with them the labels that show
them. A program without its payloads, run on a ledger without them, does what the program does, the
payloads left out: `Ledger.evalInForm`.
-/

namespace Lineage

namespace Toy

/-! ### Leaving payloads out -/

def Value.form : Value → Value
  | int _ => int 0
  | str _ => str ""
  | value => value

end Toy

def Creator.form (creator : Creator) : Creator := { creator with label := "" }

namespace Node

mutual

def form : Node Toy.Value → Node Toy.Value
  | ⟨seq, creator, value, origins⟩ =>
      ⟨seq, creator.map Creator.form, value.map Toy.Value.form, formAll origins⟩

def formAll : List (Node Toy.Value) → List (Node Toy.Value)
  | [] => []
  | node :: rest => node.form :: formAll rest

end

theorem formAll_eq (nodes : List (Node Toy.Value)) : formAll nodes = nodes.map form := by
  induction nodes with
  | nil => rfl
  | cons node rest ih => rw [formAll, ih, List.map_cons]

variable (node : Node Toy.Value)

theorem form_eq : node.form = ⟨node.seq, node.creator.map Creator.form,
    node.value.map Toy.Value.form, node.origins.map form⟩ := by
  cases node
  rw [form, formAll_eq]

theorem seq_form : node.form.seq = node.seq := by rw [form_eq]

theorem creator_form : node.form.creator = node.creator.map Creator.form := by rw [form_eq]

theorem value_form : node.form.value = node.value.map Toy.Value.form := by rw [form_eq]

theorem origins_form : node.form.origins = node.origins.map form := by rw [form_eq]

end Node

namespace Toy

def Failure.form : Failure → Failure
  | cannotAdd left right => cannotAdd left.form right.form
  | failure => failure

def Interrupt.form : Interrupt → Interrupt
  | returning value => returning value.form
  | failing failure => failing failure.form
  | outOfFuel => outOfFuel

namespace Code

mutual

def form : Code → Code
  | .int _ => .int 0
  | .str _ => .str ""
  | .nil => .nil
  | .new className => .new className
  | .getLocal name => .getLocal name
  | .setLocal name value => .setLocal name value.form
  | .arg index => .arg index
  | .add left right => .add left.form right.form
  | .call name args => .call name (formAll args)
  | .getProperty receiver name => .getProperty receiver.form name
  | .setProperty receiver name value => .setProperty receiver.form name value.form
  | .getGlobal name => .getGlobal name
  | .setGlobal name value => .setGlobal name value.form
  | .getClassVariable name => .getClassVariable name
  | .setClassVariable name value => .setClassVariable name value.form
  | .ret value => .ret value.form
  | .body statements => .body (formAll statements)
  | .tagged site code => .tagged { site with label := "" } code.form

def formAll : List Code → List Code
  | [] => []
  | code :: rest => code.form :: formAll rest

end

theorem isTagged_form (code : Code) : code.form.isTagged = code.isTagged := by
  cases code <;> simp only [form] <;> rfl

end Code

def Frame.form (frame : Frame) : Frame := { frame with args := frame.args.map Value.form }

/-- The world without its payloads, whatever the order in which it is swept. -/
def World.form (w : World) : World where
  frames := w.frames.map Frame.form
  objects := w.objects.map (Dict.map Value.form)
  scopes := w.scopes.map (Dict.map Value.form)

def Program.form (p : Program) : Program :=
  { p with functions := p.functions.map Code.form, main := p.main.form }

def Ledger.form (l : Ledger) : Ledger where
  world := l.world.form
  globals := l.globals.map Value.form
  locals := l.locals.map Value.form
  operands := l.operands.map Node.form
  localNodes := l.localNodes.map Node.form
  propertyNodes o := (l.propertyNodes o).map Node.form
  classNodes := l.classNodes.map Node.form
  globalNodes := l.globalNodes.map Node.form
  next := l.next
  made := l.made.map Node.form

def Setting.form (s : Setting) : Setting :=
  { s with program := s.program.form, arguments := s.arguments.map (List.map Node.form) }

namespace World

variable (w : World)

theorem frame?_form (id : FrameId) : w.form.frame? id = (w.frame? id).map Frame.form :=
  Array.getElem?_map

theorem property_form (id : ObjectId) (name : String) :
    w.form.property id name = (w.property id name).form := by
  unfold property form
  rw [Array.getElem?_map]
  cases w.objects[id.number]? with
  | none => rfl
  | some slots =>
    change ((slots.map Value.form).get? name).getD (Value.form .nil) = _
    rw [Dict.get?_map, Option.getD_map]
    rfl

theorem classVariable_form (id : ScopeId) (name : String) :
    w.form.classVariable id name = (w.classVariable id name).form := by
  unfold classVariable form
  rw [Array.getElem?_map]
  cases w.scopes[id.number]? with
  | none => rfl
  | some slots =>
    change ((slots.map Value.form).get? name).getD (Value.form .nil) = _
    rw [Dict.get?_map, Option.getD_map]
    rfl

theorem map_modify {α β : Type} {f : α → β} {g : α → α} (g' : β → β)
    (same : ∀ a, f (g a) = g' (f a)) (xs : Array α) (i : Nat) :
    (xs.modify i g).map f = (xs.map f).modify i g' := by
  refine Array.ext_getElem? fun j => ?_
  rw [Array.getElem?_map, Array.getElem?_modify, Array.getElem?_modify, Array.getElem?_map]
  split
  · cases xs[j]? with
    | none => rfl
    | some a => exact congrArg some (same a)
  · rfl

theorem form_setProperty (id : ObjectId) (name : String) (value : Value) :
    (w.setProperty id name value).form = w.form.setProperty id name value.form := by
  unfold setProperty form
  rw [map_modify (·.set name value.form) fun slots => slots.map_set Value.form name value]

theorem form_setClassVariable (id : ScopeId) (name : String) (value : Value) :
    (w.setClassVariable id name value).form = w.form.setClassVariable id name value.form := by
  unfold setClassVariable form
  rw [map_modify (·.set name value.form) fun slots => slots.map_set Value.form name value]

theorem form_addObject : w.form.addObject = (w.addObject.1, w.addObject.2.form) := by
  simp only [addObject, form, Array.size_map, Array.map_push]
  rfl

theorem form_addFrame (frame : Frame) :
    w.form.addFrame frame.form = ((w.addFrame frame).1, (w.addFrame frame).2.form) := by
  simp only [addFrame, form, Array.size_map, Array.map_push]

end World

/-! ### Work in form -/

/-- An outcome, its payloads left out; `f` is what a value of the work is without them. -/
def formed {α : Type} (f : α → α) : Except Interrupt α → Except Interrupt α
  | .ok a => .ok (f a)
  | .error e => .error e.form

/-- From a ledger without its payloads `work'` comes to what `work` comes to, the payloads left out. -/
def InForm {α : Type} (f : α → α) (work work' : LedgerM α) : Prop :=
  ∀ l, work'.run.run l.form = (formed f (work.run.run l).1, (work.run.run l).2.form)

namespace InForm

variable {α β : Type} {f : α → α} {g : β → β} {work work' : LedgerM α}

theorem pure {a a' : α} (same : a' = f a) : InForm f (Pure.pure a) (Pure.pure a') := by
  intro l
  rw [same]
  rfl

theorem bind {next next' : α → LedgerM β} (first : InForm f work work')
    (rest : ∀ a, InForm g (next a) (next' (f a))) : InForm g (work >>= next) (work' >>= next') := by
  intro l
  rw [run_bind, run_bind, first l]
  rcases work.run.run l with ⟨_ | a, l'⟩
  · rfl
  · exact rest a l'

theorem throw {e e' : Interrupt} (same : e' = e.form) :
    InForm f (MonadExcept.throw e : LedgerM α) (MonadExcept.throw e') := by
  intro l
  rw [same]
  rfl

theorem catching {handle handle' : Interrupt → LedgerM α} (inner : InForm f work work')
    (handled : ∀ e, InForm f (handle e) (handle' e.form)) :
    InForm f (tryCatch work handle) (tryCatch work' handle') := by
  intro l
  rw [run_tryCatch, run_tryCatch, inner l]
  rcases work.run.run l with ⟨e | _, l'⟩
  · exact handled e l'
  · rfl

theorem get_bind {next next' : Ledger → LedgerM α} (rest : ∀ l, InForm f (next l) (next' l.form)) :
    InForm f (get >>= next) (get >>= next') := fun l => rest l l

end InForm

section Steps

variable {α : Type} {f : α → α}

theorem inForm_set {l l' : Ledger} (same : l' = l.form) :
    InForm id (set l : LedgerM PUnit) (set l') := by
  intro _
  rw [same]
  rfl

theorem inForm_modify {change change' : Ledger → Ledger}
    (same : ∀ l, change' l.form = (change l).form) :
    InForm id (modify change : LedgerM PUnit) (modify change') := fun l =>
  congrArg (Prod.mk _) (same l)

namespace Ledger

theorem form_add (l : Ledger) (node : Node Value) : (l.add node).form = l.form.add node.form := rfl

theorem inForm_create (creator : Option Creator) (value : Option Value)
    (origins : List (Node Value)) : InForm Node.form (create creator value origins)
      (create (creator.map Creator.form) (value.map Value.form) (origins.map Node.form)) := by
  intro l
  change ((.ok _, l.form.add _) : Except Interrupt (Node Value) × Ledger) =
    (.ok (Node.form _), (l.add ⟨l.next, creator, value, origins⟩).form)
  rw [form_add, Node.form_eq]
  rfl

theorem inForm_unknown : InForm Node.form (create none none []) (create none none []) :=
  inForm_create none none []

theorem inForm_current (slots : Ledger → Slots Value) (put : Slots Value → Ledger → Ledger)
    (slotsForm : ∀ l, slots l.form = (slots l).map Node.form)
    (putForm : ∀ ss l, put (ss.map Node.form) l.form = (put ss l).form) (name : String) :
    InForm Node.form (current slots put name) (current slots put name) := by
  unfold current
  refine .get_bind fun l => ?_
  rw [slotsForm, Dict.get?_map]
  cases (slots l).get? name with
  | some node => exact .pure rfl
  | none =>
    refine .bind inForm_unknown fun node => .bind (inForm_modify fun l => ?_) fun _ => .pure rfl
    rw [slotsForm, ← Dict.map_set, putForm]

theorem form_putProperties (object : ObjectId) (slots : Slots Value) (l : Ledger) :
    putProperties object (slots.map Node.form) l.form = (putProperties object slots l).form := by
  unfold putProperties form
  dsimp only
  congr 1
  funext o
  split <;> rfl

theorem objectBehind_form (node : Node Value) : objectBehind node.form = objectBehind node := by
  unfold objectBehind
  rw [Node.value_form]
  rcases node.value with _ | v
  · rfl
  · cases v <;> rfl

theorem head_behind_form (used : List (Node Value)) :
    (used.map Node.form).head?.bind objectBehind = used.head?.bind objectBehind := by
  cases used with
  | nil => rfl
  | cons node rest => exact objectBehind_form node

variable (s : Setting)

theorem inForm_argument (index : Nat) :
    InForm Node.form (argument s index) (argument s.form index) := by
  unfold argument Setting.form
  cases s.arguments with
  | none => exact inForm_unknown
  | some nodes =>
    dsimp only [Option.map_some]
    rw [List.length_map, List.getElem?_map]
    cases nodes[nodes.length - (index + 1)]? with
    | none => exact inForm_unknown
    | some node => exact .pure rfl

theorem inForm_originsOf (used : List (Node Value)) (code : Code) :
    InForm (List.map Node.form) (originsOf s used code)
      (originsOf s.form (used.map Node.form) code.form) := by
  have only : ∀ {work work' : LedgerM (Node Value)}, InForm Node.form work work' →
      InForm (List.map Node.form) (do return [← work]) (do return [← work']) :=
    fun inner => .bind inner fun _ => .pure rfl
  have more : ∀ {work work' : LedgerM (Node Value)}, InForm Node.form work work' →
      InForm (List.map Node.form) (do return used ++ [← work])
        (do return used.map Node.form ++ [← work']) :=
    fun inner => .bind inner fun _ => .pure (by rw [List.map_append, List.map_singleton])
  cases code with
  | getLocal name =>
    exact only (inForm_current localNodes putLocals (fun _ => rfl) (fun _ _ => rfl) name)
  | getGlobal name =>
    exact only (inForm_current globalNodes putGlobals (fun _ => rfl) (fun _ _ => rfl) name)
  | getClassVariable name =>
    exact only (inForm_current classNodes putClassVariables (fun _ => rfl) (fun _ _ => rfl) name)
  | arg index => exact only (inForm_argument s index)
  | getProperty receiver name =>
    unfold originsOf Code.form
    dsimp only
    rw [head_behind_form]
    cases used.head?.bind objectBehind with
    | none => exact more inForm_unknown
    | some object =>
      exact more (inForm_current _ _ (fun _ => rfl) (form_putProperties object) name)
  | _ => exact .pure rfl

theorem form_writeSlot (used : List (Node Value)) (node : Node Value) (l : Ledger) (code : Code) :
    writeSlot (used.map Node.form) node.form l.form code.form = (writeSlot used node l code).form := by
  cases code with
  | setLocal name value =>
    unfold writeSlot Code.form putLocals form
    dsimp only
    rw [Dict.map_set]
  | setGlobal name value =>
    unfold writeSlot Code.form putGlobals form
    dsimp only
    rw [Dict.map_set]
  | setClassVariable name value =>
    unfold writeSlot Code.form putClassVariables form
    dsimp only
    rw [Dict.map_set]
  | setProperty receiver name value =>
    unfold writeSlot Code.form
    dsimp only
    rw [head_behind_form]
    cases used.head?.bind objectBehind with
    | none => rfl
    | some object =>
      dsimp only
      rw [← form_putProperties, Dict.map_set]
      rfl
  | _ => rfl

theorem inForm_conclude (site : Site kinds) (code : Code) (value : Value)
    (outer : List (Node Value)) : InForm id (conclude s site code value outer)
      (conclude s.form { site with label := "" } code.form value.form (outer.map Node.form)) := by
  unfold conclude
  refine .get_bind fun l => .bind (inForm_originsOf s l.operands code) fun origins =>
    .bind (inForm_create (Tracer.creatorOf site) (some value) origins) fun node =>
      inForm_modify fun l' => ?_
  rw [show l.form.operands = l.operands.map Node.form from rfl, form_writeSlot]
  rfl

theorem inForm_abandon (site : Site kinds) (code : Code) (outer : List (Node Value)) :
    InForm id (abandon site code outer)
      (abandon { site with label := "" } code.form (outer.map Node.form)) := by
  unfold abandon
  refine .get_bind fun l => ?_
  have leaves : ∀ used : List (Node Value), InForm id
      (modify ({ · with operands := used ++ outer }) : LedgerM PUnit)
      (modify ({ · with operands := used.map Node.form ++ outer.map Node.form })) := by
    refine fun used => inForm_modify fun l => ?_
    rw [← List.map_append]
    rfl
  cases code with
  | ret value =>
    rcases top : l.operands with _ | ⟨origin, below⟩
    · have top' : l.form.operands = [] := congrArg (List.map Node.form) top
      simp only [Code.form, top']
      exact leaves []
    · have top' : l.form.operands = origin.form :: below.map Node.form :=
        congrArg (List.map Node.form) top
      simp only [Code.form, top', Node.value_form]
      refine .bind (inForm_create (Tracer.creatorOf site) origin.value [origin]) fun node => ?_
      exact leaves (node :: below)
  | _ => exact leaves l.operands

/-! ### The evaluator in form -/

theorem inForm_addValues (left right : Value) :
    InForm Value.form (addValues left right) (addValues left.form right.form) := by
  cases left <;> cases right <;> first | exact .pure rfl | exact .throw rfl

/-- The ledger with which an invocation begins. -/
def called (l : Ledger) : Ledger := { l with locals := {}, localNodes := {}, operands := [] }

/-- The ledger of the caller once an invocation has ended with the ledger `after`. -/
def resumed (l after : Ledger) : Ledger :=
  { after with
    locals := l.locals, localNodes := l.localNodes
    operands := (if s.traced then after.operands else []) ++ l.operands }

theorem form_resumed (l after : Ledger) :
    (l.resumed s after).form = l.form.resumed s.form after.form := by
  unfold resumed form Setting.form
  dsimp only
  rw [List.map_append]
  cases s.traced <;> rfl

theorem inForm_withActivation {work work' : LedgerM Value} (inner : InForm Value.form work work') :
    InForm Value.form (withActivation s work) (withActivation s.form work') := by
  intro l
  change ((work'.run.run l.called.form).1, l.form.resumed s.form (work'.run.run l.called.form).2) =
    (formed Value.form (work.run.run l.called).1, (l.resumed s (work.run.run l.called).2).form)
  rw [inner l.called, form_resumed]

/-- So many steps of the evaluator go in form. -/
structure EvalInForm (n : Nat) : Prop where
  code : ∀ s code, InForm Value.form (eval n s code) (eval n s.form code.form)
  args : ∀ s args, InForm (List.map Value.form) (evalArgs n s args)
    (evalArgs n s.form (Code.formAll args))
  body : ∀ s last statements, InForm Value.form (evalBody n s last statements)
    (evalBody n s.form last.form (Code.formAll statements))

variable {s} {n : Nat}

theorem inForm_tagged (inner : EvalInForm n) (site : Site kinds) (code : Code) :
    InForm Value.form (eval (n + 1) s (.tagged site code))
      (eval (n + 1) s.form (Code.tagged site code).form) := by
  simp only [Code.form]
  unfold eval
  dsimp only
  rw [Code.isTagged_form]
  split
  · exact inner.code s code
  · refine .get_bind fun l => .bind (inForm_modify fun _ => rfl) fun _ => ?_
    refine .bind (.catching (inner.code s code) fun e => ?_) fun v =>
      .bind (inForm_conclude s site code v l.operands) fun _ => .pure rfl
    cases e with
    | returning v => exact .bind (inForm_abandon site code l.operands) fun _ => .throw rfl
    | _ => exact .throw rfl

theorem inForm_call (inner : EvalInForm n) (name : String) (args : List Code) :
    InForm Value.form (eval (n + 1) s (.call name args))
      (eval (n + 1) s.form (Code.call name args).form) := by
  simp only [Code.form]
  unfold eval
  dsimp only
  refine .bind (inner.args s args) fun values => ?_
  have found : s.form.program.functions.get? name =
      (s.program.functions.get? name).map Code.form := Dict.get?_map ..
  rw [found]
  cases s.program.functions.get? name with
  | none => exact .throw rfl
  | some function =>
    refine .get_bind fun l => ?_
    let frame : Frame := { name, caller := some s.frame, args := values }
    let callee : Setting := { s with
      frame := (l.world.addFrame frame).1, traced := function.isTagged
      arguments := if s.traced then some (l.operands.take values.length) else none }
    have made : l.form.world.addFrame frame.form =
        ((l.world.addFrame frame).1, (l.world.addFrame frame).2.form) := l.world.form_addFrame frame
    have setting : callee.form = { s.form with
        frame := (l.world.addFrame frame).1, traced := function.form.isTagged
        arguments := if s.traced then
          some ((l.operands.map Node.form).take (values.map Value.form).length) else none } := by
      rw [Code.isTagged_form, List.length_map, ← List.map_take]
      unfold Setting.form callee
      cases s.traced <;> rfl
    have invoked := inForm_withActivation s (inner.code callee function)
    rw [setting] at invoked
    rw [show l.form.world.addFrame { name, caller := some s.form.frame, args := values.map Value.form } =
      _ from made]
    exact .bind (inForm_set rfl) fun _ => invoked

theorem inForm_piece (inner : EvalInForm n) (code : Code) :
    InForm Value.form (eval (n + 1) s code) (eval (n + 1) s.form code.form) := by
  cases code with
  | tagged site code => exact inForm_tagged inner site code
  | call name args => exact inForm_call inner name args
  | int | str | nil =>
    unfold eval
    exact .pure rfl
  | new className =>
    unfold eval
    refine .get_bind fun l => ?_
    rw [show l.form.world.addObject = _ from l.world.form_addObject]
    exact .bind (inForm_modify fun _ => rfl) fun _ => .pure rfl
  | getLocal name =>
    unfold eval
    exact .get_bind fun l => .pure (Dict.getD_map Value.form l.locals name .nil)
  | getGlobal name =>
    unfold eval
    exact .get_bind fun l => .pure (Dict.getD_map Value.form l.globals name .nil)
  | getClassVariable name =>
    unfold eval
    exact .get_bind fun l => .pure (l.world.classVariable_form s.program.scope name)
  | setLocal name value | setGlobal name value =>
    simp only [Code.form]
    unfold eval
    refine .bind (inner.code s value) fun v => .bind (inForm_modify fun l => ?_) fun _ => .pure rfl
    unfold form
    rw [Dict.map_set]
  | setClassVariable name value =>
    simp only [Code.form]
    unfold eval
    refine .bind (inner.code s value) fun v => .bind (inForm_modify fun l => ?_) fun _ => .pure rfl
    unfold form
    rw [World.form_setClassVariable]
    rfl
  | ret value =>
    simp only [Code.form]
    unfold eval
    exact .bind (inner.code s value) fun v => .throw rfl
  | add left right =>
    simp only [Code.form]
    unfold eval
    exact .bind (inner.code s left) fun l => .bind (inner.code s right) fun r => inForm_addValues l r
  | body statements =>
    simp only [Code.form]
    unfold eval
    refine .catching (inner.body s .nil statements) fun e => ?_
    cases e with
    | returning v => exact .pure rfl
    | _ => exact .throw rfl
  | arg index =>
    unfold eval
    refine .get_bind fun l => ?_
    rw [show l.form.world.frame? s.form.frame = _ from l.world.frame?_form s.frame]
    cases l.world.frame? s.frame with
    | none => exact .pure rfl
    | some frame =>
      dsimp only [Option.map_some, Frame.form]
      rw [List.getElem?_map]
      cases frame.args[index]? with
      | none => exact .throw rfl
      | some v => exact .pure rfl
  | getProperty receiver name =>
    simp only [Code.form]
    unfold eval
    refine .bind (inner.code s receiver) fun v => ?_
    cases v with
    | object id className => exact .get_bind fun l => .pure (l.world.property_form id name)
    | _ => exact .pure rfl
  | setProperty receiver name value =>
    simp only [Code.form]
    unfold eval
    refine .bind (inner.code s value) fun v => .bind (inner.code s receiver) fun w => ?_
    cases w with
    | object id className =>
      refine .bind (inForm_modify fun l => ?_) fun _ => .pure rfl
      unfold form
      rw [World.form_setProperty]
    | _ => exact .pure rfl

/-- The evaluator goes in form, by induction on the steps allowed. -/
theorem evalInForm (n : Nat) : EvalInForm n := by
  induction n with
  | zero =>
    constructor
    all_goals intros
    all_goals simp only [eval_zero, evalArgs_zero, evalBody_zero]
    all_goals exact .throw rfl
  | succ n ih =>
    refine ⟨fun s code => inForm_piece ih code, fun s args => ?_, fun s last statements => ?_⟩
    · cases args with
      | nil =>
        unfold evalArgs
        exact .pure rfl
      | cons arg rest =>
        simp only [Code.formAll]
        unfold evalArgs
        exact .bind (ih.code s arg) fun v => .bind (ih.args s rest) fun values => .pure rfl
    · cases statements with
      | nil =>
        unfold evalBody
        exact .pure rfl
      | cons statement rest =>
        simp only [Code.formAll]
        unfold evalBody
        exact .bind (ih.code s statement) fun v => ih.body s v rest

end Ledger

end Steps

end Toy

end Lineage
