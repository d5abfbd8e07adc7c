import Lineage.Proofs.Toy.Invocation

/-!
# Every run follows its ledger

One theorem for each form of code, and by induction on the steps allowed one for all code: a run that
agrees with a ledger comes to the outcome that the ledger comes to, they agree again, and tagged code
has left exactly one node.
-/

namespace Lineage.Toy

open Shadow

variable {S : Type}

/-- Code has gone on from `m` until `values` are in use. -/
structure Came (exact : Prop) (seen : Stage kinds S → List (Node Value) → Prop) (s : Surroundings S)
    (a : Activation) (m : Machine S) (values : List Value) (m' : Machine S) (l' : Ledger) : Prop where
  since : Since s m m'
  follows : Follows exact seen s a values m' l'

/-- Code that takes part in the trace leaves the node of its value. -/
structure CameTo (exact : Prop) (seen : Stage kinds S → List (Node Value) → Prop)
    (s : Surroundings S) (a : Activation) (code : Code) (m : Machine S) (l : Ledger) (v : Value)
    (m' : Machine S) (l' : Ledger) : Prop extends Came exact seen s a m [v] m' l' where
  pushed : a.traced = true → ∃ node, l'.operands = node :: l.operands ∧ node.value = some v ∧
    ∀ site inner, code = .tagged site inner → node.creator = Tracer.creatorOf site

/-- A `return` leaves the node of its value on top of the operands that it has interrupted; once its
    own site is left, that is the node of the `return` itself. -/
structure Returned (exact : Prop) (seen : Stage kinds S → List (Node Value) → Prop)
    (s : Surroundings S) (a : Activation) (m : Machine S) (l : Ledger) (left : Prop) (v : Value)
    (m' : Machine S) (l' : Ledger) : Prop extends Came exact seen s a m [v] m' l' where
  top : a.traced = true → ∃ node others, l'.operands = node :: others ++ l.operands ∧
    node.value = some v ∧ (left → (m'.stage.shadow.recordOf s.frame).result = some node)

/-- A piece of code leaves the operands that the rule of its site looks for. -/
structure PieceDone (exact : Prop) (seen : Stage kinds S → List (Node Value) → Prop)
    (s : Surroundings S) (a : Activation) (code : Code) (m : Machine S) (v : Value)
    (m' : Machine S) (l' : Ledger) : Prop extends Came exact seen s a m [v] m' l' where
  ready : a.traced = true → Ready exact (s.place m' [v]) m'.stage.shadow l' code

/-- Arguments leave one node each. -/
structure ArgsDone (exact : Prop) (seen : Stage kinds S → List (Node Value) → Prop)
    (s : Surroundings S) (a : Activation) (m : Machine S) (l : Ledger) (values : List Value)
    (m' : Machine S) (l' : Ledger) : Prop extends Came exact seen s a m values m' l' where
  pushed : a.traced = true → ∃ nodes, l'.operands = nodes ++ l.operands ∧
    nodes.map (·.value) = values.reverse.map some

/-- What is taken for granted of the surroundings. -/
structure Fit (tracer : Tracer) (seen : Stage kinds S → List (Node Value) → Prop)
    (s : Surroundings S) : Prop where
  tagged : s.program.WellTagged
  watches : Watches tracer s.listener seen

variable {tracer : Tracer} {exact : Prop} {seen : Stage kinds S → List (Node Value) → Prop}
  {s : Surroundings S} {a : Activation} {m : Machine S} {l : Ledger}

theorem Fit.hold (fit : Fit tracer seen s) (values : List Value) : Fit tracer seen (s.hold values) :=
  ⟨fit.tagged, fit.watches⟩

/-- A function has come to a value, and so has left its one node behind, with its caller if that is
    traced. -/
structure FunctionDone (exact : Prop) (seen : Stage kinds S → List (Node Value) → Prop)
    (s : Surroundings S) (arguments : Option (List (Node Value))) (function : Code) (m : Machine S)
    (v : Value) (m' : Machine S) (l' : Ledger) : Prop where
  ended : ∃ stage, Came exact seen s { traced := function.isTagged, arguments } m [v]
      { m' with stage } l' ∧
    ((function.isTagged = false ∧ stage = m'.stage) ∨ ∃ node boundary site inner,
      function = .tagged boundary (.tagged site inner) ∧ l'.operands = [node] ∧
      node.value = some v ∧ node.creator = Tracer.creatorOf site ∧
      Handed (s.place m' [v]) node stage.shadow m'.stage.shadow)
  graph : exact → m'.stage.shadow.WellFormed
  seen : exact → seen m'.stage l'.made

/-- No `return` gets out of the code. -/
def Code.catches : Code → Bool
  | .body _ => true
  | .tagged _ code => code.catches
  | _ => false

/-- Code of any form follows the ledger, for as many steps. -/
structure Good (tracer : Tracer) (exact : Prop) (seen : Stage kinds S → List (Node Value) → Prop)
    (n : Nat) : Prop where
  code : ∀ (s : Surroundings S) a m l code, Fit tracer seen s → Follows exact seen s a [] m l →
    code.Shaped s.program.scope a.traced →
    Sim exact seen (eval n s code) (Ledger.eval n (s.setting a) code) m l
      (CameTo exact seen s a code m l)
      fun v m' l' => code.catches = false ∧ Returned exact seen s a m l True v m' l'
  piece : ∀ (s : Surroundings S) a m l code, Fit tracer seen s → Follows exact seen s a [] m l →
    code.Piece s.program.scope a.traced → l.operands = [] →
    Sim exact seen (eval n s code) (Ledger.eval n (s.setting a) code) m l
      (PieceDone exact seen s a code m) fun v m' l' => code.catches = false ∧
        Returned exact seen s a m l (categoryOf code ≠ .useStackDefReturn) v m' l'
  args : ∀ (s : Surroundings S) a m l args, Fit tracer seen s → Follows exact seen s a [] m l →
    (∀ c ∈ args, c.Shaped s.program.scope a.traced) →
    Sim exact seen (evalArgs n s args) (Ledger.evalArgs n (s.setting a) args) m l
      (ArgsDone exact seen s a m l) (Returned exact seen s a m l True)
  body : ∀ (s : Surroundings S) a m l last statements, Fit tracer seen s →
    Follows exact seen s a [last] m l → (∀ c ∈ statements, c.Shaped s.program.scope a.traced) →
    Sim exact seen (evalBody n s last statements)
      (Ledger.evalBody n (s.setting a) last statements) m l
      (fun v => Came exact seen s a m [v]) (Returned exact seen s a m l True)
  function : ∀ (s : Surroundings S) arguments m l code, Fit tracer seen s →
    Follows exact seen s { traced := false, arguments } [] m l → l.localNodes = {} →
    code.Defined s.program.scope →
    Sim exact seen (eval n s code)
      (Ledger.eval n (s.setting { traced := code.isTagged, arguments }) code) m l
      (FunctionDone exact seen s arguments code m) fun _ _ _ => False

/-- Without steps no run gets anywhere, nor does its ledger. -/
theorem sim_outOfFuel {α : Type} {ok : α → Machine S → Ledger → Prop}
    {ret : Value → Machine S → Ledger → Prop} {values : List Value}
    (h : Follows exact seen s a values m l) :
    Sim (α := α) exact seen (throw .outOfFuel) (throw .outOfFuel) m l ok ret :=
  .throw (fun _ => Interrupt.noConfusion) (fun _ => Interrupt.noConfusion) h.seen

theorem Good.zero : Good (S := S) tracer exact seen 0 where
  code s a m l code _ h _ := by
    rw [eval_zero, Ledger.eval_zero]
    exact sim_outOfFuel h
  piece s a m l code _ h _ _ := by
    rw [eval_zero, Ledger.eval_zero]
    exact sim_outOfFuel h
  args s a m l args _ h _ := by
    rw [evalArgs_zero, Ledger.evalArgs_zero]
    exact sim_outOfFuel h
  body s a m l last statements _ h _ := by
    rw [evalBody_zero, Ledger.evalBody_zero]
    exact sim_outOfFuel h
  function s arguments m l code _ h _ _ := by
    rw [eval_zero, Ledger.eval_zero]
    exact sim_outOfFuel h

variable {n : Nat}

theorem Since.of_hold {more : List Value} {m' : Machine S} (h : Since (s.hold more) m m') :
    Since s m m' := ⟨h.grows, h.spared⟩

theorem Came.of_hold {values more : List Value} {m' : Machine S} {l' : Ledger}
    (h : Came exact seen (s.hold more) a m values m' l') :
    Came exact seen s a m (values ++ more) m' l' :=
  ⟨h.since.of_hold, Follows.hold_iff.mp h.follows⟩

/-- What comes after some values have been computed is part of the same code. -/
theorem Came.later {values used : List Value} {m' m'' : Machine S} {l' l'' : Ledger}
    (first : Came exact seen s a m values m' l') (second : Came exact seen s a m' used m'' l'') :
    Came exact seen s a m used m'' l'' := ⟨first.since.trans second.since, second.follows⟩

theorem Came.after {values more used : List Value} {m' m'' : Machine S} {l' l'' : Ledger}
    (first : Came exact seen s a m values m' l')
    (second : Came exact seen (s.hold more) a m' used m'' l'') :
    Came exact seen s a m (used ++ more) m'' l'' := first.later second.of_hold

theorem Came.forget {values values' : List Value} {m' : Machine S} {l' : Ledger}
    (h : Came exact seen s a m values m' l') (sub : values' ⊆ values) :
    Came exact seen s a m values' m' l' := ⟨h.since, h.follows.forget sub⟩

/-- Values are read off the state without a change of it. -/
theorem Came.holding {values values' : List Value} {m' : Machine S} {l' : Ledger}
    (h : Came exact seen s a m values m' l')
    (held : ∀ v ∈ values', m'.world.HoldsValue (s.shares m' values) v) :
    Came exact seen s a m values' m' l' := ⟨h.since, h.follows.holding held⟩

theorem Came.start {values : List Value} (h : Follows exact seen s a values m l) :
    Came exact seen s a m values m l := ⟨.refl s m, h⟩

theorem Returned.mono {left left' : Prop} {v : Value} {m' : Machine S} {l' : Ledger}
    (h : Returned exact seen s a m l left v m' l') (weaker : left' → left) :
    Returned exact seen s a m l left' v m' l' where
  toCame := h.toCame
  top traced := by
    obtain ⟨node, others, operands, value, result⟩ := h.top traced
    exact ⟨node, others, operands, value, fun h => result (weaker h)⟩

/-- A `return` interrupts whatever has been computed before it. -/
theorem Returned.later {left : Prop} {values : List Value} {v : Value} {m' m'' : Machine S}
    {l' l'' : Ledger} (first : Came exact seen s a m values m' l')
    (operands : a.traced = true → ∃ nodes, l'.operands = nodes ++ l.operands)
    (second : Returned exact seen s a m' l' left v m'' l'') :
    Returned exact seen s a m l left v m'' l'' where
  toCame := first.later second.toCame
  top traced := by
    obtain ⟨nodes, before⟩ := operands traced
    obtain ⟨node, others, after, rest⟩ := second.top traced
    exact ⟨node, others ++ nodes, by rw [after, before]; simp, rest⟩

theorem Returned.of_hold {left : Prop} {more : List Value} {v : Value} {m' : Machine S}
    {l' : Ledger} (h : Returned exact seen (s.hold more) a m l left v m' l') :
    Returned exact seen s a m l left v m' l' where
  toCame := h.toCame.of_hold.forget (List.subset_append_left _ _)
  top := h.top

theorem Returned.after {left : Prop} {values more : List Value} {v : Value} {m' m'' : Machine S}
    {l' l'' : Ledger} (first : Came exact seen s a m values m' l')
    (operands : a.traced = true → ∃ nodes, l'.operands = nodes ++ l.operands)
    (second : Returned exact seen (s.hold more) a m' l' left v m'' l'') :
    Returned exact seen s a m l left v m'' l'' := .later first operands second.of_hold

theorem CameTo.operands {code : Code} {v : Value} {m' : Machine S} {l' : Ledger}
    (h : CameTo exact seen s a code m l v m' l') (traced : a.traced = true) :
    ∃ nodes, l'.operands = nodes ++ l.operands := by
  obtain ⟨node, operands, -⟩ := h.pushed traced
  exact ⟨[node], operands⟩

/-- The slots of an object in use are the same in the shadow state and in the ledger. -/
theorem Follows.slots_known {values : List Value} {v : Value} {node : Node Value}
    (h : Follows exact seen s a values m l) (used : v ∈ values) (value : node.value = some v) :
    exact → ∀ o, Ledger.objectBehind node = some o →
      m.world.Made (.object o) ∧ l.propertyNodes o = m.stage.shadow.objectSlots o := by
  intro hexact o behind
  refine (h.mirrors.stored hexact).objects o
    (Place.lives_of_holds (Surroundings.holdsValue_used used _ ?_))
  unfold Ledger.objectBehind at behind
  rw [value] at behind
  cases v with
  | object id className => exact List.mem_singleton.mpr (congrArg _ (Option.some.inj behind).symm)
  | _ => cases behind

theorem Good.sim (good : Good tracer exact seen n) (s : Surroundings S) (a : Activation)
    (m : Machine S) (l : Ledger) (code : Code) (fit : Fit tracer seen s)
    (h : Follows exact seen s a [] m l) (shaped : code.Shaped s.program.scope a.traced) :
    Sim exact seen (eval n s code) (Ledger.eval n (s.setting a) code) m l
      (CameTo exact seen s a code m l) (Returned exact seen s a m l True) :=
  (good.code s a m l code fit h shaped).mono (fun _ _ _ => id) fun _ _ _ => And.right

/-! ### Code without parts -/

variable {ret : Value → Machine S → Ledger → Prop}

theorem sim_literal {code : Code} {v : Value} (h : Follows exact seen s a [] m l)
    (run : eval (n + 1) s code = pure v) (ledger : Ledger.eval (n + 1) (s.setting a) code = pure v)
    (plain : Entity.ofValue v = []) (ready : Ready exact (s.place m [v]) m.stage.shadow l code) :
    Sim exact seen (eval (n + 1) s code) (Ledger.eval (n + 1) (s.setting a) code) m l
      (PieceDone exact seen s a code m) ret := by
  rw [run, ledger]
  refine .pure ⟨(Came.start h).holding ?_, fun _ => ready⟩
  intro w mem e inside
  rw [List.mem_singleton.mp mem, plain] at inside
  cases inside

theorem sim_new (h : Follows exact seen s a [] m l) (empty : l.operands = []) (name : String) :
    Sim exact seen (eval (n + 1) s (.new name)) (Ledger.eval (n + 1) (s.setting a) (.new name)) m l
      (PieceDone exact seen s a (.new name) m) ret := by
  unfold eval Ledger.eval
  dsimp only
  refine .get_bind (.bind_get ?_)
  rw [h.world]
  have created := h.newObject name
  rw [h.world] at created
  exact .of_run rfl (fun _ => rfl)
    ⟨⟨.of_grows (fun _ _ found => found) rfl, created⟩, fun _ => empty⟩

theorem sim_getLocal (h : Follows exact seen s a [] m l) (empty : l.operands = []) (name : String) :
    Sim exact seen (eval (n + 1) s (.getLocal name))
      (Ledger.eval (n + 1) (s.setting a) (.getLocal name)) m l
      (PieceDone exact seen s a (.getLocal name) m) ret := by
  unfold eval Ledger.eval
  dsimp only
  refine .get_bind (.bind_get ?_)
  rw [h.locals]
  refine .pure ⟨(Came.start h).holding ?_, fun _ => empty⟩
  rintro v mem
  rw [List.mem_singleton.mp mem, Dict.getD]
  cases found : m.locals.get? name with
  | none => exact World.holdsValue_nil
  | some v => exact Surroundings.holdsValue_local (Dict.mem_values_of_get? found)

theorem sim_getGlobal (h : Follows exact seen s a [] m l) (empty : l.operands = [])
    (name : String) :
    Sim exact seen (eval (n + 1) s (.getGlobal name))
      (Ledger.eval (n + 1) (s.setting a) (.getGlobal name)) m l
      (PieceDone exact seen s a (.getGlobal name) m) ret := by
  unfold eval Ledger.eval
  dsimp only
  refine .get_bind (.bind_get ?_)
  rw [h.globals]
  refine .pure ⟨(Came.start h).holding ?_, fun _ => empty⟩
  rintro v mem
  rw [List.mem_singleton.mp mem, Dict.getD]
  cases found : m.globals.get? name with
  | none => exact World.holdsValue_nil
  | some v => exact Surroundings.holdsValue_global (Dict.mem_values_of_get? found)

theorem sim_getClassVariable (h : Follows exact seen s a [] m l) (empty : l.operands = [])
    (name : String) :
    Sim exact seen (eval (n + 1) s (.getClassVariable name))
      (Ledger.eval (n + 1) (s.setting a) (.getClassVariable name)) m l
      (PieceDone exact seen s a (.getClassVariable name) m) ret := by
  unfold eval Ledger.eval
  dsimp only
  refine .get_bind (.bind_get ?_)
  rw [h.world]
  refine .pure ⟨(Came.start h).holding ?_, fun _ => empty⟩
  rintro v mem
  rw [List.mem_singleton.mp mem]
  exact World.holdsValue_classVariable (Surroundings.holds_handle (by simp)) name

theorem sim_arg (h : Follows exact seen s a [] m l) (empty : l.operands = []) (index : Nat) :
    Sim exact seen (eval (n + 1) s (.arg index)) (Ledger.eval (n + 1) (s.setting a) (.arg index)) m l
      (PieceDone exact seen s a (.arg index) m) ret := by
  unfold eval Ledger.eval
  dsimp only
  refine .get_bind (.bind_get ?_)
  obtain ⟨frame, found, -⟩ := h.called
  rw [h.world, Surroundings.setting, found]
  dsimp only
  cases argument : frame.args[index]? with
  | none =>
    exact .throw (fun _ => by rintro ⟨⟩) (fun _ => Interrupt.noConfusion) h.seen
  | some v =>
    refine .pure ⟨(Came.start h).holding ?_, fun _ => ⟨empty, ?_⟩⟩
    · intro w mem
      rw [List.mem_singleton.mp mem]
      exact World.holdsValue_argument (Surroundings.holds_handle (by simp)) found argument
    · intro frame' found'
      obtain rfl := Option.some.inj (found.symm.trans found')
      exact (List.getElem?_eq_some_iff.mp argument).1

/-! ### Code with parts -/

section Parts

variable (good : Good tracer exact seen n) (fit : Fit tracer seen s)
  (h : Follows exact seen s a [] m l)

include good fit h

theorem sim_ret {value : Code} (shaped : value.Shaped s.program.scope a.traced) :
    Sim exact seen (eval (n + 1) s (.ret value)) (Ledger.eval (n + 1) (s.setting a) (.ret value)) m l
      (PieceDone exact seen s a (.ret value) m) (Returned exact seen s a m l False) := by
  unfold eval Ledger.eval
  dsimp only
  refine .bind (.mono (good.sim s a m l value fit h shaped) (fun _ _ _ => id)
    fun v m' l' returned => returned.mono False.elim) fun v m' l' came => ?_
  refine .throw (fun _ => Interrupt.noConfusion) ?_ came.follows.seen
  rintro w ⟨⟩
  refine ⟨came.toCame, fun traced => ?_⟩
  obtain ⟨node, one, value, -⟩ := came.pushed traced
  exact ⟨node, [], one, value, False.elim⟩

theorem sim_add {left right : Code} (shapedLeft : left.Shaped s.program.scope a.traced)
    (shapedRight : right.Shaped s.program.scope a.traced) :
    Sim exact seen (eval (n + 1) s (.add left right))
      (Ledger.eval (n + 1) (s.setting a) (.add left right)) m l
      (PieceDone exact seen s a (.add left right) m) (Returned exact seen s a m l True) := by
  unfold eval Ledger.eval
  dsimp only
  refine .bind (good.sim s a m l left fit h shapedLeft) fun v m' l' first => ?_
  refine .bind (P := fun w m'' l'' => Came exact seen s a m [w, v] m'' l'') (.mono
    (good.sim (s.hold [v]) a m' l' right (fit.hold [v]) (Follows.hold_iff.mpr first.follows)
      shapedRight)
    (fun w m'' l'' second => first.toCame.after second.toCame)
    fun w m'' l'' second => .after first.toCame first.operands second) fun w m'' l'' came => ?_
  have plain : ∀ sum : Value, Entity.ofValue sum = [] →
      PieceDone exact seen s a (.add left right) m sum m'' l'' := by
    intro sum plain
    refine ⟨came.holding fun x mem e inside => ?_, fun _ => trivial⟩
    rw [List.mem_singleton.mp mem, plain] at inside
    cases inside
  have failing : Sim exact seen (throw (.failing (.cannotAdd v w)))
      (throw (.failing (.cannotAdd v w))) m'' l'' (PieceDone exact seen s a (.add left right) m)
      (Returned exact seen s a m l True) := by
    refine .throw ?_ (fun _ => Interrupt.noConfusion) came.follows.seen
    rintro fault ⟨⟩
  cases v with
  | int x =>
    cases w with
    | int y => exact .pure (plain _ rfl)
    | _ => exact failing
  | str x =>
    cases w with
    | str y => exact .pure (plain _ rfl)
    | _ => exact failing
  | _ => exact failing

theorem sim_getProperty {receiver : Code} (shaped : receiver.Shaped s.program.scope a.traced)
    (name : String) :
    Sim exact seen (eval (n + 1) s (.getProperty receiver name))
      (Ledger.eval (n + 1) (s.setting a) (.getProperty receiver name)) m l
      (PieceDone exact seen s a (.getProperty receiver name) m) (Returned exact seen s a m l True) := by
  unfold eval Ledger.eval
  dsimp only
  refine .bind (good.sim s a m l receiver fit h shaped) fun v m' l' came => ?_
  have ready : ∀ w, a.traced = true →
      Ready exact (s.place m' [w]) m'.stage.shadow l' (.getProperty receiver name) := by
    intro w traced
    obtain ⟨node, one, value, -⟩ := came.pushed traced
    exact ⟨node, l.operands, one,
      came.follows.slots_known (List.mem_singleton.mpr rfl) value⟩
  cases v with
  | object id className =>
    dsimp only
    refine .get_bind (.bind_get ?_)
    rw [came.follows.world]
    refine .pure ⟨came.toCame.holding ?_, ready _⟩
    intro w mem
    rw [List.mem_singleton.mp mem]
    exact World.holdsValue_property (Surroundings.holdsValue_used (List.mem_singleton.mpr rfl) _
      (List.mem_singleton.mpr rfl)) name
  | _ =>
    refine .pure ⟨came.toCame.holding ?_, ready _⟩
    intro w mem
    rw [List.mem_singleton.mp mem]
    exact World.holdsValue_nil

theorem sim_setProperty {receiver value : Code}
    (shapedValue : value.Shaped s.program.scope a.traced)
    (shapedReceiver : receiver.Shaped s.program.scope a.traced) (name : String) :
    Sim exact seen (eval (n + 1) s (.setProperty receiver name value))
      (Ledger.eval (n + 1) (s.setting a) (.setProperty receiver name value)) m l
      (PieceDone exact seen s a (.setProperty receiver name value) m)
      (Returned exact seen s a m l True) := by
  unfold eval Ledger.eval
  dsimp only
  refine .bind (good.sim s a m l value fit h shapedValue) fun v m' l' first => ?_
  refine .bind (P := fun w m'' l'' => Came exact seen s a m [w, v] m'' l'' ∧
      (a.traced = true → ∃ node others, l''.operands = node :: others ∧ node.value = some w)) (.mono
    (good.sim (s.hold [v]) a m' l' receiver (fit.hold [v]) (Follows.hold_iff.mpr first.follows)
      shapedReceiver) (fun w m'' l'' second => ⟨first.toCame.after second.toCame, fun traced => ?_⟩)
    fun w m'' l'' second => .after first.toCame first.operands second) fun w m'' l'' came => ?_
  · obtain ⟨node, operands, value, -⟩ := second.pushed traced
    exact ⟨node, _, operands, value⟩
  obtain ⟨came, operands⟩ := came
  have ready : a.traced = true →
      Ready exact (s.place m'' [v]) m''.stage.shadow l'' (.setProperty receiver name value) := by
    intro traced
    obtain ⟨node, others, some', value⟩ := operands traced
    exact ⟨node, others, some', came.follows.slots_known List.mem_cons_self value⟩
  have sub : [v] ⊆ [w, v] := List.subset_cons_self _ _
  cases w with
  | object id className =>
    refine .of_run rfl (fun _ => rfl) ⟨⟨came.since.trans (.of_grows (fun _ _ found => found) rfl),
      (came.follows.setProperty (v := v) (by simp) id name).forget sub⟩, fun traced => ?_⟩
    obtain ⟨node, others, some', known⟩ := ready traced
    refine ⟨node, others, some', fun hexact o behind => ?_⟩
    obtain ⟨made, slots⟩ := known hexact o behind
    have made' : (m''.world.setProperty id name v).Made (.object o) := by
      simpa [World.Made, World.setProperty, Surroundings.place] using made
    exact ⟨made', slots⟩
  | _ => exact .pure ⟨came.forget sub, ready⟩

theorem sim_body {statements : List Code}
    (shaped : ∀ c ∈ statements, c.Shaped s.program.scope a.traced) :
    Sim exact seen (eval (n + 1) s (.body statements))
      (Ledger.eval (n + 1) (s.setting a) (.body statements)) m l
      (PieceDone exact seen s a (.body statements) m) fun _ _ _ => False := by
  unfold eval Ledger.eval
  dsimp only
  have nothing : Follows exact seen s a [.nil] m l := h.holding fun v mem => by
    rw [List.mem_singleton.mp mem]
    exact World.holdsValue_nil
  refine .catching (.mono (good.body s a m l .nil statements fit nothing shaped)
    (fun v m' l' came => ⟨came, fun _ => trivial⟩) fun _ _ _ => id) ?_ ?_ ?_
  · exact fun v m' l' returned => .pure ⟨returned.toCame, fun _ => trivial⟩
  · intro e others
    cases e with
    | returning v => exact absurd rfl (others v)
    | _ => rfl
  · intro e others
    cases e with
    | returning v => exact absurd rfl (others v)
    | _ => rfl

omit h in
theorem sim_statements {last : Value} {statements : List Code}
    (h : Follows exact seen s a [last] m l)
    (shaped : ∀ c ∈ statements, c.Shaped s.program.scope a.traced) :
    Sim exact seen (evalBody (n + 1) s last statements)
      (Ledger.evalBody (n + 1) (s.setting a) last statements) m l
      (fun v => Came exact seen s a m [v]) (Returned exact seen s a m l True) := by
  unfold evalBody Ledger.evalBody
  cases statements with
  | nil => exact .pure (.start h)
  | cons statement rest =>
    refine .bind (P := fun v m' l' => Came exact seen s a m [v] m' l' ∧
        (a.traced = true → ∃ nodes, l'.operands = nodes ++ l.operands)) (.mono
      (good.sim (s.hold [last]) a m l statement (fit.hold _) (Follows.hold_iff.mpr h)
        (shaped _ List.mem_cons_self))
      (fun v m' l' came => ⟨(came.toCame.of_hold).forget (List.subset_append_left _ _),
        came.operands⟩)
      fun v m' l' returned => returned.of_hold) fun v m' l' came => ?_
    obtain ⟨came, operands⟩ := came
    exact .mono (good.body s a m' l' v rest fit came.follows fun c mem =>
        shaped c (List.mem_cons_of_mem _ mem))
      (fun w m'' l'' => came.later) fun w m'' l'' => .later came operands

theorem sim_args {args : List Code} (shaped : ∀ c ∈ args, c.Shaped s.program.scope a.traced) :
    Sim exact seen (evalArgs (n + 1) s args) (Ledger.evalArgs (n + 1) (s.setting a) args) m l
      (ArgsDone exact seen s a m l) (Returned exact seen s a m l True) := by
  unfold evalArgs Ledger.evalArgs
  cases args with
  | nil =>
    exact .pure ⟨.start h, fun _ => ⟨[], rfl, rfl⟩⟩
  | cons arg rest =>
    refine .bind (good.sim s a m l arg fit h (shaped _ List.mem_cons_self)) fun v m' l' first => ?_
    refine .bind (.mono (Q := fun values m'' l'' => ArgsDone exact seen s a m l (v :: values) m'' l'')
      (good.args (s.hold [v]) a m' l' rest (fit.hold [v]) (Follows.hold_iff.mpr first.follows)
        fun c mem => shaped c (List.mem_cons_of_mem _ mem)) (fun values m'' l'' second => ?_)
      fun w m'' l'' returned => .after first.toCame first.operands returned)
      fun values m'' l'' => .pure
    refine ⟨(first.toCame.after second.toCame).forget ?_, fun traced => ?_⟩
    · intro w mem
      rcases List.mem_cons.mp mem with rfl | mem
      · exact List.mem_append_right _ (List.mem_singleton.mpr rfl)
      · exact List.mem_append_left _ mem
    · obtain ⟨node, one, value, -⟩ := first.pushed traced
      obtain ⟨nodes, operands, inOrder⟩ := second.pushed traced
      refine ⟨nodes ++ [node], ?_, ?_⟩
      · rw [operands, one, List.append_assoc]
        rfl
      · rw [List.map_append, inOrder, List.reverse_cons, List.map_append]
        exact congrArg (fun x => _ ++ [x]) value

variable (empty : l.operands = [])

include empty

theorem sim_setLocal {value : Code} (shaped : value.Shaped s.program.scope a.traced)
    (name : String) :
    Sim exact seen (eval (n + 1) s (.setLocal name value))
      (Ledger.eval (n + 1) (s.setting a) (.setLocal name value)) m l
      (PieceDone exact seen s a (.setLocal name value) m) (Returned exact seen s a m l True) := by
  unfold eval Ledger.eval
  dsimp only
  refine .bind (good.sim s a m l value fit h shaped) fun v m' l' came => .of_run rfl (fun _ => rfl) ?_
  refine ⟨⟨came.since.trans (.of_grows (.refl _) rfl), came.follows.setLocal name⟩, fun traced => ?_⟩
  obtain ⟨node, one, -⟩ := came.pushed traced
  exact ⟨node, one.trans (by rw [empty])⟩

theorem sim_setGlobal {value : Code} (shaped : value.Shaped s.program.scope a.traced)
    (name : String) :
    Sim exact seen (eval (n + 1) s (.setGlobal name value))
      (Ledger.eval (n + 1) (s.setting a) (.setGlobal name value)) m l
      (PieceDone exact seen s a (.setGlobal name value) m) (Returned exact seen s a m l True) := by
  unfold eval Ledger.eval
  dsimp only
  refine .bind (good.sim s a m l value fit h shaped) fun v m' l' came => .of_run rfl (fun _ => rfl) ?_
  refine ⟨⟨came.since.trans (.of_grows (.refl _) rfl), came.follows.setGlobal name⟩,
    fun traced => ?_⟩
  obtain ⟨node, one, -⟩ := came.pushed traced
  exact ⟨node, one.trans (by rw [empty])⟩

theorem sim_setClassVariable {value : Code} (shaped : value.Shaped s.program.scope a.traced)
    (name : String) :
    Sim exact seen (eval (n + 1) s (.setClassVariable name value))
      (Ledger.eval (n + 1) (s.setting a) (.setClassVariable name value)) m l
      (PieceDone exact seen s a (.setClassVariable name value) m)
      (Returned exact seen s a m l True) := by
  unfold eval Ledger.eval
  dsimp only
  refine .bind (good.sim s a m l value fit h shaped) fun v m' l' came => .of_run rfl (fun _ => rfl) ?_
  refine ⟨⟨came.since.trans (.of_grows (fun _ _ found => found) rfl),
    came.follows.setClassVariable (List.mem_singleton.mpr rfl) s.program.scope name⟩,
    fun traced => ?_⟩
  obtain ⟨node, one, -⟩ := came.pushed traced
  exact ⟨node, one.trans (by rw [empty])⟩

end Parts

/-! ### Tagged code -/

/-- Between its checkpoints a piece works on operands of its own, and one node takes their place. -/
theorem sim_tagged (good : Good tracer exact seen n) (fit : Fit tracer seen s)
    (h : Follows exact seen s a [] m l) (traced : a.traced = true) {code : Code} (id : SiteId)
    (label : String) (piece : code.Piece s.program.scope true) :
    Sim exact seen (eval (n + 1) s (.tagged (siteOf s.program.scope id label code) code))
      (Ledger.eval (n + 1) (s.setting a) (.tagged (siteOf s.program.scope id label code) code)) m l
      (CameTo exact seen s a (.tagged (siteOf s.program.scope id label code) code) m l)
      (fun v m' l' => code.catches = false ∧ Returned exact seen s a m l True v m' l') := by
  unfold eval Ledger.eval
  dsimp only
  rw [if_neg (by rw [isTagged_of_piece piece]; exact Bool.false_ne_true)]
  refine .bind_get (.bind (.enter id label h fit.watches traced piece) fun _ m₁ l₁ entered => ?_)
  obtain ⟨since₁, empty, inside⟩ := entered
  have inner := good.piece s (a.inside id code l.operands) m₁ l₁ code fit inside
    (by rw [Activation.inside, traced]; exact piece) empty
  refine .bind (.catching inner ?_ ?_ ?_) fun v m₂ l₂ done => ?_
  · rintro v m₂ l₂ ⟨opens, returned⟩
    obtain ⟨node, others, operands, value, result⟩ := returned.top traced
    rw [empty, List.append_nil] at operands
    refine .bind (.unwind id label returned.follows fit.watches traced piece operands value result)
      fun _ m₃ l₃ unwound => ?_
    obtain ⟨since₃, follows, late, below, operands, value, result⟩ := unwound
    refine .throw (fun _ => Interrupt.noConfusion) ?_ follows.seen
    rintro w ⟨⟩
    exact ⟨opens, ⟨since₁.trans (returned.since.trans since₃), follows⟩,
      fun _ => ⟨late, below, operands, value, fun _ => result⟩⟩
  · intro e others
    cases e with
    | returning v => exact absurd rfl (others v)
    | _ => rfl
  · intro e others
    cases e with
    | returning v => exact absurd rfl (others v)
    | _ => rfl
  · refine .bind (.leave id label done.follows fit.watches traced piece (done.ready traced))
      fun _ m₃ l₃ left => ?_
    obtain ⟨since₃, follows, node, operands, value, creator⟩ := left
    refine .pure ⟨⟨since₁.trans (done.since.trans since₃), follows⟩, fun _ =>
      ⟨node, operands, value, ?_⟩⟩
    rintro site inner ⟨⟩
    exact creator

theorem sim_shaped (good : Good tracer exact seen n) (fit : Fit tracer seen s)
    (plain : ∀ code, code.Piece s.program.scope a.traced → l.operands = [] →
      Sim exact seen (eval (n + 1) s code) (Ledger.eval (n + 1) (s.setting a) code) m l
        (PieceDone exact seen s a code m) fun v m' l' => code.catches = false ∧
          Returned exact seen s a m l (categoryOf code ≠ .useStackDefReturn) v m' l')
    (h : Follows exact seen s a [] m l) {code : Code}
    (shaped : code.Shaped s.program.scope a.traced) :
    Sim exact seen (eval (n + 1) s code) (Ledger.eval (n + 1) (s.setting a) code) m l
      (CameTo exact seen s a code m l)
      fun v m' l' => code.catches = false ∧ Returned exact seen s a m l True v m' l' := by
  cases traced : a.traced with
  | false =>
    rw [traced] at shaped plain
    cases shaped with
    | plain piece =>
      have never : a.traced ≠ true := by
        rw [traced]
        exact Bool.false_ne_true
      refine .mono (plain code piece (h.mirrors.untraced traced).2) (fun v m' l' done => ?_)
        fun v m' l' returned => ?_
      · exact ⟨done.toCame, fun absurd => (never absurd).elim⟩
      · exact ⟨returned.1, returned.2.toCame, fun absurd => (never absurd).elim⟩
  | true =>
    rw [traced] at shaped
    cases shaped with
    | tagged id label piece => exact sim_tagged good fit h traced id label piece

/-! ### Calls -/

theorem ends_withFreshLocals {α : Type} (work : EvalM S α) (m : Machine S)
    (post : Except Interrupt α → Machine S → Prop) :
    Ends (withFreshLocals work) m post ↔
      Ends work { m with locals := {} } fun r m' => post r { m' with locals := m.locals } := Iff.rfl

theorem sim_function (good : Good tracer exact seen n) (fit : Fit tracer seen s)
    {arguments : Option (List (Node Value))}
    (h : Follows exact seen s { traced := false, arguments } [] m l) (fresh : l.localNodes = {})
    {code : Code} (defined : code.Defined s.program.scope) :
    Sim exact seen (eval (n + 1) s code)
      (Ledger.eval (n + 1) (s.setting { traced := code.isTagged, arguments }) code) m l
      (FunctionDone exact seen s arguments code m) fun _ _ _ => False := by
  cases defined with
  | @plain statements shaped =>
    refine .mono (sim_body good fit h shaped) (fun v m' l' done => ?_) fun _ _ _ => id
    exact ⟨⟨m'.stage, done.toCame, .inl ⟨rfl, rfl⟩⟩, done.follows.graph, done.follows.seen⟩
  | @traced statements boundary label id bodyLabel shaped =>
    obtain ⟨stage₁, run, since₁, entered⟩ := h.enterFunction boundary label fit.watches fresh
    have inner := good.code s { traced := true, arguments } { m with stage := stage₁ } l _ fit
      entered (.tagged id bodyLabel (.body shaped))
    unfold eval Ledger.eval Sim
    dsimp only
    rw [if_pos (by rfl), ends_bind]
    refine .of_run run ?_
    dsimp only
    rw [ends_bind, ends_tryCatch]
    refine Ends.mono inner ?_
    rintro r m' ⟨l', ledger, post⟩
    rcases r with (v | failure | _) | v
    · cases post.1
    · exact ⟨l', ledger, post⟩
    · exact ⟨l', ledger, post⟩
    · obtain ⟨node, one, value, creator⟩ := post.pushed rfl
      rw [(h.mirrors.untraced rfl).2] at one
      obtain ⟨stage₂, run, handed, graph, hseen⟩ := post.follows.leaveFunction boundary label
        fit.watches one
      dsimp only
      rw [ends_bind]
      refine .of_run run ⟨l', ledger, ⟨m'.stage, ?_, .inr ⟨node, _, _, _, rfl, one, value,
        creator _ _ rfl, handed⟩⟩, graph, hseen⟩
      exact ⟨since₁.trans post.since, post.follows⟩

/-- What a function has left behind has been delivered to its caller. -/
theorem FunctionDone.delivered {values : List Value} {name : String} {function : Code}
    {arguments : Option (List (Node Value))} {stage : Stage kinds S} {v : Value} {m' : Machine S}
    {l' : Ledger} (own : m.world.Made (.frame s.frame))
    (done : FunctionDone exact seen (s.callee m) arguments function
      { m with world := (m.world.addFrame (s.invocation name values)).2, stage, locals := {} }
      v m' l') :
    ∃ stage', Came exact seen (s.callee m) { traced := function.isTagged, arguments }
        { m with world := (m.world.addFrame (s.invocation name values)).2, stage, locals := {} }
        [v] { m' with stage := stage' } l' ∧
      Delivered (s.callee m).frame s.frame l'.operands stage'.shadow m'.stage.shadow := by
  obtain ⟨stage', came, how⟩ := done.ended
  refine ⟨stage', came, ?_⟩
  have called : ((s.callee m).place m' [v]).host.callerOf (s.callee m).frame = some s.frame := by
    have found := came.since.grows _ _ (World.frame?_addFrame m.world (s.invocation name values))
    exact (congrArg (·.bind (·.caller)) found).trans rfl
  rcases how with ⟨untraced, same⟩ | ⟨node, boundary, site, inner, rfl, one, -, -, handed⟩
  · rw [(came.follows.mirrors.untraced untraced).2, same]
    exact .of_same (.refl _)
  · obtain ⟨record, found, stack, -, -⟩ := came.follows.mirrors.traced rfl
    rw [one] at stack ⊢
    exact .of_handed handed found stack called (World.ne_of_made own (s.invocation name values))

/-- The call of a function, once its arguments are known. -/
theorem sim_invoke (good : Good tracer exact seen n) (fit : Fit tracer seen s) {values : List Value}
    (h : Follows exact seen s a values m l) (name : String) {function : Code}
    (enough : a.traced = true → values.length ≤ l.operands.length)
    (defined : function.Defined s.program.scope) :
    Sim exact seen
      (do
        set { m with world := (m.world.addFrame (s.invocation name values)).2 }
        noteCall name values.length
        withFreshLocals (eval n (s.callee m) function))
      (do
        set { l with world := (m.world.addFrame (s.invocation name values)).2 }
        Ledger.withActivation (s.setting a) (Ledger.eval n ((s.callee m).setting {
          traced := function.isTagged
          arguments := (a.called l values.length).arguments }) function)) m l
      (fun v m' l' => Came exact seen s a m [v] m' l') fun _ _ _ => False := by
  have begun := h.call name enough
  rw [h.world] at begun
  let log := m.stage.shadow.log.add .trace "toy call"
    [("function", name), ("args", toString values.length)]
  let stage : Stage kinds S := { m.stage with shadow := { m.stage.shadow with log } }
  have same : SameState m.stage.shadow stage.shadow := ⟨rfl, rfl⟩
  have noted : Follows exact seen _ _ _ { m with
      world := (m.world.addFrame (s.invocation name values)).2, stage, locals := {} } _ :=
    begun.note fit.watches same rfl
  have inner := good.function (s.callee m) _ _ _ function ⟨fit.tagged, fit.watches⟩ noted rfl defined
  unfold Sim
  rw [ends_bind, ends_set]
  dsimp only
  unfold noteCall
  rw [ends_bind, ends_modify]
  dsimp only
  rw [ends_withFreshLocals]
  refine Ends.mono inner ?_
  rintro r m' ⟨l', ledger, post⟩
  have ledger' : exact → (do
      set { l with world := (m.world.addFrame (s.invocation name values)).2 }
      Ledger.withActivation (s.setting a) (Ledger.eval n ((s.callee m).setting {
        traced := function.isTagged
        arguments := (a.called l values.length).arguments }) function) :
          LedgerM Value).run.run l =
      (r, { l' with
        locals := l.locals, localNodes := l.localNodes
        operands := (if a.traced then l'.operands else []) ++ l.operands }) := by
    intro hexact
    exact congrArg (fun ended : Except Interrupt Value × Ledger => (ended.1, { ended.2 with
      locals := l.locals, localNodes := l.localNodes
      operands := (if a.traced then ended.2.operands else []) ++ l.operands })) (ledger hexact)
  refine ⟨_, ledger', ?_⟩
  rcases r with (v | failure | _) | v
  · exact post
  · exact post
  · exact post
  · obtain ⟨stage', came, delivered⟩ := post.delivered h.called.made
    have back := h.back came.follows came.since same delivered post.graph post.seen
    exact ⟨came.since.back same delivered, back⟩

theorem sim_call (good : Good tracer exact seen n) (fit : Fit tracer seen s)
    (h : Follows exact seen s a [] m l) (name : String) {args : List Code}
    (shaped : ∀ c ∈ args, c.Shaped s.program.scope a.traced) :
    Sim exact seen (eval (n + 1) s (.call name args))
      (Ledger.eval (n + 1) (s.setting a) (.call name args)) m l
      (PieceDone exact seen s a (.call name args) m) (Returned exact seen s a m l True) := by
  unfold eval Ledger.eval
  dsimp only
  refine .bind (good.args s a m l args fit h shaped) fun values m' l' done => ?_
  rw [Surroundings.setting]
  dsimp only
  cases found : s.program.functions.get? name with
  | none =>
    refine .throw ?_ (fun _ => Interrupt.noConfusion) done.follows.seen
    rintro fault ⟨⟩
  | some function =>
    dsimp only
    refine .get_bind (.bind_get ?_)
    rw [done.follows.world]
    have enough : a.traced = true → values.length ≤ l'.operands.length := by
      intro traced
      obtain ⟨nodes, operands, inOrder⟩ := done.pushed traced
      have length := congrArg List.length inOrder
      simp only [List.length_map, List.length_reverse] at length
      rw [operands, List.length_append, length]
      exact Nat.le_add_right _ _
    refine .mono (sim_invoke good fit done.follows name enough
      (fit.tagged.functions name function found)) (fun v m'' l'' came => ?_) fun _ _ _ => False.elim
    exact ⟨done.toCame.later came, fun _ => trivial⟩

/-! ### All code -/

theorem sim_piece (good : Good tracer exact seen n) (fit : Fit tracer seen s)
    (h : Follows exact seen s a [] m l) {code : Code} (piece : code.Piece s.program.scope a.traced)
    (empty : l.operands = []) :
    Sim exact seen (eval (n + 1) s code) (Ledger.eval (n + 1) (s.setting a) code) m l
      (PieceDone exact seen s a code m) fun v m' l' => code.catches = false ∧
        Returned exact seen s a m l (categoryOf code ≠ .useStackDefReturn) v m' l' := by
  have opens : ∀ {code : Code} (v : Value) (m' : Machine S) (l' : Ledger),
      Returned exact seen s a m l True v m' l' → code.catches = false →
      code.catches = false ∧
        Returned exact seen s a m l (categoryOf code ≠ .useStackDefReturn) v m' l' :=
    fun _ _ _ returned opens => ⟨opens, returned.mono fun _ => trivial⟩
  cases piece with
  | int k => exact sim_literal h rfl rfl rfl empty
  | str text => exact sim_literal h rfl rfl rfl empty
  | nil => exact sim_literal h rfl rfl rfl empty
  | new className => exact sim_new h empty className
  | getLocal name => exact sim_getLocal h empty name
  | setLocal name shaped =>
    exact (sim_setLocal good fit h empty shaped name).mono (fun _ _ _ => id) (opens · · · · rfl)
  | arg index => exact sim_arg h empty index
  | add left right =>
    exact (sim_add good fit h left right).mono (fun _ _ _ => id) (opens · · · · rfl)
  | call name shaped =>
    exact (sim_call good fit h name shaped).mono (fun _ _ _ => id) (opens · · · · rfl)
  | getProperty name shaped =>
    exact (sim_getProperty good fit h shaped name).mono (fun _ _ _ => id) (opens · · · · rfl)
  | setProperty name value receiver =>
    exact (sim_setProperty good fit h value receiver name).mono (fun _ _ _ => id)
      (opens · · · · rfl)
  | getGlobal name => exact sim_getGlobal h empty name
  | setGlobal name shaped =>
    exact (sim_setGlobal good fit h empty shaped name).mono (fun _ _ _ => id) (opens · · · · rfl)
  | getClassVariable name => exact sim_getClassVariable h empty name
  | setClassVariable name shaped =>
    exact (sim_setClassVariable good fit h empty shaped name).mono (fun _ _ _ => id)
      (opens · · · · rfl)
  | ret shaped =>
    refine (sim_ret good fit h shaped).mono (fun _ _ _ => id) fun v m' l' returned => ?_
    exact ⟨rfl, returned.mono fun notReturn => notReturn rfl⟩
  | body shaped =>
    exact (sim_body good fit h shaped).mono (fun _ _ _ => id) fun _ _ _ => False.elim

/-- Every run follows its ledger, by induction on the steps allowed. -/
theorem good (tracer : Tracer) (exact : Prop) (seen : Stage kinds S → List (Node Value) → Prop)
    (n : Nat) : Good tracer exact seen n := by
  induction n with
  | zero => exact .zero
  | succ n ih =>
    constructor
    · intro s a m l code fit h shaped
      exact sim_shaped ih fit (fun code piece empty => sim_piece ih fit h piece empty) h shaped
    · intro s a m l code fit h piece empty
      exact sim_piece ih fit h piece empty
    · intro s a m l args fit h shaped
      exact sim_args ih fit h shaped
    · intro s a m l last statements fit h shaped
      exact sim_statements ih fit h shaped
    · intro s arguments m l code fit h fresh defined
      exact sim_function ih fit h fresh defined

end Lineage.Toy
