import Lineage.Proofs.Toy.Checkpoints

/-!
# A run next to its ledger

`Sim` relates the evaluator to the ledger: run from states that agree (`Follows`), both come to the
same outcome in states that agree again, and no checkpoint is refused. It is composed like the work it
is about. The listener may be any that does to the shadow state what the tracer does; what it sees
besides is carried along as `seen`.
-/

namespace Lineage.Toy

open Shadow

variable {S : Type}

/-- The listener does to the shadow state what the tracer does. Of its own state it is known that
    `seen` holds of it and of the nodes made so far, as long as every node in the store is one of
    those and every new one can be seen in the store, or among the origins of a node there, and as
    long as every number given away is that of a node made. -/
structure Watches (tracer : Tracer) (listener : Listener kinds S)
    (seen : Stage kinds S → List (Node Value) → Prop) : Prop where
  outcome : ∀ host checkpoint stage, ((listener.react host checkpoint).run.run stage).1 =
    ((tracer.react host checkpoint).run.run stage.shadow).1
  shadow : ∀ host checkpoint stage, ((listener.react host checkpoint).run.run stage).2.shadow =
    ((tracer.react host checkpoint).run.run stage.shadow).2
  sees : ∀ host checkpoint stage stage' made made',
    (listener.react host checkpoint).run.run stage = (.ok (), stage') → seen stage made →
    (∀ node ∈ stage'.shadow.store.nodes, node ∈ made') → (∀ node ∈ made, node ∈ made') →
    (∀ node ∈ made', node ∈ made ∨ ∃ root ∈ stage'.shadow.store.nodes,
      node = root ∨ node ∈ root.origins) →
    stage'.shadow.nextSeq + made.length = stage.shadow.nextSeq + made'.length → seen stage' made'
  logs : ∀ stage stage' made, stage'.own = stage.own →
    stage'.shadow.nextSeq = stage.shadow.nextSeq → seen stage made → seen stage' made

/-- The tracer itself sees nothing more. -/
theorem watches_ofTracer (tracer : Tracer) :
    Watches (S := S) tracer (.ofTracer tracer) fun _ _ => True where
  outcome _ _ _ := rfl
  shadow _ _ _ := rfl
  sees _ _ _ _ _ _ _ _ _ _ _ _ := trivial
  logs _ _ _ _ _ _ := trivial

namespace Surroundings

/-- Where a checkpoint is reported at which `values` are in use. -/
def place (s : Surroundings S) (m : Machine S) (values : List Value) : Place where
  world := m.world
  held := s.shares m values
  kept := m.stage.shadow.store.nodes
  frame := s.frame
  scope := s.program.scope

/-- The setting in which the ledger runs the same code. -/
def setting (s : Surroundings S) (a : Activation) : Setting where
  program := s.program
  frame := s.frame
  traced := a.traced
  arguments := a.arguments

/-- The invocation at hand has been made, after its caller. -/
def Called (s : Surroundings S) (w : World) : Prop :=
  ∃ frame, w.frame? s.frame = some frame ∧ ∀ caller, frame.caller = some caller →
    caller ≠ s.frame ∧ w.Made (.frame caller)

variable {s : Surroundings S} {m : Machine S} {values : List Value} {a : Activation}

theorem place_sound (called : s.Called m.world) (kept : List (Node Value)) :
    ((s.place m values).keeping kept).Sound where
  ownFrame := by simp [place, Place.keeping, shares]
  ownScope := by simp [place, Place.keeping, shares]
  frame := called

theorem holds_handle {w : World} {e : Entity}
    (mem : e ∈ s.owned ++ [.frame s.frame, .scope s.program.scope]) :
    w.Holds (s.shares m values) e := .direct (List.mem_append_left _ mem)

theorem holdsValue_of_mem {w : World} {v : Value}
    (mem : v ∈ values ++ s.held ++ m.locals.values ++ m.globals.values) :
    w.HoldsValue (s.shares m values) v := fun _ inside =>
  .direct (List.mem_append_right _ (List.mem_flatMap.mpr ⟨v, mem, inside⟩))

theorem mem_shares_of_used (s : Surroundings S) (m : Machine S) (v : Value) :
    ∀ e ∈ Entity.ofValue v, e ∈ s.shares m [v] := fun e mem =>
  List.mem_append_right _ (List.mem_flatMap.mpr ⟨v, by simp, mem⟩)

theorem holdsValue_used {w : World} {v : Value} (mem : v ∈ values) :
    w.HoldsValue (s.shares m values) v := holdsValue_of_mem (by simp [mem])

theorem holdsValue_local {w : World} {v : Value} (mem : v ∈ m.locals.values) :
    w.HoldsValue (s.shares m values) v := holdsValue_of_mem (by simp [mem])

theorem holdsValue_global {w : World} {v : Value} (mem : v ∈ m.globals.values) :
    w.HoldsValue (s.shares m values) v := holdsValue_of_mem (by simp [mem])

/-- All that is at hand is held, if the handles and the values in use are. -/
theorem shares_cases {w : World} {held : List Entity}
    (handles : ∀ e ∈ s.owned ++ [.frame s.frame, .scope s.program.scope], w.Holds held e)
    (inUse : ∀ v ∈ values ++ s.held ++ m.locals.values ++ m.globals.values, w.HoldsValue held v) :
    ∀ e ∈ s.shares m values, w.Holds held e := by
  intro e mem
  rcases List.mem_append.mp mem with mem | mem
  · exact handles e mem
  · obtain ⟨v, used, inside⟩ := List.mem_flatMap.mp mem
    exact inUse v used e inside

/-- Later on in the same invocation. -/
theorem shares_later {w : World} {m' : Machine S} {values' : List Value}
    (used : ∀ v ∈ values', w.HoldsValue (s.shares m values) v)
    (locals : ∀ v ∈ m'.locals.values, w.HoldsValue (s.shares m values) v)
    (globals : ∀ v ∈ m'.globals.values, w.HoldsValue (s.shares m values) v) :
    ∀ e ∈ s.shares m' values', w.Holds (s.shares m values) e := by
  refine shares_cases (fun e mem => holds_handle mem) fun v mem => ?_
  simp only [List.append_assoc, List.mem_append] at mem
  rcases mem with mem | mem | mem | mem
  · exact used v mem
  · exact holdsValue_of_mem (by simp [mem])
  · exact locals v mem
  · exact globals v mem

theorem shares_hold (s : Surroundings S) (m : Machine S) (values more : List Value) :
    (s.hold more).shares m values = s.shares m (values ++ more) := by
  simp [shares, hold]

theorem Called.made {w : World} (called : s.Called w) : w.Made (.frame s.frame) :=
  World.made_frame.mpr (called.imp fun _ => And.left)

theorem Called.grow {w later : World} (called : s.Called w) (grows : w.Grows later) :
    s.Called later := by
  obtain ⟨frame, found, callers⟩ := called
  exact ⟨frame, grows _ _ found, fun caller h =>
    ⟨(callers caller h).1, grows.made (callers caller h).2⟩⟩

end Surroundings

/-- The run and the ledger agree while `values` are in use. -/
structure Follows (exact : Prop) (seen : Stage kinds S → List (Node Value) → Prop)
    (s : Surroundings S) (a : Activation) (values : List Value) (m : Machine S) (l : Ledger) :
    Prop where
  world : l.world = m.world
  globals : l.globals = m.globals
  locals : l.locals = m.locals
  called : s.Called m.world
  mirrors : Mirrors exact (s.place m values) a m.stage.shadow l
  graph : exact → m.stage.shadow.WellFormed
  seen : exact → seen m.stage l.made

/-- Between two moments of an invocation no frame has gone, and no record of another frame has, as
    long as that is owned from outside or has called this one. -/
structure Since (s : Surroundings S) (m m' : Machine S) : Prop where
  grows : m.world.Grows m'.world
  spared : ∀ f, m.world.Made (.frame f) → f ≠ s.frame →
    Table.Spares (¬ m.world.Holds (s.owned ++ [.frame s.frame]) (.frame f))
      m.stage.shadow.store.frames m'.stage.shadow.store.frames f

namespace Since

variable {s : Surroundings S} {m m' m'' : Machine S} {values : List Value}

theorem refl (s : Surroundings S) (m : Machine S) : Since s m m :=
  ⟨.refl _, fun _ _ _ => .refl _ _ _⟩

theorem trans (first : Since s m m') (second : Since s m' m'') : Since s m m'' where
  grows := first.grows.trans second.grows
  spared f made ne := (first.spared f made ne).trans
    ((second.spared f (first.grows.made made) ne).mono fun gone held =>
      gone (World.Holds.grow first.grows held))

theorem of_grows (grows : m.world.Grows m'.world) (stage : m'.stage = m.stage) : Since s m m' where
  grows := grows
  spared _ _ _ := .inl (by rw [stage])

/-- A checkpoint spares the records of the frames that are held. -/
theorem of_spared (spared : (s.place m values).Spared m.stage.shadow m'.stage.shadow)
    (world : m'.world = m.world) : Since s m m' where
  grows := by rw [world]; exact .refl _
  spared f made ne := (spared f made ne).mono fun gone held => gone <| held.of_subset <| by
    intro e mem
    simp only [Surroundings.place, Surroundings.shares, List.mem_append, List.mem_cons] at mem ⊢
    rcases mem with mem | mem | mem
    · exact .inl (.inl mem)
    · exact .inl (.inr (.inl mem))
    · cases mem

end Since

namespace Place.Moves

variable {p q : Place}

/-- What is owned was alive before if what is held was. -/
theorem alive_of_owns (kept : q.kept = p.kept) (held : ∀ e ∈ q.held, p.world.Holds p.held e)
    {e : Entity} (owns : q.Owns e) : p.world.Alive p.Owns e := by
  rcases owns with mem | keptBy
  · exact (held e mem).alive fun _ => .inl
  · exact .direct (.inr (kept ▸ keptBy))

/-- Only what is at hand has changed. -/
theorem of_held (frame : q.frame = p.frame) (scope : q.scope = p.scope) (world : q.world = p.world)
    (kept : q.kept = p.kept) (held : ∀ e ∈ q.held, p.world.Holds p.held e) : p.Moves q where
  frame := frame
  scope := scope
  grows := by rw [world]; exact .refl _
  scopes made := by rwa [world]
  objects _ made := by rwa [world]
  lives o h := by
    unfold Place.Lives at h
    rw [world] at h
    exact .inl (h.mono fun e => alive_of_owns kept held)

/-- A value that is held has been put into a slot. -/
theorem of_sharesOf {value : Value} (frame : q.frame = p.frame) (scope : q.scope = p.scope)
    (kept : q.kept = p.kept) (grows : p.world.Grows q.world)
    (same : ∀ e, p.world.Made e ↔ q.world.Made e)
    (shares : ∀ e other, other ∈ q.world.sharesOf e →
      other ∈ p.world.sharesOf e ∨ other ∈ Entity.ofValue value)
    (holds : p.world.HoldsValue p.held value) (held : ∀ e ∈ q.held, p.world.Holds p.held e) :
    p.Moves q where
  frame := frame
  scope := scope
  grows := grows
  scopes := (same _).mp
  objects _ := (same _).mp
  lives o h := by
    refine .inl (h.of_sharesOf (fun e other mem => ?_) fun e => alive_of_owns kept held)
    exact (shares e other mem).imp_right fun mem => (holds other mem).alive fun _ => .inl

end Place.Moves

namespace Follows

variable {exact : Prop} {seen : Stage kinds S → List (Node Value) → Prop} {s : Surroundings S}
  {a : Activation} {values values' : List Value} {m : Machine S} {l : Ledger} {tracer : Tracer}

/-- The run goes on without a checkpoint. -/
theorem move (h : Follows exact seen s a values m l) {world world' : World}
    {globals globals' locals locals' : Dict String Value} (sameWorld : world' = world)
    (sameGlobals : globals' = globals) (sameLocals : locals' = locals)
    (moves : (s.place m values).Moves (s.place { m with world, globals, locals } values')) :
    Follows exact seen s a values' { m with world, globals, locals }
      { l with world := world', globals := globals', locals := locals' } := by
  subst sameWorld sameGlobals sameLocals
  constructor
  · rfl
  · rfl
  · rfl
  · exact h.called.grow moves.grows
  · exact h.mirrors.move (Surroundings.place_sound h.called _) moves _ _ _
  · exact h.graph
  · exact h.seen

/-- What is logged makes no difference. -/
theorem note (h : Follows exact seen s a values m l) (watches : Watches tracer s.listener seen)
    {stage : Stage kinds S} (same : SameState m.stage.shadow stage.shadow)
    (own : stage.own = m.stage.own) : Follows exact seen s a values { m with stage } l where
  world := h.world
  globals := h.globals
  locals := h.locals
  called := h.called
  mirrors := by
    have place : s.place { m with stage } values = s.place m values := by
      unfold Surroundings.place
      dsimp only
      rw [same.nodes]
      rfl
    rw [place]
    exact h.mirrors.same same
  graph hexact := (h.graph hexact).of_same same
  seen hexact := watches.logs _ _ _ own same.2 (h.seen hexact)

/-- Other values are in use, all of which were held. -/
theorem holding (h : Follows exact seen s a values m l)
    (held : ∀ v ∈ values', m.world.HoldsValue (s.shares m values) v) :
    Follows exact seen s a values' m l :=
  h.move h.world h.globals h.locals <| .of_held rfl rfl rfl rfl <| Surroundings.shares_later held
    (fun _ mem => Surroundings.holdsValue_local mem)
    fun _ mem => Surroundings.holdsValue_global mem

theorem forget (h : Follows exact seen s a values m l) (sub : values' ⊆ values) :
    Follows exact seen s a values' m l :=
  h.holding fun _ mem => Surroundings.holdsValue_used (sub mem)

/-- What is held along with the code is in use, and the other way round. -/
theorem hold_iff {more : List Value} :
    Follows exact seen (s.hold more) a values m l ↔
      Follows exact seen s a (values ++ more) m l := by
  have place : (s.hold more).place m values = s.place m (values ++ more) := by
    unfold Surroundings.place
    rw [Surroundings.shares_hold]
    rfl
  constructor
  · rintro ⟨world, globals, locals, called, mirrors, graph, seen⟩
    exact ⟨world, globals, locals, called, place ▸ mirrors, graph, seen⟩
  · rintro ⟨world, globals, locals, called, mirrors, graph, seen⟩
    exact ⟨world, globals, locals, called, place ▸ mirrors, graph, seen⟩

variable {v : Value}

theorem setLocal (h : Follows exact seen s a [v] m l) (name : String) :
    Follows exact seen s a [v] { m with locals := m.locals.set name v }
      { l with locals := l.locals.set name v } := by
  refine h.move h.world h.globals (by rw [h.locals]) <| .of_held rfl rfl rfl rfl <|
    Surroundings.shares_later (fun _ mem => Surroundings.holdsValue_used mem) (fun w mem => ?_)
      fun _ mem => Surroundings.holdsValue_global mem
  rcases Dict.mem_values_set mem with rfl | old
  · exact Surroundings.holdsValue_used (List.mem_singleton.mpr rfl)
  · exact Surroundings.holdsValue_local old

theorem setGlobal (h : Follows exact seen s a [v] m l) (name : String) :
    Follows exact seen s a [v] { m with globals := m.globals.set name v }
      { l with globals := l.globals.set name v } := by
  refine h.move h.world (by rw [h.globals]) h.locals <| .of_held rfl rfl rfl rfl <|
    Surroundings.shares_later (fun _ mem => Surroundings.holdsValue_used mem)
      (fun _ mem => Surroundings.holdsValue_local mem) fun w mem => ?_
  rcases Dict.mem_values_set mem with rfl | old
  · exact Surroundings.holdsValue_used (List.mem_singleton.mpr rfl)
  · exact Surroundings.holdsValue_global old

/-- A value in use goes into a slot of the world. -/
theorem write (h : Follows exact seen s a values m l) (used : v ∈ values) {world world' : World}
    (sameWorld : world' = world) (grows : m.world.Grows world)
    (same : ∀ e, m.world.Made e ↔ world.Made e)
    (shares : ∀ e other, other ∈ world.sharesOf e →
      other ∈ m.world.sharesOf e ∨ other ∈ Entity.ofValue v) :
    Follows exact seen s a values { m with world } { l with world := world' } :=
  h.move sameWorld h.globals h.locals <| .of_sharesOf rfl rfl rfl grows same shares
    (Surroundings.holdsValue_used used) <| Surroundings.shares_later
      (fun _ mem => Surroundings.holdsValue_used mem)
      (fun _ mem => Surroundings.holdsValue_local mem)
      fun _ mem => Surroundings.holdsValue_global mem

theorem setProperty (h : Follows exact seen s a values m l) (used : v ∈ values) (id : ObjectId)
    (name : String) :
    Follows exact seen s a values { m with world := m.world.setProperty id name v }
      { l with world := l.world.setProperty id name v } :=
  h.write used (by rw [h.world]) (fun _ _ found => found)
    (fun e => by cases e <;> simp [World.Made, World.setProperty])
    fun _ _ mem => World.sharesOf_setProperty mem

theorem setClassVariable (h : Follows exact seen s a values m l) (used : v ∈ values) (id : ScopeId)
    (name : String) :
    Follows exact seen s a values { m with world := m.world.setClassVariable id name v }
      { l with world := l.world.setClassVariable id name v } :=
  h.write used (by rw [h.world]) (fun _ _ found => found)
    (fun e => by cases e <;> simp [World.Made, World.setClassVariable])
    fun _ _ mem => World.sharesOf_setClassVariable mem

theorem newObject (h : Follows exact seen s a [] m l) (className : String) :
    Follows exact seen s a [.object m.world.addObject.1 className]
      { m with world := m.world.addObject.2 } { l with world := l.world.addObject.2 } := by
  let created := m.world.addObject.1
  let p := s.place m []
  have grown : ∀ o, m.world.Made (.object o) → m.world.addObject.2.Made (.object o) := fun o made =>
    Nat.lt_of_lt_of_le made (by simp [World.addObject])
  refine h.move (by rw [h.world]) h.globals h.locals
    ⟨rfl, rfl, fun _ _ found => found, id, grown, fun o lives => ?_⟩
  have unmade : ¬ m.world.Made (.object created) := Nat.lt_irrefl _
  let Owns (e : Entity) : Prop := e = .object created ∨ p.Owns e
  have handle : ∀ e ∈ s.shares m [], m.world.Alive Owns e := fun e mem => .direct (.inr (.inl mem))
  have before : m.world.Alive Owns (.object o) := by
    refine World.Alive.of_sharesOf (fun _ _ mem => .inl (World.sharesOf_addObject mem)) ?_ lives
    rintro e (mem | kept)
    · rcases List.mem_append.mp mem with mem | mem
      · exact handle e (List.mem_append_left _ mem)
      · obtain ⟨v, used, inside⟩ := List.mem_flatMap.mp mem
        simp only [List.append_assoc, List.mem_append, List.mem_singleton] at used
        rcases used with rfl | old
        · exact .direct (.inl (List.mem_singleton.mp inside))
        · refine handle e (List.mem_append_right _ (List.mem_flatMap.mpr ⟨v, ?_, inside⟩))
          simpa using old
    · exact .direct (.inr (.inr kept))
  rcases World.Alive.of_unmade unmade before with new | old
  · cases new
    have made : m.world.addObject.2.Made (.object created) := by
      simp [World.Made, World.addObject, created]
    exact .inr ⟨made, unmade⟩
  · exact .inl old

end Follows

/-! ### Work of the evaluator and of the ledger -/

/-- Both come to the same outcome, in states that satisfy `ok` or `ret`. A failure is not the refusal
    of a checkpoint. -/
def Sim {α : Type} (exact : Prop) (seen : Stage kinds S → List (Node Value) → Prop)
    (work : EvalM S α) (ledger : LedgerM α) (m : Machine S) (l : Ledger)
    (ok : α → Machine S → Ledger → Prop) (ret : Value → Machine S → Ledger → Prop) : Prop :=
  Ends work m fun r m' => ∃ l', (exact → ledger.run.run l = (r, l')) ∧
    match r with
    | .ok a => ok a m' l'
    | .error (.returning v) => ret v m' l'
    | .error (.failing failure) =>
        (∀ fault, failure ≠ .refused fault) ∧ (exact → seen m'.stage l'.made)
    | .error .outOfFuel => exact → seen m'.stage l'.made

namespace Sim

variable {α β : Type} {exact : Prop} {seen : Stage kinds S → List (Node Value) → Prop}
  {work : EvalM S α} {ledger : LedgerM α} {m : Machine S} {l : Ledger}
  {P Q : α → Machine S → Ledger → Prop} {ret ret' : Value → Machine S → Ledger → Prop}

theorem mono (h : Sim exact seen work ledger m l P ret)
    (hok : ∀ a m' l', P a m' l' → Q a m' l') (hret : ∀ v m' l', ret v m' l' → ret' v m' l') :
    Sim exact seen work ledger m l Q ret' := by
  refine Ends.mono h ?_
  rintro r m' ⟨l', run, post⟩
  refine ⟨l', run, ?_⟩
  rcases r with (v | failure | _) | a
  · exact hret v m' l' post
  · exact post
  · exact post
  · exact hok a m' l' post

theorem pure {a : α} (h : P a m l) : Sim exact seen (Pure.pure a) (Pure.pure a) m l P ret :=
  ⟨l, fun _ => rfl, h⟩

theorem bind {next : α → EvalM S β} {then' : α → LedgerM β}
    {okb : β → Machine S → Ledger → Prop} (h : Sim exact seen work ledger m l P ret)
    (hnext : ∀ a m' l', P a m' l' → Sim exact seen (next a) (then' a) m' l' okb ret) :
    Sim exact seen (work >>= next) (ledger >>= then') m l okb ret := by
  unfold Sim at h ⊢
  rw [ends_bind]
  refine Ends.mono h ?_
  rintro r m' ⟨l', run, post⟩
  have failed : ∀ e : Interrupt, (exact → ledger.run.run l = (.error e, l')) →
      exact → (ledger >>= then').run.run l = (.error e, l') := by
    intro e run hexact
    rw [run_bind, run hexact]
  rcases r with (v | failure | _) | a
  · exact ⟨l', failed _ run, post⟩
  · exact ⟨l', failed _ run, post⟩
  · exact ⟨l', failed _ run, post⟩
  · refine Ends.mono (hnext a m' l' post) ?_
    rintro r m'' ⟨l'', later, final⟩
    refine ⟨l'', fun hexact => ?_, final⟩
    rw [run_bind, run hexact]
    exact later hexact

/-- Work whose run is known on both sides. -/
theorem of_run {a : α} {m' : Machine S} {l' : Ledger} (run : work.run.run m = (.ok a, m'))
    (ledgerRun : exact → ledger.run.run l = (.ok a, l')) (h : P a m' l') :
    Sim exact seen work ledger m l P ret := by
  unfold Sim Ends
  rw [run]
  exact ⟨l', ledgerRun, h⟩

/-- A `return` is handled on both sides, anything else goes through. -/
theorem catching {handle : Interrupt → EvalM S α} {handle' : Interrupt → LedgerM α}
    (h : Sim exact seen work ledger m l P ret)
    (hret : ∀ v m' l', ret v m' l' →
      Sim exact seen (handle (.returning v)) (handle' (.returning v)) m' l' P ret')
    (others : ∀ e, (∀ v, e ≠ .returning v) → handle e = throw e)
    (others' : ∀ e, (∀ v, e ≠ .returning v) → handle' e = throw e) :
    Sim exact seen (tryCatch work handle) (tryCatch ledger handle') m l P ret' := by
  unfold Sim at h ⊢
  rw [ends_tryCatch]
  refine Ends.mono h ?_
  rintro r m' ⟨l', run, post⟩
  have through : ∀ e : Interrupt, (∀ v, e ≠ .returning v) →
      (exact → ledger.run.run l = (.error e, l')) →
      exact → (tryCatch ledger handle').run.run l = (.error e, l') := by
    intro e ne run hexact
    rw [run_tryCatch, run hexact]
    dsimp only
    rw [others' e ne]
    rfl
  rcases r with (v | failure | _) | a
  · refine Ends.mono (hret v m' l' post) ?_
    rintro r m'' ⟨l'', later, final⟩
    refine ⟨l'', fun hexact => ?_, final⟩
    rw [run_tryCatch, run hexact]
    exact later hexact
  · dsimp only
    rw [others (.failing failure) fun _ => Interrupt.noConfusion]
    exact ⟨l', through _ (fun _ => Interrupt.noConfusion) run, post⟩
  · dsimp only
    rw [others .outOfFuel fun _ => Interrupt.noConfusion]
    exact ⟨l', through _ (fun _ => Interrupt.noConfusion) run, post⟩
  · refine ⟨l', fun hexact => ?_, post⟩
    rw [run_tryCatch, run hexact]

/-- Reading the state comes to nothing, on either side. -/
theorem get_bind {next : Machine S → EvalM S α}
    (h : Sim exact seen (next m) ledger m l P ret) :
    Sim exact seen (get >>= next) ledger m l P ret := by
  unfold Sim
  rw [ends_bind, ends_get]
  exact h

theorem bind_get {then' : Ledger → LedgerM α} (h : Sim exact seen work (then' l) m l P ret) :
    Sim exact seen work (get >>= then') m l P ret := by
  refine Ends.mono h ?_
  rintro r m' ⟨l', run, post⟩
  refine ⟨l', fun hexact => ?_, post⟩
  rw [run_bind, run_get]
  exact run hexact

theorem throw {e : Interrupt} (failing : ∀ fault, e ≠ .failing (.refused fault))
    (hret : ∀ v, e = .returning v → ret v m l) (hseen : exact → seen m.stage l.made) :
    Sim exact seen (MonadExcept.throw e) (MonadExcept.throw e) m l P ret := by
  refine ⟨l, fun _ => rfl, ?_⟩
  rcases e with v | failure | _
  · exact hret v rfl
  · exact ⟨fun fault refused => failing fault (by rw [refused]), hseen⟩
  · exact hseen

end Sim

/-! ### Checkpoints of a run -/

section Reports

variable {exact : Prop} {seen : Stage kinds S → List (Node Value) → Prop} {s : Surroundings S}
  {a : Activation} {values : List Value} {m : Machine S} {l : Ledger} {tracer : Tracer}

/-- A checkpoint changes the stage as the listener does. -/
theorem run_report_of {site : Site kinds} {moment : Moment Value} {r : Except Fault Unit}
    {stage : Stage kinds S} (reaction : (s.listener.react (s.place m values).host
      ⟨site, s.frame, moment⟩).run.run m.stage = (r, stage)) :
    (s.report site moment values).run.run m =
      (r.mapError (Interrupt.failing ∘ Failure.refused), { m with stage }) := by
  let ended := (s.listener.react (s.place m values).host ⟨site, s.frame, moment⟩).run.run m.stage
  change (ended.1.mapError (Interrupt.failing ∘ Failure.refused), { m with stage := ended.2 }) = _
  rw [show ended = (r, stage) from reaction]

/-- A checkpoint that the tracer does not refuse is not refused. -/
theorem run_report (moment : Moment Value) (values : List Value)
    (watches : Watches tracer s.listener seen) {site : Site kinds} {P : Shadow kinds → Prop}
    (reacts : Ends (tracer.react (s.place m values).host ⟨site, s.frame, moment⟩) m.stage.shadow
      fun r u => r = .ok () ∧ P u) :
    ∃ stage, (s.report site moment values).run.run m = (.ok (), { m with stage }) ∧
      P stage.shadow ∧
      (s.listener.react (s.place m values).host ⟨site, s.frame, moment⟩).run.run m.stage =
        (.ok (), stage) := by
  obtain ⟨accepted, done⟩ := reacts
  have outcome := watches.outcome (s.place m values).host ⟨site, s.frame, moment⟩ m.stage
  have shadow := watches.shadow (s.place m values).host ⟨site, s.frame, moment⟩ m.stage
  rw [accepted] at outcome
  rw [← shadow] at done
  have reaction : (s.listener.react (s.place m values).host ⟨site, s.frame, moment⟩).run.run
      m.stage = (.ok (), _) := Prod.ext outcome rfl
  exact ⟨_, run_report_of reaction, done, reaction⟩

/-- At a checkpoint nothing comes to life. What is known of the place afterwards may so be shown of it
    where those nodes are kept that are in the store then. -/
theorem Follows.checkpoint (h : Follows exact seen s a values m l)
    (watches : Watches tracer s.listener seen) (site : Site kinds) (moment : Moment Value)
    (post : Place → Shadow kinds → Prop) (told : ∀ v, moment = .leave v → v ∈ values)
    (reacts : ∀ kept, Mirrors exact ((s.place m values).keeping kept) a m.stage.shadow l →
      (exact → Ends (tracer.react ((s.place m values).keeping kept).host
        ⟨site, ((s.place m values).keeping kept).frame, moment⟩) m.stage.shadow
        fun _ u => u.store.nodes = kept) →
      Ends (tracer.react ((s.place m values).keeping kept).host
        ⟨site, ((s.place m values).keeping kept).frame, moment⟩) m.stage.shadow
        fun r u => r = .ok () ∧ post ((s.place m values).keeping kept) u) :
    ∃ stage, (s.report site moment values).run.run m = (.ok (), { m with stage }) ∧
      post (s.place { m with stage } values) stage.shadow ∧
      (s.listener.react (s.place m values).host ⟨site, s.frame, moment⟩).run.run m.stage =
        (.ok (), stage) ∧
      (exact → stage.shadow.WellFormed) := by
  let p := s.place m values
  let allowed (v? : Option Value) : Prop := ∀ v, v? = some v → ∀ e ∈ Entity.ofValue v, p.Owns e
  have formed : exact → Ends (tracer.react p.host ⟨site, s.frame, moment⟩) m.stage.shadow
      fun _ u => u.WellFormed ∧ ∀ a, Node.Reached u.store.nodes a → allowed a.value := by
    intro hexact
    refine Tracer.react_wellFormed h.mirrors.sane (h.graph hexact) ?_ nofun ?_
    · exact fun node reached v value e inside => .inr ⟨node, v, reached, value, inside⟩
    · rintro v leaves w ⟨⟩ e inside
      exact .inl (List.mem_append_right _ (List.mem_flatMap.mpr ⟨v, by simp [told v leaves], inside⟩))
  have lives : ∀ kept, (exact → Ends (tracer.react p.host ⟨site, s.frame, moment⟩) m.stage.shadow
      fun _ u => u.store.nodes = kept) → exact → ∀ o, (p.keeping kept).Lives o → p.Lives o := by
    intro kept left hexact o alive
    obtain ⟨⟨-, allows⟩, same⟩ := (formed hexact).both (left hexact)
    rw [same] at allows
    refine alive.mono ?_
    rintro e (mem | ⟨node, v, reached, value, inside⟩)
    · exact .direct (.inl mem)
    · exact .direct (allows node reached v value e inside)
  obtain ⟨stage, run, done, reaction⟩ := run_report moment values watches
    (P := fun u => post (p.keeping u.store.nodes) u ∧ (exact → u.WellFormed)) <| by
      have left : exact → Ends (tracer.react p.host ⟨site, s.frame, moment⟩) m.stage.shadow
        fun _ u => u.store.nodes = _ := fun _ => rfl
      obtain ⟨accepted, done⟩ := reacts _ (h.mirrors.keeping (lives _ left)) left
      exact ⟨accepted, done, fun hexact => (formed hexact).1⟩
  exact ⟨stage, run, done.1, reaction, done.2⟩

/-- The run and the ledger agree after a checkpoint at which their changes agree. -/
theorem Follows.report (h : Follows exact seen s a values m l)
    (watches : Watches tracer s.listener seen) {site : Site kinds} {moment : Moment Value}
    {stage : Stage kinds S} {a' : Activation} {l' : Ledger}
    (reaction : (s.listener.react (s.place m values).host ⟨site, s.frame, moment⟩).run.run m.stage =
      (.ok (), stage)) (mirrors : Mirrors exact (s.place { m with stage } values) a' stage.shadow l')
    (graph : exact → stage.shadow.WellFormed) (same : l.SameRun l')
    (kept : ∀ n ∈ l.made, n ∈ l'.made)
    (only : ∀ n ∈ l'.made, n ∈ l.made ∨ ∃ root ∈ stage.shadow.store.nodes, n = root ∨ n ∈ root.origins)
    (count : l'.next + l.made.length = l.next + l'.made.length) :
    Follows exact seen s a' values { m with stage } l' where
  world := same.world.trans h.world
  globals := same.globals.trans h.globals
  locals := same.locals.trans h.locals
  called := h.called
  mirrors := mirrors
  graph := graph
  seen hexact := by
    have counted := count
    rw [mirrors.next, h.mirrors.next] at counted
    exact watches.sees _ _ _ _ _ _ reaction (h.seen hexact) (mirrors.stored hexact).nodes kept only
      counted

variable {code : Code} (id : SiteId) (label : String) {ret : Value → Machine S → Ledger → Prop}

/-- A piece of tagged code is entered. -/
theorem Sim.enter (h : Follows exact seen s a [] m l) (watches : Watches tracer s.listener seen)
    (traced : a.traced = true) (piece : code.Piece s.program.scope true) :
    Sim exact seen (s.report (siteOf s.program.scope id label code) .enter [])
      (modify ({ · with operands := [] })) m l
      (fun _ m' l' => Since s m m' ∧ l'.operands = [] ∧
        Follows exact seen s (a.inside id code l.operands) [] m' l') ret := by
  obtain ⟨stage, run, ⟨spared, mirrors⟩, reaction, graph⟩ := h.checkpoint watches
    (siteOf s.program.scope id label code) .enter (fun p u => p.Spared m.stage.shadow u ∧
      Mirrors exact p (a.inside id code l.operands) u { l with operands := [] }) nofun
    fun kept mirrors _ =>
      (enter_piece id label mirrors (Surroundings.place_sound h.called kept) traced piece :)
  refine .of_run run (fun _ => rfl) ⟨.of_spared spared rfl, rfl, ?_⟩
  exact h.report watches reaction mirrors graph ⟨rfl, rfl, rfl⟩ (fun _ mem => mem)
    (fun _ mem => .inl mem) rfl

/-- A piece of tagged code has come to a value. -/
theorem Sim.leave {outer : List (Node Value)} {v : Value}
    (h : Follows exact seen s (a.inside id code outer) [v] m l)
    (watches : Watches tracer s.listener seen) (traced : a.traced = true)
    (piece : code.Piece s.program.scope true)
    (ready : Ready exact (s.place m [v]) m.stage.shadow l code) :
    Sim exact seen (s.report (siteOf s.program.scope id label code) (.leave v) [v])
      (Ledger.conclude (s.setting a) (siteOf s.program.scope id label code) code v outer) m l
      (fun _ m' l' => Since s m m' ∧ Follows exact seen s a [v] m' l' ∧
        ∃ node, l'.operands = node :: outer ∧ node.value = some v ∧
          node.creator = Tracer.creatorOf (siteOf s.program.scope id label code))
      ret := by
  obtain ⟨stage, run, ⟨l', ledger, spared, mirrors, same, node, operands, value, creator, made⟩,
    reaction, graph⟩ := h.checkpoint watches (siteOf s.program.scope id label code) (.leave v)
      (fun p u => Concluded exact p a m.stage.shadow l (s.setting a)
        (siteOf s.program.scope id label code) code v outer u) (by simp) fun kept mirrors left =>
        (leave_piece (s := s.setting a) id label mirrors (Surroundings.place_sound h.called kept)
          traced rfl piece
          (fun hexact => ⟨h.graph hexact, s.mem_shares_of_used m v, left hexact⟩) ready :)
  refine .of_run run ledger ⟨.of_spared spared rfl, ?_, node, operands, value, creator⟩
  have there : node ∈ stage.shadow.store.nodes := mirrors.mem_nodes_of_operands traced <| by
    rw [operands]
    exact List.mem_cons_self
  exact h.report watches reaction mirrors graph same made.kept
    (fun n mem => (made.only n mem).imp_right fun new => ⟨node, there, new⟩) made.count

/-- A `return` passes through a piece of tagged code. -/
theorem Sim.unwind {outer : List (Node Value)} {v : Value} {exception : String}
    (h : Follows exact seen s (a.inside id code outer) [v] m l)
    (watches : Watches tracer s.listener seen) (traced : a.traced = true)
    (piece : code.Piece s.program.scope true) {node : Node Value} {left : List (Node Value)}
    (some' : l.operands = node :: left) (returned : node.value = some v)
    (result : categoryOf code ≠ .useStackDefReturn →
      (m.stage.shadow.recordOf s.frame).result = some node) :
    Sim exact seen (s.report (siteOf s.program.scope id label code) (.unwind exception) [v])
      (Ledger.abandon (siteOf s.program.scope id label code) code outer) m l
      (fun _ m' l' => Since s m m' ∧ Follows exact seen s a [v] m' l' ∧
        ∃ node left, l'.operands = node :: left ++ outer ∧ node.value = some v ∧
          (m'.stage.shadow.recordOf s.frame).result = some node)
      ret := by
  obtain ⟨stage, run, ⟨l', ledger, spared, mirrors, same, late, below, operands, value, made, noted⟩,
    reaction, graph⟩ := h.checkpoint watches (siteOf s.program.scope id label code)
      (.unwind exception) (fun p u => Abandoned exact p a m.stage.shadow l
        (siteOf s.program.scope id label code) code v outer u) nofun fun kept mirrors _ =>
        (unwind_piece id label exception mirrors (Surroundings.place_sound h.called kept) traced
          piece some' returned result :)
  refine .of_run run ledger ⟨.of_spared spared rfl, ?_, late, below, operands, value, noted⟩
  have there : late ∈ stage.shadow.store.nodes := mirrors.mem_nodes_of_operands traced <| by
    rw [operands]
    exact List.mem_cons_self
  exact h.report watches reaction mirrors graph same made.kept
    (fun n mem => (made.only n mem).imp_right fun new => ⟨late, there, new⟩) made.count

end Reports

end Lineage.Toy
