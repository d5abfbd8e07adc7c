import Lineage.Proofs.Toy.Arguments
import Lineage.Proofs.Toy.Balance
import Lineage.Proofs.Toy.Transparency

/-!
# The shadow stores simulate the stores of a run

Right after every checkpoint of the first run of a traced program, and where the run ends, each local
of each invocation under way, each global, each class variable and each property of an object that
has an owner has the value of its latest node, and no more than an unknown node if it has no value.
The ledger knows this of its own slots, and what the run agrees on with the ledger carries it over.
-/

namespace Lineage.Toy

open Shadow

variable {S : Type}

/-! ### Slots and histories -/

/-- The slot holds a value just where the shadow slot holds a node of that value; if it is not set, the
    shadow slot is empty or unknown. -/
structure SlotSimulated (value? : Option Value) (node? : Option (Node Value)) : Prop where
  holds : ∀ v, value? = some v ↔ ∃ node, node? = some node ∧ node.value = some v
  unset : value? = none → node? = none ∨ ∃ seq, node? = some (.unknown seq)

/-- The latest node of a local that is bound has its value; the history of one that is not bound is
    empty or has one unknown node. -/
structure HistorySimulated (value? : Option Value) (history : List (Node Value)) : Prop where
  bound : ∀ v, value? = some v → ∃ node, history.getLast? = some node ∧ node.value = some v
  unbound : value? = none → history = [] ∨ ∃ seq, history = [.unknown seq]

theorem Agrees.slot {value? : Option Value} {node? : Option (Node Value)}
    (h : Agrees value? node?) : SlotSimulated value? node? := by
  cases value? with
  | some w =>
    obtain ⟨node, rfl, value⟩ := h
    refine ⟨fun v => ⟨?_, ?_⟩, fun unset => absurd unset (Option.some_ne_none w)⟩
    · rintro ⟨⟩
      exact ⟨node, rfl, value⟩
    · rintro ⟨_, ⟨⟩, value'⟩
      exact value.symm.trans value'
  | none =>
    refine ⟨fun v => ⟨fun bound => absurd bound.symm (Option.some_ne_none v), ?_⟩, fun _ => ?_⟩
    · rintro ⟨node, there, value⟩
      rw [h node there] at value
      cases value
    · cases node? with
      | none => exact .inl rfl
      | some node => exact .inr ⟨node.seq, congrArg Option.some (h node rfl)⟩

/-- Where no node after the first is unknown, the latest one tells all of an unbound local. -/
theorem Agrees.history {value? : Option Value} {history : List (Node Value)}
    (h : Agrees value? history.getLast?) (tidy : ∀ node ∈ history.tail, node.isUnknown = false) :
    HistorySimulated value? history := by
  constructor
  · rintro v rfl
    exact h
  · rintro rfl
    cases history with
    | nil => exact .inl rfl
    | cons first later =>
      cases later with
      | nil => exact .inr ⟨first.seq, congrArg ([·]) (h first rfl)⟩
      | cons second rest =>
        have last := List.getLast?_eq_some_getLast (List.cons_ne_nil second rest)
        have known := tidy _ (List.getLast_mem (List.cons_ne_nil second rest))
        rw [List.getLast?_cons_cons] at h
        rw [h _ last] at known
        cases known

/-- The record of the invocation simulates its locals. -/
def Recalled (t : Shadow kinds) (x : FrameId × Dict String Value) : Prop :=
  ∃ r, t.record? x.1 = some r ∧ ∀ name, HistorySimulated (x.2.get? name) (r.history name)

theorem Recalled.of_histories {t u : Shadow kinds} {x : FrameId × Dict String Value}
    (h : Recalled t x) (kept : ∀ r, t.record? x.1 = some r →
      ∃ r', u.record? x.1 = some r' ∧ r'.histories = r.histories) : Recalled u x := by
  obtain ⟨r, there, told⟩ := h
  obtain ⟨r', there', same⟩ := kept r there
  refine ⟨r', there', fun name => ?_⟩
  unfold Record.history
  rw [same]
  exact told name

/-- The object has an owner while `values` are in use, in the run or among the nodes that are kept. -/
def Surroundings.Live (s : Surroundings S) (m : Machine S) (values : List Value) (o : ObjectId) :
    Prop :=
  ((m.world.host (s.shares m values) []).survivors m.stage.shadow.store.nodes).object o = true

/-- The shadow stores simulate the stores of the run while `values` are in use and these invocations
    wait. -/
structure Simulated (s : Surroundings S) (waiting : Waiting) (values : List Value) (m : Machine S) :
    Prop where
  locals : ∀ x ∈ (s.frame, m.locals) :: waiting, Recalled m.stage.shadow x
  globals : ∀ name, SlotSimulated (m.globals.get? name) (m.stage.shadow.store.globals.get? name)
  classVariables : ∀ name,
    SlotSimulated (m.world.scopes[s.program.scope.number]?.bind (·.get? name))
      ((m.stage.shadow.scopeSlots s.program.scope).get? name)
  properties : ∀ o, s.Live m values o → ∀ name,
    SlotSimulated (m.world.objects[o.number]?.bind (·.get? name))
      ((m.stage.shadow.objectSlots o).get? name)

/-! ### Invocations that wait -/

variable {s t : Surroundings S} {m m' : Machine S} {x : FrameId × Dict String Value}

/-- The invocation that waits is held by the one under way, and so are the values of its locals; its
    record simulates these. -/
structure Waits (s : Surroundings S) (m : Machine S) (x : FrameId × Dict String Value) : Prop where
  other : x.1 ≠ s.frame
  made : m.world.Made (.frame x.1)
  held : m.world.Holds (s.owned ++ [.frame s.frame]) (.frame x.1)
  values : ∀ v ∈ x.2.values, v ∈ s.held
  recalled : Recalled m.stage.shadow x

/-- Whoever waits is left alone. -/
theorem Waits.later (h : Waits s m x) (since : Since s m m') (frame : t.frame = s.frame)
    (owned : t.owned = s.owned) (held : s.held ⊆ t.held) : Waits t m' x where
  other := frame ▸ h.other
  made := since.grows.made h.made
  held := by
    rw [frame, owned]
    exact World.Holds.grow since.grows h.held
  values v mem := held (h.values v mem)
  recalled := by
    have kept : m'.stage.shadow.record? x.1 = m.stage.shadow.record? x.1 :=
      (since.spared x.1 h.made h.other).content?_eq fun gone => gone h.held
    exact h.recalled.of_histories fun r there => ⟨r, kept.trans there, rfl⟩

theorem Since.waits (since : Since s m m') {waiting : Waiting} (waits : ∀ x ∈ waiting, Waits s m x) :
    ∀ x ∈ waiting, Waits s m' x := fun x mem =>
  (waits x mem).later since rfl rfl (List.Subset.refl _)

/-- A caller waits for its callee, and so does whoever waits for the caller. -/
theorem Waits.call (called : s.Called m.world) (name : String) (values : List Value)
    (caller : Recalled m.stage.shadow (s.frame, m.locals)) (waiting : Waiting)
    (waits : ∀ x ∈ waiting, Waits s m x) :
    ∀ x ∈ (s.frame, m.locals) :: waiting, Waits (s.callee m) (s.calling m name values) x := by
  have grows := World.grows_addFrame m.world (s.invocation name values)
  have found := World.frame?_addFrame m.world (s.invocation name values)
  intro x mem
  rcases List.mem_cons.mp mem with rfl | mem
  · refine ⟨World.ne_of_made called.made (s.invocation name values), grows.made called.made, ?_, ?_,
      caller⟩
    · exact .caller (.direct (List.mem_append_right _ (List.mem_singleton.mpr rfl))) found rfl
    · exact fun v used => List.mem_append_left _ used
  · obtain ⟨-, made, held, inUse, recalled⟩ := waits x mem
    refine ⟨World.ne_of_made made (s.invocation name values), grows.made made, ?_, ?_, recalled⟩
    · exact .of_callee found rfl (.grow grows held)
    · exact fun v used => List.mem_append_right _ (inUse v used)

theorem Spawns.held {sit next : Situation S} (spawns : Spawns sit next) :
    sit.surroundings.held ⊆ next.surroundings.held := by
  cases spawns with
  | addRight | setPropertyReceiver | laterArgs | statement | callFunction =>
    exact List.subset_append_right _ _
  | _ => exact fun _ => id

variable {tracer : Tracer} {seen : Stage kinds S → List (Node Value) → Prop} {p : Program}
  {start : Nat} {a : Activation} {values : List Value} {l : Ledger}

theorem Booked.recalled (h : Booked tracer seen p start s a values m l) (traced : a.traced = true) :
    Recalled m.stage.shadow (s.frame, m.locals) := by
  obtain ⟨r, there, -, -, latest⟩ := h.follows.mirrors.traced traced
  refine ⟨r, there, fun name => ?_⟩
  have agrees : Agrees (m.locals.get? name) (r.history name).getLast? := by
    rw [Record.history, List.getLast?_reverse, latest, ← h.follows.locals]
    exact h.ordered.books.agrees (.localVar name)
  exact agrees.history (((h.follows.graph trivial).tidy r (mem_contents_of_content? there)).histories
    name)

/-- It is known of the invocations that wait that they are left alone. -/
theorem Balanced.waits {sit next : Situation S} (h : Balanced tracer seen p start sit)
    {waiting : Waiting} (under : Under sit waiting next) :
    ∀ x ∈ waiting, Waits next.surroundings next.machine x := by
  induction under with
  | start => exact fun _ mem => absurd mem List.not_mem_nil
  | inside before spawns same ih =>
    have passes := (h.within before.within).sound.passes spawns
    exact fun x mem => (ih x mem).later (passes.since same) same passes.owned spawns.held
  | @call waiting n s m name args values m' function before ran found ih =>
    obtain ⟨a, l, nodes, traced, since, booked, -⟩ := (h.within before.within).arguments ran
    exact Waits.call booked.follows.called name values (booked.recalled traced) waiting
      (since.waits ih)

/-! ### What the ledger tells of the stores -/

/-- A ledger with its books in order has the slots of the run and of the shadow state, and the records
    of the invocations simulate their locals. -/
structure Accounted (p : Program) (start : Nat) (s : Surroundings S) (waiting : Waiting)
    (values : List Value) (m : Machine S) (l : Ledger) : Prop where
  program : s.program = p
  world : l.world = m.world
  globals : l.globals = m.globals
  stored : Stored (s.place m values) m.stage.shadow l
  books : Books p start l
  owned : ∀ f, .frame f ∈ s.owned ++ [.frame s.frame] → m.world.Made (.frame f)
  recalled : Recalled m.stage.shadow (s.frame, m.locals)
  waits : ∀ x ∈ waiting, Waits s m x

theorem Booked.accounted (h : Booked tracer seen p start s a values m l) (traced : a.traced = true)
    {waiting : Waiting} (waits : ∀ x ∈ waiting, Waits s m x) :
    Accounted p start s waiting values m l where
  program := h.program
  world := h.follows.world
  globals := h.follows.globals
  stored := h.follows.mirrors.stored trivial
  books := h.ordered.books
  owned f mem := by
    rcases List.mem_append.mp mem with outside | own
    · exact h.owned f outside
    · cases List.mem_singleton.mp own
      exact h.follows.called.made
  recalled := h.recalled traced
  waits := waits

namespace Accounted

variable {waiting : Waiting}

/-- An object that has an owner is alive for the rules. -/
theorem lives (h : Accounted p start s waiting values m l) {o : ObjectId}
    (made : m.world.Made (.object o)) (live : s.Live m values o) : (s.place m values).Lives o := by
  have owns : ∀ e ∈ s.shares m values ++ World.nodeShares (m.stage.shadow.store.nodes ++ []),
      (s.place m values).Owns e := by
    intro e mem
    rw [List.append_nil] at mem
    exact (List.mem_append.mp mem).imp_right World.keptBy_of_mem
  have frames : ∀ f, Entity.frame f ∈ s.shares m values → m.world.Made (.frame f) := by
    intro f mem
    rcases List.mem_append.mp mem with handle | used
    · refine h.owned f ?_
      rcases List.mem_append.mp handle with outside | own
      · exact List.mem_append_left _ outside
      · rcases List.mem_cons.mp own with same | impossible
        · exact List.mem_append_right _ (List.mem_singleton.mpr same)
        · cases List.mem_singleton.mp impossible
    · obtain ⟨v, -, inside⟩ := List.mem_flatMap.mp used
      exact absurd inside (World.frame_not_mem_ofValue v)
  refine (World.alive_of_living (h.world ▸ h.books.shares) (fun e mem => ?_) made live).mono
    fun e mem => .direct (owns e mem)
  cases e with
  | scope id => exact .inr ⟨id, rfl⟩
  | object o => exact .inl (h.stored.objects o (.direct (owns _ mem))).1
  | frame f =>
    rcases List.mem_append.mp mem with atHand | kept
    · exact .inl (frames f atHand)
    · obtain ⟨node, -, inside⟩ := List.mem_flatMap.mp kept
      obtain ⟨v, -, inside⟩ := List.mem_flatMap.mp inside
      exact absurd inside (World.frame_not_mem_ofValue v)

theorem simulated (h : Accounted p start s waiting values m l) :
    Simulated s waiting values m where
  locals x mem := by
    rcases List.mem_cons.mp mem with rfl | mem
    · exact h.recalled
    · exact (h.waits x mem).recalled
  globals name := by
    have agrees : Agrees (l.globals.get? name) (l.globalNodes.get? name) :=
      h.books.agrees (.globalVar name)
    rw [h.globals, h.stored.globals] at agrees
    exact agrees.slot
  classVariables name := by
    have agrees : Agrees (l.world.scopes[p.scope.number]?.bind (·.get? name))
        (l.classNodes.get? name) := h.books.agrees (.classVar name)
    rw [h.world, h.stored.classes, ← h.program] at agrees
    exact agrees.slot
  properties o live name := by
    have agrees : Agrees (l.world.objects[o.number]?.bind (·.get? name))
        ((l.propertyNodes o).get? name) := h.books.agrees (.property o name)
    have same : l.propertyNodes o = m.stage.shadow.objectSlots o := by
      by_cases made : m.world.Made (.object o)
      · exact (h.stored.objects o (h.lives made live)).2
      · exact (h.stored.fresh o made).1.trans (h.stored.fresh o made).2.symm
    rw [h.world, same] at agrees
    exact agrees.slot

/-- After a run has broken off, nothing but the locals is put back, and only the first invocation is
    left. -/
theorem breakOff (h : Accounted p start s waiting values m l) {u : Surroundings S}
    {locals : Dict String Value} (program : u.program = s.program) (owned : u.owned = s.owned)
    (alone : u.held = []) (left : (u.frame, locals) ∈ (s.frame, m.locals) :: waiting) :
    Accounted p start u [] [] { m with locals } l := by
  have inHand : m.world.Holds (s.shares m values) (.frame u.frame) ∧
      (∀ v ∈ locals.values, m.world.HoldsValue (s.shares m values) v) ∧
      m.world.Made (.frame u.frame) ∧ Recalled m.stage.shadow (u.frame, locals) := by
    rcases List.mem_cons.mp left with same | waits
    · obtain ⟨frame, rfl⟩ := Prod.mk.inj same
      rw [frame]
      exact ⟨Surroundings.holds_handle (by simp), fun v => Surroundings.holdsValue_local,
        h.owned _ (by simp), h.recalled⟩
    · obtain ⟨-, made, held, inUse, recalled⟩ := h.waits _ waits
      refine ⟨held.mono fun e mem => Surroundings.holds_handle ?_, fun v used =>
        Surroundings.holdsValue_of_mem ?_, made, recalled⟩
      · exact (List.mem_append.mp mem).elim (List.mem_append_left _) fun own =>
          List.mem_append_right _ (List.mem_singleton.mp own ▸ List.mem_cons_self)
      · simp [inUse v used]
  have held : ∀ e ∈ u.shares { m with locals } [], m.world.Holds (s.shares m values) e := by
    refine Surroundings.shares_cases (fun e mem => ?_) fun v mem => ?_
    · rw [owned, program] at mem
      simp only [List.mem_append, List.mem_cons, List.not_mem_nil, or_false] at mem
      rcases mem with outside | rfl | rfl
      · exact Surroundings.holds_handle (List.mem_append_left _ outside)
      · exact inHand.1
      · exact Surroundings.holds_handle (by simp)
    · rw [alone] at mem
      rcases List.mem_append.mp mem with own | global
      · exact inHand.2.1 v own
      · exact Surroundings.holdsValue_global global
  obtain ⟨globals, scope, classes, objects, fresh, nodes⟩ := h.stored
  refine ⟨program.trans h.program, h.world, h.globals,
    ⟨globals, ?_, ?_, fun o lives => ?_, fresh, nodes⟩, h.books, fun f mem => ?_, inHand.2.2.2,
    fun _ mem => absurd mem List.not_mem_nil⟩
  · rw [Surroundings.place, program]
    exact scope
  · rw [Surroundings.place, program]
    exact classes
  · refine objects o (lives.mono fun e owns => ?_)
    exact owns.elim (fun mem => (held e mem).alive fun _ => .inl) fun kept => .direct (.inr kept)
  · rcases List.mem_append.mp mem with outside | own
    · exact h.owned f (List.mem_append_left _ (owned ▸ outside))
    · cases List.mem_singleton.mp own
      exact inHand.2.2.1

end Accounted

/-! ### Checkpoints -/

/-- A tagged expression that a `return` leaves, none of its checkpoints being refused. -/
theorem run_unwound {n : Nat} {s : Surroundings S} {m m₁ m₂ m₃ : Machine S} {site : Site kinds}
    {code : Code} {v : Value} (enter : (s.report site .enter []).run.run m = (.ok (), m₁))
    (inner : (eval n s code).run.run m₁ = (.error (.returning v), m₂))
    (unwind : (s.report site (.unwind (returnText v)) [v]).run.run m₂ = (.ok (), m₃)) :
    (eval (n + 1) s (.tagged site code)).run.run m = (.error (.returning v), m₃) := by
  unfold eval
  dsimp only
  rw [run_bind, enter]
  dsimp only
  rw [run_bind, run_tryCatch, inner]
  dsimp only
  rw [run_bind, unwind]
  rfl

section Handing

variable {q : Place} {node : Node Value} {t u : Shadow kinds}

/-- A node that is handed over changes no history. -/
theorem Handed.histories (h : Handed q node t u) {f : FrameId} {r : Record Value}
    (there : t.record? f = some r) : ∃ r', u.record? f = some r' ∧ r'.histories = r.histories := by
  cases h with
  | kept alone same => exact ⟨r, (same.record?_eq f).trans there, rfl⟩
  | given caller record callerRecord mid called own known took gave =>
    by_cases isCaller : f = caller
    · subst isCaller
      obtain rfl := Option.some.inj (known.symm.trans there)
      exact ⟨_, gave.record?, rfl⟩
    · have after := (gave.frames.others f isCaller).content?_eq id
      by_cases isOwn : f = q.frame
      · rw [isOwn] at there after ⊢
        obtain rfl := Option.some.inj (own.symm.trans there)
        exact ⟨_, after.trans took.record?, rfl⟩
      · have before := (took.frames.others f isOwn).content?_eq id
        exact ⟨r, after.trans (before.trans there), rfl⟩

/-- A node that is handed over changes no slot. -/
theorem Handed.slots (h : Handed q node t u) : u.store.objects = t.store.objects ∧
    u.store.scopes = t.store.scopes ∧ u.store.globals = t.store.globals := by
  cases h with
  | kept alone same => exact ⟨by rw [same.1], by rw [same.1], by rw [same.1]⟩
  | given caller record callerRecord mid called own known took gave =>
    exact ⟨gave.objects.trans took.objects, gave.scopes.trans took.scopes,
      gave.globals.trans took.globals⟩

end Handing

/-- A boundary is left: the operand of the function is handed over, and nothing else happens. -/
theorem Accounted.handed {waiting : Waiting} (h : Accounted p start s waiting values m l)
    {stage : Stage kinds S} {node : Node Value}
    (handed : Handed (s.place { m with stage } values) node m.stage.shadow stage.shadow)
    (there : node ∈ m.stage.shadow.store.nodes) :
    Accounted p start s waiting values { m with stage } l := by
  obtain ⟨sameObjects, sameScopes, sameGlobals⟩ := handed.slots
  obtain ⟨globals, scope, classes, objects, fresh, nodes⟩ := h.stored
  refine ⟨h.program, h.world, h.globals, ?_, h.books, h.owned,
    h.recalled.of_histories fun r => handed.histories, fun x mem => ?_⟩
  · constructor
    · rw [sameGlobals]
      exact globals
    · exact scope
    · rw [scopeSlots_congr sameScopes]
      exact classes
    · intro o lives
      rw [objectSlots_congr sameObjects]
      refine objects o (lives.mono fun e owns => .direct (owns.imp_right ?_))
      rintro ⟨other, v, reached, rest⟩
      exact ⟨other, v, reached.mono fun n mem => .root (handed.nodes there mem), rest⟩
    · intro o unmade
      rw [objectSlots_congr sameObjects]
      exact fresh o unmade
    · exact fun n mem => nodes n (handed.nodes there mem)
  · obtain ⟨other, made, held, inUse, recalled⟩ := h.waits x mem
    exact ⟨other, made, held, inUse, recalled.of_histories fun r => handed.histories⟩

variable {n : Nat} {code : Code} {v : Value} {waiting : Waiting}

/-- A function has come to a value and has been left. -/
theorem Booked.leaveFunction {arguments : Option (List (Node Value))}
    (h : Booked tracer seen p start s { traced := false, arguments } [] m l)
    (fresh : l.localNodes = {}) (defined : code.Defined p.scope) (isTagged : code.isTagged = true)
    (tags : ∀ tag ∈ code.tags, p.Tags tag.1 tag.2) (waits : ∀ x ∈ waiting, Waits s m x)
    (run : (eval n s code).run.run m = (.ok v, m')) :
    ∃ l', Accounted p start s waiting [v] m' l' := by
  cases defined with
  | plain => cases isTagged
  | traced boundary label id bodyLabel shaped =>
    obtain rfl := h.program
    have sim := (good tracer True seen n).function s arguments m l _ h.fit h.follows fresh
      (.traced boundary label id bodyLabel shaped)
    obtain ⟨l', ended, -⟩ := sim.kept ((h.keeping n).function _ l _ _ h.ordered
      (.tagged id bodyLabel (.body shaped)) fun tag mem => tags tag (List.mem_cons_of_mem _ mem)) run
    obtain ⟨⟨⟨stage, came, how⟩, -, -⟩, yields⟩ := ended v rfl
    rcases how with ⟨untraced, -⟩ | ⟨node, _, _, _, -, one, -, -, handed⟩
    · cases untraced
    · have inside : Booked tracer seen _ start s { traced := true, arguments } [v]
          { m' with stage } l' := ⟨h.fit, h.traced, came.follows, h.ordered.after yields.kept,
        fun f mem => came.since.grows.made (h.owned f mem)⟩
      have accounted := inside.accounted rfl (came.since.waits waits)
      exact ⟨l', accounted.handed handed <|
        came.follows.mirrors.mem_nodes_of_operands rfl (one ▸ List.mem_singleton.mpr rfl)⟩

namespace Balanced

/-- Tagged code has come to a value. -/
theorem came (h : Balanced tracer seen p start ⟨n, s, .code code, m⟩)
    (isTagged : code.isTagged = true) (waits : ∀ x ∈ waiting, Waits s m x)
    (run : (eval n s code).run.run m = (.ok v, m')) :
    ∃ l, Accounted p start s waiting [v] m' l := by
  cases h with
  | code booked traced shaped tags =>
    obtain ⟨l', came, after⟩ := booked.toValue traced shaped tags run
    exact ⟨l', after.accounted traced (came.since.waits waits)⟩
  | piece _ _ piece => cases (isTagged_of_piece piece).symm.trans isTagged
  | function booked fresh defined isTagged tags =>
    exact booked.leaveFunction fresh defined isTagged tags waits run

/-- A `return` has left tagged code. -/
theorem returned (h : Balanced tracer seen p start ⟨n, s, .code code, m⟩)
    (isTagged : code.isTagged = true) (waits : ∀ x ∈ waiting, Waits s m x)
    (run : (eval n s code).run.run m = (.error (.returning v), m')) :
    ∃ l, Accounted p start s waiting [v] m' l := by
  cases h with
  | code booked traced shaped tags =>
    obtain ⟨l', -, returned⟩ := booked.ran traced shaped tags run
    obtain ⟨returned, escapes⟩ := returned v rfl
    exact ⟨l', (booked.after returned.toCame escapes.1).accounted traced (returned.since.waits waits)⟩
  | piece _ _ piece => cases (isTagged_of_piece piece).symm.trans isTagged
  | function booked fresh defined =>
    have begun : Begun tracer seen s m code :=
      ⟨_, _, booked.fit, booked.follows.inexact, fresh, booked.program ▸ defined⟩
    exact absurd run (begun.never_returns n v m')

/-- After a checkpoint the stores are accounted for. -/
theorem reported {sit : Situation S} (h : Balanced tracer seen p start sit)
    (waits : ∀ x ∈ waiting, Waits sit.surroundings sit.machine x)
    (reported : Reported sit values m') :
    ∃ l, Accounted p start sit.surroundings waiting values m' l := by
  cases reported with
  | enter =>
    obtain ⟨m₁, entered⟩ := h.sound.accepted.enter
    rw [entered]
    cases h with
    | code booked traced shaped =>
      cases shaped with
      | tagged id label piece =>
        obtain ⟨since, inside⟩ := booked.enter traced id label piece entered
        exact ⟨_, inside.accounted traced (since.waits waits)⟩
    | piece _ _ piece => cases piece
    | function booked fresh defined =>
      cases defined with
      | traced boundary label =>
        obtain ⟨since, inside⟩ := booked.enterFunction boundary label fresh entered
        exact ⟨_, inside.accounted rfl (since.waits waits)⟩
  | leave entered ran =>
    obtain ⟨m₃, left⟩ := h.sound.accepted.leave _ _ _ entered ran
    rw [left]
    exact h.came rfl waits (run_tagged entered ran left)
  | unwind entered ran =>
    obtain ⟨m₃, unwound⟩ := h.sound.accepted.unwind _ _ _ entered ran
    rw [unwound]
    exact h.returned rfl waits (run_unwound entered ran unwound)

/-- Where a run can break off the stores are accounted for. -/
theorem halted {sit : Situation S} (h : Balanced tracer seen p start sit)
    (waits : ∀ x ∈ waiting, Waits sit.surroundings sit.machine x) (halts : Halts sit m') :
    ∃ values l, Accounted p start sit.surroundings waiting values m' l := by
  cases halts with
  | refused reported => exact ⟨_, h.reported waits reported⟩
  | noArgument =>
    obtain ⟨a, l, booked, traced, -⟩ := h.untagged rfl
    exact ⟨_, l, booked.accounted traced waits⟩
  | cannotAdd first second =>
    obtain ⟨a, l, booked, traced, piece, tags, -⟩ := h.untagged rfl
    cases piece with
    | add left right =>
      obtain ⟨l₁, came, after⟩ := booked.toValue traced left
        (fun tag mem => tags tag (List.mem_append_left _ mem)) first
      obtain ⟨l₂, came', after'⟩ := after.held.toValue traced right
        (fun tag mem => tags tag (List.mem_append_right _ mem)) second
      exact ⟨_, l₂, after'.of_hold.accounted traced
        ((came.since.trans came'.since.of_hold).waits waits)⟩
  | undefinedFunction ran =>
    obtain ⟨a, l, nodes, traced, since, booked, -⟩ := h.arguments ran
    exact ⟨_, l, booked.accounted traced (since.waits waits)⟩

end Balanced

/-! ### Runs of programs -/

/-- The value that a run has come to is in use at its end. -/
def resulting : Except Interrupt Value → List Value
  | .ok v | .error (.returning v) => [v]
  | _ => []

/-- The shadow stores simulate the stores of the run. On the first run of a traced program they do so
    right after every checkpoint, for all the invocations under way, and where the run has come to its
    end, whether it has come to a value or has failed. -/
theorem Program.stores_simulated {source : Source} {scope : ScopeId} {p : Program}
    (compiled : source.compile scope = some p) (traced : source.AllTraced) (tracer : Tracer)
    (world : World) (owned : List Entity) (fresh : world.Fresh scope owned) (interval nextSeq : Nat)
    (log : Log) (own : S) (fuel : Nat) (stage : Stage kinds S)
    (first : stage = ⟨⟨.ofInterval interval, nextSeq, log⟩, own⟩) :
    (∀ waiting sit values m,
      Under (p.situation fuel (.ofTracer tracer) owned world stage) waiting sit →
      Reported sit values m → Simulated sit.surroundings waiting values m) ∧
    ∀ r m, (eval fuel (p.surroundings (.ofTracer tracer) owned world) p.main).run.run
        (machine world stage) = (r, m) → r ≠ .error .outOfFuel →
      Simulated (p.surroundings (.ofTracer tracer) owned world) [] (resulting r) m := by
  subst first
  obtain ⟨tagged, rfl⟩ := Source.wellTagged_of_compile compiled
  have isTraced := Source.traced_of_compile compiled traced
  have begins := Program.balanced tagged isTraced fresh (watches_ofTracer (S := S) tracer) interval
    nextSeq log own fuel trivial
  refine ⟨fun waiting sit values m under reported => ?_, fun r m run ends => ?_⟩
  · obtain ⟨l, accounted⟩ := (begins.within under.within).reported (begins.waits under) reported
    exact accounted.simulated
  · rcases r with (v | failure | _) | v
    · obtain ⟨l, accounted⟩ := begins.returned isTraced.main (begins.waits .start) run
      exact accounted.simulated
    · obtain ⟨waiting, sit, m₁, under, halts, same, left⟩ :=
        (failsKnown S fuel).code .start failure m run
      obtain ⟨values, l, accounted⟩ := (begins.within under.within).halted (begins.waits under) halts
      have passes := begins.sound.passes_within under.within
      generalize m.locals = locals at same left
      subst same
      exact (accounted.breakOff accounted.program.symm passes.owned.symm rfl
        (left List.mem_cons_self)).simulated
    · exact absurd rfl ends
    · obtain ⟨l, accounted⟩ := begins.came isTraced.main (begins.waits .start) run
      exact accounted.simulated

theorem Program.stores_simulated_call :
    callingSource.compile ⟨0⟩ = some callingProgram ∧ callingSource.AllTraced ∧
    firstWorld.Fresh ⟨0⟩ [] ∧
    ∃ (waiting : Waiting) (sit : Situation Unit) (values : List Value) (m : Machine Unit),
      Under (callingProgram.situation 20 (.ofTracer {}) [] firstWorld
        ⟨⟨.ofInterval 64, 1, {}⟩, ()⟩) waiting sit ∧
      Reported sit values m ∧ waiting.map (·.1) = [⟨0⟩] ∧ m.locals.get? "x" = some (.int 1) ∧
      Simulated sit.surroundings waiting values m := by
  have compiled : callingSource.compile ⟨0⟩ = some callingProgram := rfl
  have begins : Under (callingProgram.situation 20 (.ofTracer {}) [] firstWorld
    ⟨⟨.ofInterval 64, 1, {}⟩, ()⟩) _ _ := .start
  -- the statement of the main part
  have main := ((begins.inside (Spawns.enter (n := 19) (by with_unfolding_all rfl)) rfl).inside
    (Spawns.enter (n := 18) (by with_unfolding_all rfl)) rfl).inside .body rfl
  have call := (main.inside .statement rfl).inside
    (Spawns.enter (n := 15) (by with_unfolding_all rfl)) rfl
  have invoked := call.call (Prod.ext (show _ = Except.ok [Value.int 1] by with_unfolding_all rfl) rfl)
    (by with_unfolding_all rfl)
  -- the prologue of the function, which binds its local
  have body := ((invoked.inside (Spawns.enter (n := 13) (by with_unfolding_all rfl)) rfl).inside
    (Spawns.enter (n := 12) (by with_unfolding_all rfl)) rfl).inside .body rfl
  have prologue := body.inside .statement rfl
  obtain ⟨simulated, -⟩ := Program.stores_simulated compiled calling_allTraced {} firstWorld []
    firstWorld_fresh 64 1 {} () 20 _ rfl
  refine ⟨compiled, calling_allTraced, firstWorld_fresh, _, _, _, _, prologue,
    .left (v := .int 1) ?entered ?ran, ?waits, ?bound,
    simulated _ _ _ _ prologue (.left (v := .int 1) ?entered ?ran)⟩
  all_goals with_unfolding_all rfl

end Lineage.Toy
