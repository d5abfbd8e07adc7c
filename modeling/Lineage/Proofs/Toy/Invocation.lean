import Lineage.Proofs.Toy.Follows

/-!
# Calls

A call runs a function in a frame of its own: what the run and the ledger agree on where the function
begins, and what they agree on once it has ended and the caller goes on. The one node that a traced
function leaves is delivered to its caller at the boundary.
-/

namespace Lineage.Toy

open Shadow

variable {S : Type} {exact : Prop} {seen : Stage kinds S → List (Node Value) → Prop}
  {s : Surroundings S} {a : Activation} {values : List Value} {m : Machine S} {l : Ledger}
  {tracer : Tracer}

/-- From `t` to `u` the caller has been given nodes, by a callee that has lost what it had. -/
structure Delivered (callee caller : FrameId) (given : List (Node Value)) (t u : Shadow kinds) :
    Prop where
  others : ∀ f, f ≠ callee → f ≠ caller → u.store.frames.find? f = t.store.frames.find? f
  caller : u.record? caller =
    (t.record? caller).map fun r => { r with stack := given ++ r.stack }
  known : ∀ f, u.record? f ≠ none → t.record? f ≠ none
  objects : u.store.objects = t.store.objects
  scopes : u.store.scopes = t.store.scopes
  globals : u.store.globals = t.store.globals
  nextSeq : u.nextSeq = t.nextSeq
  sane : t.Unpoisoned → u.Unpoisoned
  nodes : ∀ node ∈ u.store.nodes, node ∈ t.store.nodes

/-- No node is lost from sight at a boundary, and none comes into sight. -/
theorem Handed.nodes {p : Place} {node n : Node Value} {t u : Shadow kinds} (h : Handed p node t u)
    (there : node ∈ t.store.nodes) (mem : n ∈ u.store.nodes) : n ∈ t.store.nodes := by
  cases h with
  | kept alone same => rwa [same.nodes] at mem
  | given caller record callerRecord mid called own known took gave =>
    rcases gave.nodes mem with inside | before
    · rcases Record.nodes_push inside with rfl | inside
      · exact there
      · exact mem_nodes_of_record caller (by rwa [recordOf_eq known])
    · rcases took.nodes before with inside | before
      · refine mem_nodes_of_record p.frame ?_
        rw [recordOf_eq own]
        exact Record.nodes_drop record.stack (List.append_nil _).symm inside
      · exact before

theorem Handed.nextSeq {p : Place} {node : Node Value} {t u : Shadow kinds} (h : Handed p node t u) :
    u.nextSeq = t.nextSeq := by
  cases h with
  | kept alone same => exact same.2
  | given _ _ _ _ _ _ _ took gave => exact gave.nextSeq

namespace Delivered

variable {callee caller : FrameId} {t u : Shadow kinds}

theorem of_same (same : SameState t u) : Delivered callee caller [] t u where
  others _ _ _ := by rw [same.1]
  caller := by
    rw [same.record?_eq]
    cases t.record? caller <;> rfl
  known f := by
    rw [same.record?_eq]
    exact id
  objects := by rw [same.1]
  scopes := by rw [same.1]
  globals := by rw [same.1]
  nextSeq := same.2
  sane := same.unpoisoned
  nodes node mem := by rwa [same.nodes] at mem

/-- What a traced function leaves goes to its caller, if that is traced too. -/
theorem of_handed {p : Place} {node : Node Value} (h : Handed p node t u)
    {record : Record Value} (own : t.record? p.frame = some record) (one : record.stack = [node])
    (called : p.host.callerOf p.frame = some caller) (ne : caller ≠ p.frame) :
    Delivered p.frame caller [node] t u := by
  have nodes : ∀ n ∈ u.store.nodes, n ∈ t.store.nodes := by
    intro n
    refine h.nodes (mem_nodes_of_record p.frame ?_)
    rw [recordOf_eq own]
    exact Record.mem_nodes.mpr (.inl (one ▸ List.mem_singleton.mpr rfl))
  cases h with
  | kept alone same =>
    have untraced : t.record? caller = none := by
      rw [Tracer.callerRecord?, called] at alone
      exact alone
    refine { (of_same same : Delivered p.frame caller [] t u) with caller := ?_ }
    rw [same.record?_eq, untraced]
    rfl
  | given caller' record' callerRecord mid called' own' known took gave =>
    obtain rfl : caller' = caller := Option.some.inj (called'.symm.trans called)
    obtain rfl : record' = record := Option.some.inj (own'.symm.trans own)
    have midCaller : mid.record? caller' = some callerRecord :=
      ((took.frames.others caller' ne).content?_eq id).trans known
    constructor
    · intro f notCallee notCaller
      exact ((gave.frames.others f notCaller).find?_eq id).trans
        ((took.frames.others f notCallee).find?_eq id)
    · rw [gave.record?, known]
      rfl
    · intro f there
      by_cases isCallee : f = p.frame
      · rw [isCallee, own']
        exact Option.some_ne_none _
      · by_cases isCaller : f = caller'
        · rw [isCaller, known]
          exact Option.some_ne_none _
        · have inMid := (gave.frames.others f isCaller).content?_eq id
          have inT := (took.frames.others f isCallee).content?_eq id
          rwa [Shadow.record?, inMid, inT] at there
    · exact gave.objects.trans took.objects
    · exact gave.scopes.trans took.scopes
    · exact gave.globals.trans took.globals
    · exact gave.nextSeq
    · intro sane
      exact gave.unpoisoned (took.unpoisoned sane)
    · exact nodes

end Delivered

/-! ### From the caller to the callee -/

/-- The surroundings of a function that is called. -/
def Surroundings.callee (s : Surroundings S) (m : Machine S) : Surroundings S :=
  { s.hold m.locals.values with frame := ⟨m.world.frames.size⟩ }

/-- The frame of a function that is called. -/
def Surroundings.invocation (s : Surroundings S) (name : String) (values : List Value) : Frame :=
  { name, caller := some s.frame, args := values }

/-- The activation of a function at its beginning. -/
def Activation.called (a : Activation) (l : Ledger) (count : Nat) : Activation where
  traced := false
  arguments := if a.traced then some (l.operands.take count) else none

/-- The objects that are alive for a callee are so for its caller. -/
theorem lives_of_callee (name : String) {o : ObjectId}
    (h : ((s.callee m).place { m with
      world := (m.world.addFrame (s.invocation name values)).2, locals := {} } []).Lives o) :
    (s.place m values).Lives o := by
  let new : Entity := .frame ⟨m.world.frames.size⟩
  let p := s.place m values
  let Owns (e : Entity) : Prop := e = new ∨ p.Owns e
  have unmade : ¬ m.world.Made new := Nat.lt_irrefl _
  have handle : ∀ e ∈ s.shares m values, m.world.Alive Owns e := fun e mem => .direct (.inr (.inl mem))
  have held : ∀ v, m.world.HoldsValue (s.shares m values) v →
      ∀ e ∈ Entity.ofValue v, m.world.Alive Owns e := fun v holds e inside =>
    (holds e inside).alive fun e mem => .inr (.inl mem)
  have before : m.world.Alive Owns (.object o) := by
    refine World.Alive.of_sharesOf (fun e other mem => ?_) ?_ h
    · refine (World.sharesOf_addFrame mem).imp_right fun mem => ?_
      simp only [World.frameShares, Surroundings.invocation, Option.map_some, Option.toList_some,
        List.mem_append, List.mem_singleton] at mem
      rcases mem with rfl | mem
      · exact handle _ (List.mem_append_left _ (by simp))
      · obtain ⟨v, used, inside⟩ := List.mem_flatMap.mp mem
        exact held v (Surroundings.holdsValue_used used) _ inside
    · rintro e (mem | kept)
      · rcases List.mem_append.mp mem with mem | mem
        · simp only [Surroundings.callee, Surroundings.hold, List.mem_append, List.mem_cons,
            List.not_mem_nil, or_false] at mem
          rcases mem with owned | rfl | rfl
          · exact handle _ (List.mem_append_left _ (by simp [owned]))
          · exact .direct (.inl rfl)
          · exact handle _ (List.mem_append_left _ (by simp))
        · obtain ⟨v, mem, inside⟩ := List.mem_flatMap.mp mem
          refine held v (Surroundings.holdsValue_of_mem ?_) _ inside
          simp only [Surroundings.callee, Surroundings.hold, Dict.values, List.mem_append] at mem ⊢
          simp only [List.map_nil, List.not_mem_nil, false_or, or_false] at mem
          rcases mem with (inside | held) | global
          · exact .inl (.inr inside)
          · exact .inl (.inl (.inr held))
          · exact .inr global
      · exact .direct (.inr (.inr kept))
  exact (World.Alive.of_unmade unmade before).resolve_left Entity.noConfusion

/-- A function begins with a ledger of its own and without a record. -/
theorem Follows.call (h : Follows exact seen s a values m l) (name : String)
    (enough : a.traced = true → values.length ≤ l.operands.length) :
    Follows exact seen (s.callee m) (a.called l values.length) []
      { m with
        world := (m.world.addFrame (s.invocation name values)).2
        locals := {} }
      { l with
        world := (l.world.addFrame (s.invocation name values)).2
        locals := {}, localNodes := {}, operands := [] } := by
  have own := h.called.made
  have grows := World.grows_addFrame m.world (s.invocation name values)
  have here := World.frame?_addFrame m.world (s.invocation name values)
  have unmade : ¬ m.world.Made (.frame (s.callee m).frame) := Nat.lt_irrefl _
  have absent : m.stage.shadow.record? (s.callee m).frame = none := by
    cases there : m.stage.shadow.record? (s.callee m).frame with
    | none => rfl
    | some r => exact absurd (h.mirrors.known _ (there ▸ Option.some_ne_none r)) unmade
  constructor
  · rw [h.world]
  · exact h.globals
  · rfl
  · refine ⟨s.invocation name values, here, ?_⟩
    rintro caller ⟨⟩
    exact ⟨World.ne_of_made own (s.invocation name values), grows.made own⟩
  · constructor
    · exact h.mirrors.next
    · exact h.mirrors.sane
    · exact fun f there => grows.made (h.mirrors.known f there)
    · intro frame' found'
      obtain rfl := Option.some.inj (here.symm.trans found')
      cases traced : a.traced with
      | false =>
        have none' := (h.mirrors.untraced traced).1
        simp only [Surroundings.place] at none'
        constructor
        · simp [Activation.called, traced, Surroundings.invocation, none']
        · simp [Surroundings.invocation, none']
      | true =>
        obtain ⟨r, there, stack, -, -⟩ := h.mirrors.traced traced
        simp only [Surroundings.place] at there
        have top : r.stack.take values.length = l.operands.take values.length := by
          rw [stack, List.take_append_of_le_length (enough traced)]
        have bound : values.length ≤ r.stack.length := by
          rw [stack, List.length_append]
          exact Nat.le_add_right_of_le (enough traced)
        constructor
        · simp [Activation.called, traced, Surroundings.invocation, there, top]
        · simp [Surroundings.invocation, there, bound]
    · rintro ⟨⟩
    · exact fun _ => ⟨absent, rfl⟩
    · intro hexact
      obtain ⟨globals, scope, classes, objects, fresh, nodes'⟩ := h.mirrors.stored hexact
      exact ⟨globals, scope, classes, fun o lives => objects o (lives_of_callee name lives), fresh,
        nodes'⟩
  · exact h.graph
  · exact h.seen

/-! ### From the callee back to the caller -/

/-- What the caller holds once its callee has ended was held by the callee. -/
theorem holds_of_caller {m' : Machine S} {name : String} {v : Value} {e : Entity}
    (found : m'.world.frame? (s.callee m).frame = some (s.invocation name values))
    (h : m'.world.Holds (s.shares { m' with locals := m.locals } [v]) e) :
    m'.world.Holds ((s.callee m).shares m' [v]) e := by
  refine h.mono <| Surroundings.shares_cases (fun e mem => ?_) fun w mem => ?_
  · simp only [List.mem_append, List.mem_cons, List.not_mem_nil, or_false] at mem
    rcases mem with owned | rfl | rfl
    · exact Surroundings.holds_handle (List.mem_append_left _ owned)
    · exact .caller (Surroundings.holds_handle (by simp)) found rfl
    · exact Surroundings.holds_handle (by simp [Surroundings.callee, Surroundings.hold])
  · refine Surroundings.holdsValue_of_mem ?_
    simp only [Surroundings.callee, Surroundings.hold, List.append_assoc, List.mem_append] at mem ⊢
    rcases mem with used | held | inside | global
    · exact .inl used
    · exact .inr (.inr (.inl held))
    · exact .inr (.inl inside)
    · exact .inr (.inr (.inr (.inr global)))

/-- What is alive for the caller once its callee has ended was alive for the callee. -/
theorem lives_of_caller {m' : Machine S} {name : String} {v : Value} {stage : Stage kinds S}
    (found : m'.world.frame? (s.callee m).frame = some (s.invocation name values))
    (nodes : ∀ node ∈ stage.shadow.store.nodes, node ∈ m'.stage.shadow.store.nodes) {o : ObjectId}
    (h : (s.place { m' with stage, locals := m.locals } [v]).Lives o) :
    ((s.callee m).place m' [v]).Lives o := by
  refine h.mono ?_
  rintro e (mem | ⟨node, w, reached, value, inside⟩)
  · exact (holds_of_caller found (.direct mem)).alive fun _ => .inl
  · exact .direct (.inr ⟨node, w, reached.mono fun n mem => .root (nodes n mem), value, inside⟩)

/-- Frames that are held by the caller are spared during the whole call. -/
theorem Since.back {m' : Machine S} {name : String} {stage stage' : Stage kinds S}
    {given : List (Node Value)} (since : Since (s.callee m)
      { m with world := (m.world.addFrame (s.invocation name values)).2, stage, locals := {} } m')
    (same : SameState m.stage.shadow stage.shadow)
    (delivered : Delivered (s.callee m).frame s.frame given m'.stage.shadow stage'.shadow) :
    Since s m { m' with stage := stage', locals := m.locals } := by
  have grows := World.grows_addFrame m.world (s.invocation name values)
  refine ⟨grows.trans since.grows, fun f made ne => ?_⟩
  have old : f ≠ (s.callee m).frame := World.ne_of_made made (s.invocation name values)
  have spared := since.spared f (grows.made made) old
  unfold Table.Spares at spared ⊢
  rw [delivered.others f old ne, ← same.1]
  refine spared.imp_right (And.imp_right fun gone held => gone ?_)
  exact World.Holds.of_callee (World.frame?_addFrame _ _) rfl (World.Holds.grow grows held)

/-- The caller goes on: its record is what it was, with what it has been given on top. -/
theorem Follows.back {b : Activation} {m' : Machine S} {l' : Ledger} {name : String} {v : Value}
    {stage stage' : Stage kinds S} (h : Follows exact seen s a values m l)
    (inner : Follows exact seen (s.callee m) b [v] m' l')
    (since : Since (s.callee m)
      { m with world := (m.world.addFrame (s.invocation name values)).2, stage, locals := {} } m')
    (same : SameState m.stage.shadow stage.shadow)
    (delivered : Delivered (s.callee m).frame s.frame l'.operands m'.stage.shadow stage'.shadow)
    (graph : exact → stage'.shadow.WellFormed) (hseen : exact → seen stage' l'.made) :
    Follows exact seen s a [v] { m' with stage := stage', locals := m.locals }
      { l' with
        locals := l.locals, localNodes := l.localNodes
        operands := (if a.traced then l'.operands else []) ++ l.operands } := by
  have since' := since.back same delivered
  have found : m'.world.frame? (s.callee m).frame = some (s.invocation name values) :=
    since.grows _ _ (World.frame?_addFrame m.world _)
  obtain ⟨frame, here, callers⟩ := h.called
  have own := h.called.made
  -- the record of the caller has not been touched before the delivery
  have kept : m'.stage.shadow.record? s.frame = m.stage.shadow.record? s.frame := by
    have spared := since.spared s.frame
      ((World.grows_addFrame m.world (s.invocation name values)).made own)
      (World.ne_of_made own (s.invocation name values))
    exact (spared.content?_eq fun gone => gone <| .caller
      (.direct (List.mem_append_right _ (List.mem_singleton.mpr rfl)))
      (World.frame?_addFrame _ _) rfl).trans (same.record?_eq _)
  constructor
  · exact inner.world
  · exact inner.globals
  · exact h.locals
  · exact h.called.grow since'.grows
  · constructor
    · exact inner.mirrors.next.trans delivered.nextSeq.symm
    · exact delivered.sane inner.mirrors.sane
    · exact fun f there => inner.mirrors.known f (delivered.known f there)
    · intro frame' found'
      obtain rfl := Option.some.inj ((since'.grows _ _ here).symm.trans found')
      obtain ⟨known, enough⟩ := h.mirrors.passed frame here
      have caller : frame.caller.bind stage'.shadow.record? =
          frame.caller.bind m.stage.shadow.record? := by
        cases called : frame.caller with
        | none => rfl
        | some caller =>
          obtain ⟨ne, made⟩ := callers caller called
          refine ((since'.spared caller made ne).content?_eq fun gone => gone ?_)
          exact .caller (.direct (List.mem_append_right _ (List.mem_singleton.mpr rfl))) here called
      constructor
      · rw [caller]
        exact known
      · rw [caller]
        exact enough
    · intro traced
      obtain ⟨r, there, stack, marks, locals⟩ := h.mirrors.traced traced
      refine ⟨{ r with stack := l'.operands ++ r.stack }, ?_, ?_, marks, locals⟩
      · exact delivered.caller.trans (by rw [kept.trans there]; rfl)
      · rw [if_pos traced, stack, List.append_assoc]
    · intro untraced
      obtain ⟨none', empty⟩ := h.mirrors.untraced untraced
      refine ⟨delivered.caller.trans (by rw [kept.trans none']; rfl), ?_⟩
      simp [untraced, empty]
    · intro hexact
      obtain ⟨globals, scope, classes, objects, fresh, nodes⟩ := inner.mirrors.stored hexact
      constructor
      · rw [delivered.globals]
        exact globals
      · exact scope
      · rw [scopeSlots_congr delivered.scopes]
        exact classes
      · intro o lives
        rw [objectSlots_congr delivered.objects]
        exact objects o (lives_of_caller found delivered.nodes lives)
      · intro o unmade
        rw [objectSlots_congr delivered.objects]
        exact fresh o unmade
      · exact fun node mem => nodes node (delivered.nodes node mem)
  · exact graph
  · exact hseen

/-! ### Boundaries -/

variable {arguments : Option (List (Node Value))} (id : SiteId) (label : String)

/-- A traced function is entered. -/
theorem Follows.enterFunction (h : Follows exact seen s { traced := false, arguments } [] m l)
    (watches : Watches tracer s.listener seen) (fresh : l.localNodes = {}) :
    ∃ stage, (s.report (boundaryOf id label) .enter []).run.run m = (.ok (), { m with stage }) ∧
      Since s m { m with stage } ∧
      Follows exact seen s { traced := true, arguments } [] { m with stage } l := by
  obtain ⟨stage, run, ⟨spared, mirrors⟩, reaction, graph⟩ := h.checkpoint watches
    (boundaryOf id label) .enter (fun p u => p.Spared m.stage.shadow u ∧
      Mirrors exact p { traced := true, arguments } u l) nofun fun kept mirrors _ =>
        (enter_function id label mirrors (Surroundings.place_sound h.called kept) fresh :)
  refine ⟨stage, run, .of_spared spared rfl, ?_⟩
  exact h.report watches reaction mirrors graph ⟨rfl, rfl, rfl⟩ (fun _ mem => mem)
    (fun _ mem => .inl mem) rfl

/-- A traced function is left. -/
theorem Follows.leaveFunction {node : Node Value} {v : Value}
    (h : Follows exact seen s { traced := true, arguments } [v] m l)
    (watches : Watches tracer s.listener seen) (one : l.operands = [node]) :
    ∃ stage, (s.report (boundaryOf id label) (.leave v) [v]).run.run m =
        (.ok (), { m with stage }) ∧
      Handed (s.place { m with stage } [v]) node m.stage.shadow stage.shadow ∧
      (exact → stage.shadow.WellFormed) ∧ (exact → seen stage l.made) := by
  obtain ⟨stage, run, handed, reaction, graph⟩ := h.checkpoint watches (boundaryOf id label) (.leave v)
    (fun p u => Handed p node m.stage.shadow u) (by simp) fun kept mirrors _ =>
      (leave_function id label mirrors (Surroundings.place_sound h.called kept) one :)
  refine ⟨stage, run, handed, graph, fun hexact => ?_⟩
  have there := h.mirrors.mem_nodes_of_operands rfl (one ▸ List.mem_singleton.mpr rfl)
  exact watches.sees _ _ _ _ _ _ reaction (h.seen hexact)
    (fun n mem => (h.mirrors.stored hexact).nodes n (handed.nodes there mem))
    (fun _ mem => mem) (fun _ mem => .inl mem) (by rw [handed.nextSeq])

end Lineage.Toy
