import Lineage.Proofs.Toy.Situations

/-!
# The shadow stack mirrors evaluation

Wherever a run has come to, a tagged expression that comes to a value leaves the stack of its frame as
it was, with exactly one node on top, which is its own. A `return` on its way out leaves the node of
the `return` on top of whatever it has interrupted. A traced invocation leaves one node, with its
caller if that is traced.
-/

namespace Lineage.Toy

open Shadow

variable {S : Type} {tracer : Tracer} {seen : Stage kinds S → List (Node Value) → Prop}
  {n : Nat} {s : Surroundings S} {m m' : Machine S} {site : Site kinds} {code : Code} {v : Value}

/-- From `m` to `m'` the stack of a frame has gained nodes; the depths noted are those from before. -/
def Gained (frame : FrameId) (m m' : Machine S) (nodes : List (Node Value)) : Prop :=
  ∃ r r', m.stage.shadow.record? frame = some r ∧ m'.stage.shadow.record? frame = some r' ∧
    r'.stack = nodes ++ r.stack ∧ r'.marks = r.marks

/-- From `m` to `m'` the records of the other frames are as they were, unless nobody holds a frame any
    more and its record has gone. -/
def Undisturbed (s : Surroundings S) (m m' : Machine S) : Prop :=
  ∀ f, m.world.Made (.frame f) → f ≠ s.frame →
    m'.stage.shadow.record? f = m.stage.shadow.record? f ∨
    m'.stage.shadow.record? f = none ∧
      ¬ m.world.Holds (s.owned ++ [.frame s.frame]) (.frame f)

/-- The ways in which a tagged expression may end, and what it then has done to the stacks. -/
structure Mirrored (n : Nat) (s : Surroundings S) (m : Machine S) (site : Site kinds) (code : Code) :
    Prop where
  value : ∀ v m', (eval n s (.tagged site code)).run.run m = (.ok v, m') →
    Undisturbed s m m' ∧ ∃ node, Gained s.frame m m' [node] ∧
      node.creator = Tracer.creatorOf site ∧ node.value = some v
  returned : ∀ v m', (eval n s (.tagged site code)).run.run m = (.error (.returning v), m') →
    Undisturbed s m m' ∧ ∃ node left, Gained s.frame m m' (node :: left) ∧
      node.value = some v ∧ (m'.stage.shadow.recordOf s.frame).result = some node

/-- The caller of the invocation under way, if there is one. -/
def Surroundings.caller? (s : Surroundings S) (m : Machine S) : Option FrameId :=
  (m.world.frame? s.frame).bind (·.caller)

/-- The one node that a traced invocation leaves is given to its caller if the caller has a record,
    and stays on the stack of the invocation otherwise. -/
structure Leaves (s : Surroundings S) (m m' : Machine S) (node : Node Value) : Prop where
  given : ∀ caller r, s.caller? m = some caller → m.stage.shadow.record? caller = some r →
    m'.stage.shadow.record? caller = some { r with stack := node :: r.stack } ∧
    ∃ r', m'.stage.shadow.record? s.frame = some r' ∧ r'.stack = [] ∧ r'.marks = []
  kept : (s.caller? m).bind m.stage.shadow.record? = none →
    ∃ r', m'.stage.shadow.record? s.frame = some r' ∧ r'.stack = [node] ∧ r'.marks = []

theorem Since.undisturbed (h : Since s m m') : Undisturbed s m m' := by
  intro f made ne
  rcases h.spared f made ne with same | ⟨gone, dead⟩
  · exact .inl (congrArg (Option.map _) same)
  · exact .inr ⟨by rw [record?, Table.content?, gone]; rfl, dead⟩

/-- The operands that the ledger has gained are those that the stack has gained. -/
theorem Follows.gained {a : Activation} {l l' : Ledger} {values values' : List Value}
    (h : Follows False seen s a values m l) (h' : Follows False seen s a values' m' l')
    (traced : a.traced = true) {nodes : List (Node Value)}
    (operands : l'.operands = nodes ++ l.operands) : Gained s.frame m m' nodes := by
  obtain ⟨r, known, stack, marks, -⟩ := h.mirrors.traced traced
  obtain ⟨r', known', stack', marks', -⟩ := h'.mirrors.traced traced
  refine ⟨r, r', known, known', ?_, marks'.trans marks.symm⟩
  rw [stack', operands, stack, List.append_assoc]

/-- In a sound situation a tagged expression keeps to the discipline. -/
theorem Sound.mirrored (sound : Sound tracer seen ⟨n, s, .code (.tagged site code), m⟩)
    (expression : code.isTagged = false) : Mirrored n s m site code := by
  rcases sound.tagged with
    ⟨a, l, id, label, traced, rfl, fit, h, piece⟩ | ⟨-, -, -, -, -, defined⟩
  case inr =>
    cases defined with
    | traced => cases expression
  case inl =>
    have shaped := Code.Shaped.tagged id label piece
    rw [← traced] at shaped
    have sim := (good tracer False seen n).code s a m l _ fit h shaped
    constructor
    · intro v m' run
      obtain ⟨l', -, done⟩ := Ends.at_run sim run
      obtain ⟨node, operands, value, creator⟩ := done.pushed traced
      exact ⟨done.since.undisturbed, node, h.gained done.follows traced operands,
        creator _ code rfl, value⟩
    · intro v m' run
      obtain ⟨l', -, -, done⟩ := Ends.at_run sim run
      obtain ⟨node, left, operands, value, result⟩ := done.top traced
      exact ⟨done.since.undisturbed, node, left, h.gained done.follows traced operands, value,
        result trivial⟩

/-- The one operand of a traced function, as it is dealt with at the boundary of the function, is the
    node that the function leaves. -/
theorem Handed.leaves {arguments : Option (List (Node Value))} {l' : Ledger} {node : Node Value}
    {stage : Stage kinds S} (handed : Handed (s.place m' [v]) node stage.shadow m'.stage.shadow)
    (came : Came False seen s { traced := true, arguments } m [v] { m' with stage } l')
    (called : s.Called m.world) (one : l'.operands = [node]) : Leaves s m m' node := by
  obtain ⟨own, there, stack, marks, -⟩ := came.follows.mirrors.traced rfl
  simp only [Surroundings.place] at there
  rw [one] at stack
  obtain ⟨frame, here, callers⟩ := called
  have calledBy : s.caller? m = frame.caller := by rw [Surroundings.caller?, here]; rfl
  have calledBy' : ((s.place m' [v]).host.callerOf s.frame) = frame.caller :=
    congrArg (·.bind (·.caller)) (came.since.grows _ _ here)
  -- nobody touches the record of the caller while the function runs
  have callerKept : ∀ caller, frame.caller = some caller →
      stage.shadow.record? caller = m.stage.shadow.record? caller := by
    intro caller called
    obtain ⟨ne, made⟩ := callers caller called
    refine (came.since.spared caller made ne).content?_eq fun gone => gone ?_
    exact .caller (.direct (List.mem_append_right _ (List.mem_singleton.mpr rfl))) here called
  rw [← calledBy] at callerKept calledBy'
  cases handed with
  | kept alone after =>
    rw [Tracer.callerRecord?, show (s.place m' [v]).frame = s.frame from rfl, calledBy'] at alone
    constructor
    · intro caller r called known
      rw [called, Option.bind_some, callerKept caller called, known] at alone
      cases alone
    · intro _
      exact ⟨own, (after.record?_eq _).trans there, stack, marks⟩
  | given caller record callerRecord mid called known callerKnown took gave =>
    obtain rfl : record = own := Option.some.inj (known.symm.trans there)
    have isCaller : s.caller? m = some caller := calledBy'.symm.trans called
    rw [callerKept caller isCaller] at callerKnown
    have ne : s.frame ≠ caller := fun eq => (callers caller (calledBy ▸ isCaller)).1 eq.symm
    constructor
    · intro other r called' known'
      obtain rfl : other = caller := Option.some.inj (called'.symm.trans isCaller)
      obtain rfl : r = callerRecord := Option.some.inj (known'.symm.trans callerKnown)
      refine ⟨gave.record?, { record with stack := [] }, ?_, rfl, marks⟩
      exact ((gave.frames.others s.frame ne).content?_eq id).trans took.record?
    · intro none'
      rw [isCaller, Option.bind_some, callerKnown] at none'
      cases none'

/-- What a traced function leaves in a sound situation. -/
theorem Sound.leaves {boundary : Site kinds}
    (sound : Sound tracer seen ⟨n, s, .code (.tagged boundary (.tagged site code)), m⟩)
    (run : (eval n s (.tagged boundary (.tagged site code))).run.run m = (.ok v, m')) :
    ∃ node, Leaves s m m' node ∧ node.creator = Tracer.creatorOf site ∧ node.value = some v := by
  rcases sound.tagged with
    ⟨-, -, -, -, -, -, -, -, piece⟩ | ⟨arguments, l, fit, h, fresh, defined⟩
  · cases piece
  · have sim := (good tracer False seen n).function s arguments m l _ fit h fresh defined
    obtain ⟨l', -, ⟨stage, came, how⟩, -⟩ := Ends.at_run sim run
    rcases how with ⟨untraced, -⟩ | ⟨node, _, _, _, same, one, value, creator, handed⟩
    · cases untraced
    · cases same
      exact ⟨node, handed.leaves came h.called one, creator, value⟩

/-! ### Runs of programs -/

/-- The shadow stack mirrors evaluation, whichever of the definitions are traced and whatever the
    tracer has been through before: at every tagged expression that is ever evaluated, at every traced
    invocation, and at the end of a traced main part. -/
theorem Program.stack_mirrors_evaluation {source : Source} {scope : ScopeId} {p : Program}
    (compiled : source.compile scope = some p) (tracer : Tracer) (world : World)
    (stage : Stage kinds S) (past : Past tracer world stage.shadow) (fuel : Nat)
    (owned : List Entity) :
    (∀ n s m site code,
      Within (p.situation fuel (.ofTracer tracer) owned world stage)
        ⟨n, s, .code (.tagged site code), m⟩ →
      code.isTagged = false → Mirrored n s m site code) ∧
    (∀ n s m boundary site code v m',
      Within (p.situation fuel (.ofTracer tracer) owned world stage)
        ⟨n, s, .code (.tagged boundary (.tagged site code)), m⟩ →
      (eval n s (.tagged boundary (.tagged site code))).run.run m = (.ok v, m') →
      ∃ node, Leaves s m m' node ∧ node.creator = Tracer.creatorOf site ∧ node.value = some v) ∧
    ∀ d, source.main = some d → d.traced = true → ∀ run world' stage',
      p.run fuel (.ofTracer tracer) owned world stage = (.finished run, world', stage') →
      ∃ boundary site statements r node,
        p.main = .tagged boundary (.tagged site (.body statements)) ∧
        stage'.shadow.record? run.frame = some r ∧ r.stack = [node] ∧ r.marks = [] ∧
        node.creator = Tracer.creatorOf site ∧ node.value = some run.value := by
  have begun := Program.begun (Source.wellTagged_of_compile compiled).1 (watches_ofTracer tracer)
    owned past
  have sound : Sound tracer (fun _ _ => True)
      (p.situation fuel (.ofTracer tracer) owned world stage) := .function begun
  refine ⟨fun n s m site code within => ?_, fun n s m boundary site code v m' within => ?_, ?_⟩
  · exact (sound.within within).mirrored
  · exact (sound.within within).leaves
  · intro d main traced run world' stage' finished
    obtain ⟨boundary, site, statements, form⟩ := Source.main_traced compiled main traced
    unfold situation at sound
    rw [form] at sound
    rw [run_eq, form] at finished
    rcases ended : (eval fuel (p.surroundings (.ofTracer tracer) owned world)
      (.tagged boundary (.tagged site (.body statements)))).run.run (machine world stage) with
      ⟨(w | failure | _) | w, m'⟩
    · rw [← form] at ended
      exact absurd ended (begun.never_returns fuel w m')
    · rw [ended] at finished
      cases finished
    · rw [ended] at finished
      cases finished
    · rw [ended] at finished
      cases finished
      obtain ⟨node, left, creator, value⟩ := sound.leaves ended
      have noCaller : (p.surroundings (.ofTracer tracer) owned world).caller?
          (machine world stage) = none :=
        congrArg (·.bind (·.caller)) (World.frame?_addFrame world _)
      obtain ⟨r, known, stack, marks⟩ := left.kept (by rw [noCaller]; rfl)
      exact ⟨boundary, site, statements, r, node, form, known, stack, marks, creator, value⟩

theorem Program.stack_mirrors_evaluation_call :
    callingSource.compile ⟨0⟩ = some callingProgram ∧ Past {} callingWorld callingStage.shadow ∧
    ∃ world' stage', callingProgram.run 20 (.ofTracer {}) [] callingWorld callingStage =
        (.finished ⟨⟨1⟩, .int 3⟩, world', stage') ∧
      ∃ r node, stage'.shadow.record? ⟨1⟩ = some r ∧ r.stack = [node] ∧
        node.value = some (.int 3) := by
  have finished : (callingProgram.run 20 (.ofTracer {}) [] callingWorld callingStage).1 =
      .finished ⟨⟨1⟩, .int 3⟩ := by decide +kernel
  have compiled : callingSource.compile ⟨0⟩ = some callingProgram := rfl
  obtain ⟨-, -, main⟩ := Program.stack_mirrors_evaluation compiled {} callingWorld callingStage
    calling_past 20 []
  refine ⟨rfl, calling_past, ?_⟩
  rcases run : callingProgram.run 20 (.ofTracer {}) [] callingWorld callingStage with
    ⟨outcome, world', stage'⟩
  rw [run] at finished
  cases finished
  obtain ⟨_, _, _, r, node, -, known, stack, -, -, value⟩ := main _ rfl rfl _ _ _ run
  exact ⟨world', stage', rfl, r, node, known, stack, value⟩

end Lineage.Toy
