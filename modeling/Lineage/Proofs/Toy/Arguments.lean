import Lineage.Proofs.Toy.StackDiscipline

/-!
# Arguments are linked to the operands that were passed

A call leaves one operand for each argument on the stack of its frame, and nobody touches that stack
while the function runs. So an argument that the function reads, however late, finds the operand that
the evaluation of the argument has left.
-/

namespace Lineage.Toy

open Shadow Tracer

variable {S : Type} {tracer : Tracer} {seen : Stage kinds S → List (Node Value) → Prop}
  {n : Nat} {s : Surroundings S} {a : Activation} {m m' : Machine S} {l : Ledger}

/-! ### Time passes in an invocation -/

/-- The second situation is later than the first, in the same invocation or in a new one. -/
structure Passes (sit next : Situation S) : Prop where
  owned : next.surroundings.owned = sit.surroundings.owned
  grows : sit.machine.world.Grows next.machine.world
  frame : next.surroundings.frame = sit.surroundings.frame ∨
    ¬ sit.machine.world.Made (.frame next.surroundings.frame)
  since : next.surroundings.frame = sit.surroundings.frame →
    Since sit.surroundings sit.machine next.machine

theorem Passes.of_since {sit next : Situation S}
    (owned : next.surroundings.owned = sit.surroundings.owned)
    (frame : next.surroundings.frame = sit.surroundings.frame)
    (since : Since sit.surroundings sit.machine next.machine) : Passes sit next :=
  ⟨owned, since.grows, .inl frame, fun _ => since⟩

/-- Surroundings of the same invocation. -/
theorem Since.congr {t : Surroundings S} (h : Since s m m') (owned : t.owned = s.owned)
    (frame : t.frame = s.frame) : Since t m m' := by
  constructor
  · exact h.grows
  · rw [owned, frame]
    exact h.spared

theorem Sound.passes_tagged {site : Site kinds} {code : Code}
    (sound : Sound tracer seen ⟨n + 1, s, .code (.tagged site code), m⟩)
    (entered : (s.report site .enter []).run.run m = (.ok (), m')) : Since s m m' := by
  rcases sound.tagged with
    ⟨a, l, id, label, traced, rfl, fit, h, piece⟩ | ⟨arguments, l, fit, h, fresh, defined⟩
  · have sim : Sim False seen _ _ m l _ fun _ _ _ => False :=
      .enter id label h fit.watches traced piece
    obtain ⟨l', -, since, -⟩ := Ends.at_run sim entered
    exact since
  · cases defined with
    | traced boundary label id bodyLabel shaped =>
      obtain ⟨stage, run, since, -⟩ := h.enterFunction boundary label fit.watches fresh
      rw [run] at entered
      cases entered
      exact since

theorem Sound.passes {sit next : Situation S} (sound : Sound tracer seen sit)
    (spawns : Spawns sit next) : Passes sit next := by
  cases spawns with
  | setLocal | addLeft | callArgs | getProperty | setPropertyValue | setGlobal | setClassVariable |
    ret | body | arg | statement => exact .of_since rfl rfl (.refl _ _)
  | addRight first =>
    obtain ⟨a, l, fit, h, piece, -⟩ := sound.untagged rfl
    cases piece with
    | add left right =>
      obtain ⟨l', done⟩ := h.ran fit left first
      exact .of_since rfl rfl done.since
  | @callFunction _ _ _ name _ values m' function first found =>
    obtain ⟨a, l, fit, h, piece, -⟩ := sound.untagged rfl
    cases piece with
    | call _ shaped =>
      obtain ⟨l', done⟩ := h.ranArgs fit shaped first
      have unmade : ¬ m'.world.Made (.frame ⟨m'.world.frames.size⟩) := Nat.lt_irrefl _
      have own := done.follows.called.made
      refine ⟨rfl, done.since.grows.trans (World.grows_addFrame _ _),
        .inr fun before => unmade (done.since.grows.made before), fun same => ?_⟩
      rw [← show _ = _ from same] at own
      exact absurd own unmade
  | setPropertyReceiver first =>
    obtain ⟨a, l, fit, h, piece, -⟩ := sound.untagged rfl
    cases piece with
    | setProperty _ value receiver =>
      obtain ⟨l', done⟩ := h.ran fit value first
      exact .of_since rfl rfl done.since
  | tagged entered => exact .of_since rfl rfl (sound.passes_tagged entered)
  | laterArgs first =>
    cases sound with
    | args fit h shaped =>
      obtain ⟨l', done⟩ := h.ran fit (shaped _ List.mem_cons_self) first
      exact .of_since rfl rfl done.since
  | laterStatements first =>
    cases sound with
    | body fit h shaped =>
      obtain ⟨l', done⟩ := h.held.ran (fit.hold _) (shaped _ List.mem_cons_self) first
      exact .of_since rfl rfl done.since.of_hold

/-- The frame has a record just where the definition that runs is traced. -/
theorem Follows.recorded_iff {exact : Prop} {values : List Value}
    (h : Follows exact seen s a values m l) :
    m.stage.shadow.record? s.frame ≠ none ↔ a.traced = true := by
  constructor
  · intro there
    cases traced : a.traced with
    | true => rfl
    | false => exact absurd (h.mirrors.untraced traced).1 there
  · intro traced
    obtain ⟨r, known, -⟩ := h.mirrors.traced traced
    rw [show m.stage.shadow.record? s.frame = some r from known]
    exact Option.some_ne_none r

theorem Sound.called {sit : Situation S} (sound : Sound tracer seen sit) :
    sit.surroundings.Called sit.machine.world := by
  cases sound with
  | code _ h _ | piece _ h _ _ | args _ h _ | body _ h _ => exact h.called
  | function begun =>
    obtain ⟨_, _, _, h, _⟩ := begun
    exact h.called

/-- A frame is not used again, so that whatever comes later on in the same frame belongs to the same
    invocation. -/
theorem Sound.passes_within {start sit : Situation S} (sound : Sound tracer seen start)
    (within : Within start sit) : Passes start sit := by
  induction within with
  | start => exact .of_since rfl rfl (.refl _ _)
  | later inside spawns ih =>
    have step := (sound.within inside).passes spawns
    have later : ∀ {f}, start.machine.world.Made (.frame f) → _ := fun made => ih.grows.made made
    refine ⟨step.owned.trans ih.owned, ih.grows.trans step.grows, ?_, fun same => ?_⟩
    · rcases step.frame with same | unmade
      · rw [same]
        exact ih.frame
      · exact .inr fun made => unmade (later made)
    · rcases step.frame with still | unmade
      · have before := still.symm.trans same
        exact (ih.since before).trans ((step.since still).congr ih.owned.symm before.symm)
      · exact absurd (later (same ▸ sound.called.made)) unmade

/-- The record of the caller stays as it is. -/
theorem Since.caller_kept (since : Since s m m') (called : s.Called m.world) {caller : FrameId}
    (isCaller : s.caller? m = some caller) :
    m'.stage.shadow.record? caller = m.stage.shadow.record? caller := by
  obtain ⟨frame, here, callers⟩ := called
  have calledBy : frame.caller = some caller := by
    rw [← isCaller, Surroundings.caller?, here]
    rfl
  obtain ⟨ne, made⟩ := callers caller calledBy
  refine (since.spared caller made ne).content?_eq fun gone => gone ?_
  exact .caller (.direct (List.mem_append_right _ (List.mem_singleton.mpr rfl))) here calledBy

/-! ### The operands of a call -/

/-- On its way through some arguments the evaluator comes to the one of the given number. -/
inductive Argument : Nat → Situation S → Situation S → Prop
  | first {n s m code rest} :
      Argument 0 ⟨n + 1, s, .args (code :: rest), m⟩ ⟨n, s, .code code, m⟩
  | later {n s m code rest v m' i sit} (ran : (eval n s code).run.run m = (.ok v, m'))
      (h : Argument i ⟨n, s.hold [v], .args rest, m'⟩ sit) :
      Argument (i + 1) ⟨n + 1, s, .args (code :: rest), m⟩ sit

/-- The evaluation of argument `i` of `args` has left `origin` on the stack of the frame. -/
def LeftBy (i n : Nat) (s : Surroundings S) (args : List Code) (m : Machine S)
    (origin : Node Value) : Prop :=
  ∃ k t code mi v mi', args[i]? = some code ∧
    Argument i ⟨n, s, .args args, m⟩ ⟨k, t, .code code, mi⟩ ∧
    (eval k t code).run.run mi = (.ok v, mi') ∧ Gained s.frame mi mi' [origin] ∧
    origin.value = some v

/-- The operands that arguments leave, the last argument on top. -/
theorem Follows.arguments_left {args : List Code} {values : List Value} (fit : Fit tracer seen s)
    (h : Follows False seen s a [] m l) (shaped : ∀ c ∈ args, c.Shaped s.program.scope a.traced)
    (ran : (evalArgs n s args).run.run m = (.ok values, m')) (traced : a.traced = true) (i : Nat)
    (v : Value) (passed : values[i]? = some v) :
    ∃ r origin, m'.stage.shadow.record? s.frame = some r ∧
      r.stack[values.length - (i + 1)]? = some origin ∧ LeftBy i n s args m origin := by
  induction n generalizing s args values m l i with
  | zero =>
    rw [evalArgs_zero] at ran
    cases ran
  | succ n ih =>
    cases args with
    | nil =>
      unfold evalArgs at ran
      cases ran
      cases passed
    | cons code rest =>
      unfold evalArgs at ran
      rw [run_bind] at ran
      rcases first : (eval n s code).run.run m with ⟨e | w, m₁⟩
      · rw [first] at ran
        cases ran
      · rw [first] at ran
        dsimp only at ran
        rw [run_bind] at ran
        rcases others : (evalArgs n (s.hold [w]) rest).run.run m₁ with ⟨e | ws, m₂⟩
        · rw [others] at ran
          cases ran
        · rw [others] at ran
          cases ran
          obtain ⟨l₁, done⟩ := h.ran fit (shaped _ List.mem_cons_self) first
          have laterShaped : ∀ c ∈ rest, c.Shaped s.program.scope a.traced := fun c mem =>
            shaped c (List.mem_cons_of_mem _ mem)
          cases i with
          | zero =>
            obtain rfl : w = v := Option.some.inj passed
            obtain ⟨node, one, value, -⟩ := done.pushed traced
            obtain ⟨l₂, rest⟩ := done.follows.held.ranArgs (fit.hold [w]) laterShaped others
            obtain ⟨nodes, operands, inOrder⟩ := rest.pushed traced
            obtain ⟨r, known, stack, -⟩ := rest.follows.mirrors.traced traced
            have length : nodes.length = ws.length := by
              have same := congrArg List.length inOrder
              simpa using same
            refine ⟨r, node, known, ?_, n, s, code, m, w, m₁, rfl, .first, first,
              h.gained done.follows traced one, value⟩
            rw [stack, operands, one, List.length_cons, Nat.zero_add, Nat.add_sub_cancel, ← length]
            simp
          | succ i =>
            obtain ⟨r, origin, known, there, k, t, c, mi, v', mi', isCode, argument, rest⟩ :=
              ih (fit.hold [w]) done.follows.held laterShaped others i passed
            refine ⟨r, origin, known, ?_, k, t, c, mi, v', mi', isCode, .later first argument, rest⟩
            rwa [List.length_cons, Nat.add_sub_add_right]

/-! ### Reading an argument -/

/-- What the node of an argument comes from: the operand that the caller has left for it, or nothing
    known if the caller has no record. -/
def ArgumentOrigin (caller : Option (Record Value)) (count index next : Nat) (node : Node Value) :
    Prop :=
  match caller with
  | none => node.origins = [.unknown next]
  | some r => ∃ origin, r.stack[count - (index + 1)]? = some origin ∧ node.origins = [origin]

/-- The node has been pushed for an argument, and nothing else has been done. -/
def Bound (p : Place) (frame : Frame) (site : Site kinds) (index : Nat) (value : Value)
    (t u : Shadow kinds) : Prop :=
  ∃ node next, OnRecord p.host.MayDrop p.frame t u ((t.recordOf p.frame).push node) next ∧
    node.creator = creatorOf site ∧ node.value = some value ∧
    ArgumentOrigin (frame.caller.bind t.record?) frame.args.length index t.nextSeq node

variable {p : Place} {t : Shadow kinds} {exact : Prop} {id : SiteId} {label : String} {index : Nat}
  {outer : List (Node Value)} {value : Value} {frame : Frame}

theorem applyLeave_argument (h : Mirrors exact p (a.inside id (.arg index) outer) t l)
    (here : p.world.frame? p.frame = some frame) (bound : index < frame.args.length) :
    Ends (applyLeave tracer p.host (siteOf p.scope id label (.arg index)) p.frame value
      .useArgDefStack) t fun r u =>
        r = .ok () ∧ Bound p frame (siteOf p.scope id label (.arg index)) index value t u := by
  obtain ⟨-, enough⟩ := h.passed frame here
  have caller : callerRecord? p.host t p.frame = frame.caller.bind t.record? := by
    unfold callerRecord? Place.host World.host
    simp only [here, Option.bind_some]
  have count : argumentTotal p.host p.frame ⟨index, .fromFrame⟩ = frame.args.length := by
    unfold argumentTotal Place.host World.host
    simp only [here, Option.map_some, Option.getD_some]
  have rule : Ends (applyLeave tracer p.host (siteOf p.scope id label (.arg index)) p.frame value
      .useArgDefStack) t _ := leave_bindArgument h.sane ⟨index, .fromFrame⟩ rfl
  rw [caller, count] at rule
  refine rule.mono fun r u done => ?_
  unfold Bound
  cases recorded : frame.caller.bind t.record? with
  | none =>
    rw [recorded] at done
    obtain ⟨rfl, on⟩ := done
    exact ⟨rfl, _, _, on, rfl, rfl, rfl⟩
  | some callerRecord =>
    rw [recorded] at done
    have long := enough callerRecord recorded
    have there : callerRecord.stack[frame.args.length - (index + 1)]? =
        some (callerRecord.stack.get ⟨frame.args.length - (index + 1), by omega⟩) :=
      List.getElem?_eq_getElem (by omega)
    simp only [Record.peekAt, there] at done
    obtain ⟨rfl, on⟩ := done
    exact ⟨rfl, _, _, on, rfl, rfl, _, there, rfl⟩

theorem leave_argument (id : SiteId) (label : String) (value : Value)
    (h : Mirrors exact p (a.inside id (.arg index) outer) t l)
    (here : p.world.frame? p.frame = some frame) (bound : index < frame.args.length) :
    Ends (tracer.leave p.host (siteOf p.scope id label (.arg index)) p.frame value) t fun r u =>
      r = .ok () ∧ Bound p frame (siteOf p.scope id label (.arg index)) index value t u := by
  have only : (siteOf p.scope id label (.arg index)).categories.toList = [.useArgDefStack] := rfl
  unfold leave
  rw [ends_bind, ShadowM.ends_note]
  dsimp only
  rw [ends_applyRules_one only]
  have same : SameState t (t.note .trace "router return" (Checkpoint.siteFields
    (siteOf p.scope id label (.arg index)) ++ [("value", kinds.inspect value)])) := ⟨rfl, rfl⟩
  refine (applyLeave_argument (h.same same) here bound).mono ?_
  rintro r u ⟨rfl, node, next, on, rest⟩
  exact ⟨rfl, node, next, on.same_trans same, rest⟩

/-- A tagged expression that comes to a value, none of its checkpoints being refused. -/
theorem run_tagged {site : Site kinds} {code : Code} {v : Value} {m₁ m₂ m₃ : Machine S}
    (enter : (s.report site .enter []).run.run m = (.ok (), m₁))
    (inner : (eval n s code).run.run m₁ = (.ok v, m₂))
    (leave : (s.report site (.leave v) [v]).run.run m₂ = (.ok (), m₃)) :
    (eval (n + 1) s (.tagged site code)).run.run m = (.ok v, m₃) := by
  unfold eval
  dsimp only
  rw [run_bind, enter]
  dsimp only
  rw [run_bind, run_tryCatch, inner]
  dsimp only
  rw [run_bind, leave]
  rfl

/-- Wherever an invocation has come to, the evaluation of one of its arguments comes to the value
    that was passed, and pushes one node for it. -/
theorem Sound.binds {site : Site kinds} {k : Nat} {v : Value}
    (sound : Sound tracer seen ⟨k + 2, s, .code (.tagged site (.arg index)), m⟩)
    (here : m.world.frame? s.frame = some frame) (passed : frame.args[index]? = some v) :
    ∃ m' node, (eval (k + 2) s (.tagged site (.arg index))).run.run m = (.ok v, m') ∧
      Since s m m' ∧ Gained s.frame m m' [node] ∧ node.creator = creatorOf site ∧
      node.value = some v ∧ ArgumentOrigin (frame.caller.bind m.stage.shadow.record?)
        frame.args.length index m.stage.shadow.nextSeq node := by
  have inRange := (List.getElem?_eq_some_iff.mp passed).1
  rcases sound.tagged with
    ⟨a, l, id, label, traced, rfl, fit, h, piece⟩ | ⟨_, _, _, _, _, defined⟩
  case inr => cases defined
  case inl =>
    obtain ⟨record, found, stack, marks, -⟩ := h.mirrors.traced traced
    obtain ⟨stage₁, enter, ⟨spared₁, mirrors₁⟩, reaction₁, graph₁⟩ := h.checkpoint fit.watches
      (siteOf s.program.scope id label (.arg index)) .enter (fun p u =>
        p.Spared m.stage.shadow u ∧ Mirrors False p (a.inside id (.arg index) l.operands) u
          { l with operands := [] }) nofun fun kept mirrors _ =>
        (enter_piece id label mirrors (Surroundings.place_sound h.called kept) traced piece :)
    have inside := h.report fit.watches reaction₁ mirrors₁ graph₁ ⟨rfl, rfl, rfl⟩
      (fun _ mem => mem) (fun _ mem => .inl mem) rfl
    have follows : Follows False seen s (a.inside id (.arg index) l.operands) [v] _ _ :=
      inside.holding fun w mem => by
        rw [List.mem_singleton.mp mem]
        exact World.holdsValue_argument (Surroundings.holds_handle (by simp)) here passed
    obtain ⟨stage₂, leave, bound, -⟩ := run_report (.leave v) [v] fit.watches
      (leave_argument id label v follows.mirrors here inRange)
    have inner : (eval (k + 1) s (.arg index)).run.run { m with stage := stage₁ } =
        (.ok v, { m with stage := stage₁ }) := by
      unfold eval
      dsimp only
      rw [run_bind, run_get]
      dsimp only
      rw [here]
      dsimp only
      rw [passed]
      rfl
    obtain ⟨node, next, on, creator, value, origin⟩ := bound
    have since₁ : Since s m { m with stage := stage₁ } := .of_spared spared₁ rfl
    have since₂ : Since s { m with stage := stage₁ } { m with stage := stage₂ } :=
      .of_spared (Place.spared_of_rebinds on.frames) rfl
    obtain ⟨r₁, found₁, stack₁, marks₁, -⟩ := mirrors₁.traced traced
    refine ⟨_, node, run_tagged enter inner leave, since₁.trans since₂, ?_, creator, value, ?_⟩
    · refine ⟨record, r₁.push node, found, ?_, ?_, ?_⟩
      · rw [← recordOf_eq found₁]
        exact on.record?
      · rw [stack]
        exact congrArg (node :: ·) stack₁
      · exact marks₁.trans marks.symm
    · have isCaller : s.caller? m = frame.caller := by
        rw [Surroundings.caller?, here]
        rfl
      have kept : frame.caller.bind stage₁.shadow.record? =
          frame.caller.bind m.stage.shadow.record? := by
        cases called : frame.caller with
        | none => rfl
        | some caller => exact since₁.caller_kept h.called (isCaller.trans called)
      have next : stage₁.shadow.nextSeq = m.stage.shadow.nextSeq :=
        mirrors₁.next.symm.trans h.mirrors.next
      rw [← kept, ← next]
      exact origin

/-! ### Runs of programs -/

/-- An argument is read while an invocation is under way that `args` have been passed to: one node is
    pushed, and the stack of the caller stays as it is. The only origin of the node is what the
    argument expression has left on that stack, or unknown if the caller has none. -/
structure Linked (n : Nat) (s : Surroundings S) (args : List Code) (m : Machine S)
    (t : Surroundings S) (site : Site kinds) (index : Nat) (v : Value) (before after : Machine S)
    (node : Node Value) : Prop where
  gained : Gained t.frame before after [node]
  creator : node.creator = creatorOf site
  value : node.value = some v
  caller : after.stage.shadow.record? s.frame = before.stage.shadow.record? s.frame
  traced : m.stage.shadow.record? s.frame ≠ none →
    ∃ origin, node.origins = [origin] ∧ LeftBy index n s args m origin
  untraced : m.stage.shadow.record? s.frame = none →
    node.origins = [.unknown before.stage.shadow.nextSeq]

/-- Whatever calls a function, with whatever it passes, and however far the invocation has come: an
    argument that is read is linked to the operand that was passed. -/
theorem Program.arguments_linked {source : Source} {scope : ScopeId} {p : Program}
    (compiled : source.compile scope = some p) (tracer : Tracer) (world : World)
    (stage : Stage kinds S) (past : Past tracer world stage.shadow) (fuel : Nat)
    (owned : List Entity) (n : Nat) (s : Surroundings S) (name : String) (args : List Code)
    (m m' : Machine S) (values : List Value) (function : Code)
    (call : Within (p.situation fuel (.ofTracer tracer) owned world stage)
      ⟨n + 1, s, .code (.call name args), m⟩)
    (ran : (evalArgs n s args).run.run m = (.ok values, m'))
    (found : s.program.functions.get? name = some function)
    (k : Nat) (t : Surroundings S) (site : Site kinds) (index : Nat) (before : Machine S)
    (within : Within ⟨n, s.callee m', .code function, s.calling m' name values⟩
      ⟨k + 2, t, .code (.tagged site (.arg index)), before⟩)
    (same : t.frame = (s.callee m').frame) (v : Value) (passed : values[index]? = some v) :
    ∃ after node,
      (eval (k + 2) t (.tagged site (.arg index))).run.run before = (.ok v, after) ∧
      Linked n s args m t site index v before after node := by
  have begun := Program.begun (Source.wellTagged_of_compile compiled).1 (watches_ofTracer tracer)
    owned past
  have sound : Sound tracer (fun _ _ => True)
      (p.situation fuel (.ofTracer tracer) owned world stage) := .function begun
  have calls := sound.within call
  have callee := calls.spawns (.callFunction ran found)
  have passes := callee.passes_within within
  -- the invocation is the one that the call has made
  have here : before.world.frame? t.frame = some (s.invocation name values) := by
    rw [same]
    exact passes.grows _ _ (World.frame?_addFrame m'.world (s.invocation name values))
  obtain ⟨after, node, run, since, gained, creator, value, origin⟩ :=
    (callee.within within).binds here passed
  have calledBy : t.caller? before = some s.frame := by
    rw [Surroundings.caller?, here]
    rfl
  have calledAtFirst : (s.callee m').caller? (s.calling m' name values) = some s.frame :=
    congrArg (·.bind (·.caller)) (World.frame?_addFrame m'.world (s.invocation name values))
  have kept : before.stage.shadow.record? s.frame = m'.stage.shadow.record? s.frame :=
    (passes.since same).caller_kept callee.called calledAtFirst
  have fromCaller : ArgumentOrigin (m'.stage.shadow.record? s.frame) values.length index
      before.stage.shadow.nextSeq node := kept ▸ origin
  obtain ⟨a, l, fit, h, piece, -⟩ := calls.untagged rfl
  cases piece with
  | call _ shaped =>
    obtain ⟨l', done⟩ := h.ranArgs fit shaped ran
    refine ⟨after, node, run, gained, creator, value,
      since.caller_kept (callee.within within).called calledBy, fun recorded => ?_, fun absent => ?_⟩
    · obtain ⟨r, left, known, there, leftBy⟩ :=
        h.arguments_left fit shaped ran (h.recorded_iff.mp recorded) index v passed
      rw [known] at fromCaller
      obtain ⟨bound, there', only⟩ := fromCaller
      obtain rfl : left = bound := Option.some.inj (there.symm.trans there')
      exact ⟨left, only, leftBy⟩
    · have untraced : ¬ a.traced = true := fun traced => h.recorded_iff.mpr traced absent
      have still : m'.stage.shadow.record? s.frame = none :=
        (done.follows.mirrors.untraced (Bool.eq_false_iff.mpr untraced)).1
      rwa [still] at fromCaller

theorem Spawns.enter {site : Site kinds} {code : Code}
    (accepted : ((s.report site .enter []).run.run m).1 = .ok ()) :
    Spawns ⟨n + 1, s, .code (.tagged site code), m⟩
      ⟨n, s, .code code, ((s.report site .enter []).run.run m).2⟩ :=
  .tagged (Prod.ext accepted rfl)

theorem Program.arguments_linked_call :
    callingSource.compile ⟨0⟩ = some callingProgram ∧ Past {} callingWorld callingStage.shadow ∧
    ∃ (n k : Nat) (s t : Surroundings Unit) (args : List Code) (m before after : Machine Unit)
      (site : Site kinds) (node origin : Node Value),
      Within (callingProgram.situation 20 (.ofTracer {}) [] callingWorld callingStage)
        ⟨n + 1, s, .code (.call "f" args), m⟩ ∧
      (m.stage.shadow.record? s.frame).isSome = true ∧
      (eval (k + 2) t (.tagged site (.arg 0))).run.run before = (.ok (.int 1), after) ∧
      Gained t.frame before after [node] ∧ node.origins = [origin] ∧
      LeftBy 0 n s args m origin := by
  have compiled : callingSource.compile ⟨0⟩ = some callingProgram := rfl
  have self : ∀ {start sit : Situation Unit}, Within start sit → Within sit sit := fun _ => .start
  have begins : Within (callingProgram.situation 20 (.ofTracer {}) [] callingWorld callingStage) _ :=
    .start
  -- the statement of the main part
  have main := ((begins.later (Spawns.enter (n := 19) (by with_unfolding_all rfl))).later
    (Spawns.enter (n := 18) (by with_unfolding_all rfl))).later .body
  have call := (main.later .statement).later (Spawns.enter (n := 15) (by with_unfolding_all rfl))
  have invoked := call.later (.callFunction
    (Prod.ext (show _ = Except.ok [Value.int 1] by with_unfolding_all rfl) rfl)
    (by with_unfolding_all rfl))
  -- the prologue of the function
  have body := (((self invoked).later (Spawns.enter (n := 13) (by with_unfolding_all rfl))).later
    (Spawns.enter (n := 12) (by with_unfolding_all rfl))).later .body
  have prologue := ((body.later .statement).later
    (Spawns.enter (n := 9) (by with_unfolding_all rfl))).later .setLocal
  obtain ⟨after, node, run, linked⟩ := Program.arguments_linked compiled {} callingWorld callingStage
    calling_past 20 [] _ _ _ _ _ _ _ _ call (Prod.ext (by with_unfolding_all rfl) rfl)
    (by with_unfolding_all rfl) _ _ _ 0 _ prologue rfl (.int 1) rfl
  obtain ⟨origin, only, left⟩ :=
    linked.traced (Option.isSome_iff_ne_none.mp (by with_unfolding_all rfl))
  exact ⟨rfl, calling_past, _, _, _, _, _, _, _, after, _, node, origin, call,
    by with_unfolding_all rfl, run, linked.gained, only, left⟩

end Lineage.Toy
