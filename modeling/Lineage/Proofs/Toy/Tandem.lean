import Lineage.Proofs.Toy.Situations

/-!
# Two runs of one program

A program runs next to one listener and, again, next to another. What it computes does not depend on
what the listeners work on, so the runs go side by side until a listener of the second run refuses a
checkpoint that the first accepts; then the second run is over, and the first goes on alone.

`R` relates what the two listeners work on as long as the runs go side by side, and `D` what the first
works on with how the second run has ended: `Tandem`. It is enough that single checkpoints keep to this
(`Escorts`).
-/

namespace Lineage

/-- The stage once an event has been logged. -/
def Stage.noted {K : Kinds} {S : Type} (stage : Stage K S) (severity : Severity) (message : String)
    (fields : Fields) : Stage K S :=
  { stage with shadow := stage.shadow.note severity message fields }

namespace Toy

variable {S T : Type} {R : Stage kinds S → Stage kinds T → Prop}
  {D : Stage kinds S → Fault → Stage kinds T → Prop}

/-- The machines differ in their stages at most, and `R` relates these. -/
structure Machine.Alike (R : Stage kinds S → Stage kinds T → Prop) (m : Machine S) (n : Machine T) :
    Prop where
  world : n.world = m.world
  globals : n.globals = m.globals
  locals : n.locals = m.locals
  stage : R m.stage n.stage

/-- The same surroundings with another listener. -/
def Surroundings.beside (s : Surroundings S) (listener : Listener kinds T) : Surroundings T where
  program := s.program
  listener
  owned := s.owned
  frame := s.frame
  held := s.held

/-- A value on its way out of a tagged piece of code is reported. -/
def Surroundings.unwinding (s : Surroundings S) (site : Site kinds) : Interrupt → EvalM S Value
  | .returning v => do
      s.report site (.unwind (returnText v)) [v]
      throw (.returning v)
  | other => throw other

/-- How two runs have ended: alike, or the second with a refusal. -/
inductive Ended {α : Type} (R : Stage kinds S → Stage kinds T → Prop)
    (D : Stage kinds S → Fault → Stage kinds T → Prop) :
    Except Interrupt α × Machine S → Except Interrupt α × Machine T → Prop
  | alike {r : Except Interrupt α} {m : Machine S} {n : Machine T} (h : m.Alike R n) :
      Ended R D (r, m) (r, n)
  | refused {r : Except Interrupt α} {m : Machine S} {n : Machine T} {fault : Fault}
      (h : D m.stage fault n.stage) :
      Ended R D (r, m) (.error (.failing (.refused fault)), n)

/-- The second listener answers what the first does, or refuses; after that the first goes on in `D`. -/
structure Escorts (R : Stage kinds S → Stage kinds T → Prop)
    (D : Stage kinds S → Fault → Stage kinds T → Prop) (l : Listener kinds S)
    (l' : Listener kinds T) : Prop where
  both : ∀ host c stage stage', R stage stage' →
    let (answer, after) := (l.react host c).run.run stage
    let (answer', after') := (l'.react host c).run.run stage'
    answer' = answer ∧ R after after' ∨ ∃ fault, answer' = .error fault ∧ D after fault after'
  first : ∀ host c stage fault stage', D stage fault stage' →
    D ((l.react host c).run.run stage).2 fault stage'
  noted : ∀ severity message fields stage stage', R stage stage' →
    R (stage.noted severity message fields) (stage'.noted severity message fields)
  notedFirst : ∀ severity message fields stage fault stage', D stage fault stage' →
    D (stage.noted severity message fields) fault stage'

/-- The two pieces of work go side by side, and the first alone keeps to `D`. -/
structure Tandem {α : Type} (R : Stage kinds S → Stage kinds T → Prop)
    (D : Stage kinds S → Fault → Stage kinds T → Prop) (work : EvalM S α) (work' : EvalM T α) :
    Prop where
  both : ∀ m n, m.Alike R n → Ended R D (work.run.run m) (work'.run.run n)
  first : ∀ m fault stage', D m.stage fault stage' → D (work.run.run m).2.stage fault stage'

namespace Tandem

variable {α β : Type} {work : EvalM S α} {work' : EvalM T α}

theorem pure (a : α) : Tandem R D (Pure.pure a : EvalM S α) (Pure.pure a) :=
  ⟨fun _ _ h => .alike h, fun _ _ _ h => h⟩

theorem throw (e : Interrupt) :
    Tandem R D (MonadExcept.throw e : EvalM S α) (MonadExcept.throw e) :=
  ⟨fun _ _ h => .alike h, fun _ _ _ h => h⟩

theorem bind {next : α → EvalM S β} {next' : α → EvalM T β} (h : Tandem R D work work')
    (later : ∀ a, Tandem R D (next a) (next' a)) : Tandem R D (work >>= next) (work' >>= next') := by
  constructor
  · intro m n alike
    have ended := h.both m n alike
    rw [run_bind, run_bind]
    revert ended
    generalize work.run.run m = ran
    generalize work'.run.run n = ran'
    intro ended
    cases ended with
    | @alike r m n alike =>
      cases r with
      | error e => exact .alike alike
      | ok a => exact (later a).both m n alike
    | @refused r m n fault ended =>
      cases r with
      | error e => exact .refused ended
      | ok a => exact .refused ((later a).first m fault n.stage ended)
  · intro m fault stage' ended
    have after := h.first m fault stage' ended
    rw [run_bind]
    revert after
    rcases work.run.run m with ⟨e | a, m'⟩
    · exact id
    · exact fun ended => (later a).first m' fault stage' ended

/-- Work that leaves the stage alone. -/
theorem quiet (ran : World → Dict String Value → Dict String Value →
      Except Interrupt α × World × Dict String Value × Dict String Value)
    (h : ∀ world stage globals locals, work.run.run ⟨world, stage, globals, locals⟩ =
      let (r, world, globals, locals) := ran world globals locals
      (r, ⟨world, stage, globals, locals⟩))
    (h' : ∀ world stage globals locals, work'.run.run ⟨world, stage, globals, locals⟩ =
      let (r, world, globals, locals) := ran world globals locals
      (r, ⟨world, stage, globals, locals⟩)) : Tandem R D work work' := by
  constructor
  · intro ⟨world, stage, globals, locals⟩ ⟨_, stage', _, _⟩ ⟨same, same', same'', related⟩
    cases same
    cases same'
    cases same''
    rw [h, h']
    exact .alike ⟨rfl, rfl, rfl, related⟩
  · intro ⟨world, stage, globals, locals⟩ fault stage' ended
    rw [h]
    exact ended

theorem tryCatch (handle : Interrupt → EvalM S α) (handle' : Interrupt → EvalM T α)
    (h : Tandem R D work work') (handled : ∀ e, Tandem R D (handle e) (handle' e))
    (passes : ∀ fault, handle' (.failing (.refused fault)) = MonadExcept.throw (.failing (.refused fault))) :
    Tandem R D (MonadExcept.tryCatch work handle) (MonadExcept.tryCatch work' handle') := by
  constructor
  · intro m n alike
    have ended := h.both m n alike
    rw [run_tryCatch, run_tryCatch]
    revert ended
    generalize work.run.run m = ran
    generalize work'.run.run n = ran'
    intro ended
    cases ended with
    | @alike r m n alike =>
      cases r with
      | error e => exact (handled e).both m n alike
      | ok a => exact .alike alike
    | @refused r m n fault ended =>
      dsimp only
      rw [passes]
      cases r with
      | error e => exact .refused ((handled e).first m fault n.stage ended)
      | ok a => exact .refused ended
  · intro m fault stage' ended
    have after := h.first m fault stage' ended
    rw [run_tryCatch]
    revert after
    rcases work.run.run m with ⟨e | a, m'⟩
    · exact fun ended => (handled e).first m' fault stage' ended
    · exact id

theorem withFreshLocals (h : Tandem R D work work') :
    Tandem R D (Toy.withFreshLocals work) (Toy.withFreshLocals work') := by
  constructor
  · intro m n alike
    have ended := h.both { m with locals := {} } { n with locals := {} }
      ⟨alike.world, alike.globals, rfl, alike.stage⟩
    change Ended R D ((work.run.run { m with locals := {} }).1,
        { (work.run.run { m with locals := {} }).2 with locals := m.locals })
      ((work'.run.run { n with locals := {} }).1,
        { (work'.run.run { n with locals := {} }).2 with locals := n.locals })
    revert ended
    generalize work.run.run { m with locals := {} } = ran
    generalize work'.run.run { n with locals := {} } = ran'
    intro ended
    cases ended with
    | alike after => exact .alike ⟨after.world, after.globals, alike.locals, after.stage⟩
    | refused ended => exact .refused ended
  · exact fun m => h.first { m with locals := {} }

theorem noteCall (noted : ∀ severity message fields stage stage', R stage stage' →
      R (stage.noted severity message fields) (stage'.noted severity message fields))
    (notedFirst : ∀ severity message fields stage fault stage', D stage fault stage' →
      D (stage.noted severity message fields) fault stage') (name : String) (count : Nat) :
    Tandem R D (Toy.noteCall name count) (Toy.noteCall name count) where
  both _ _ h := .alike ⟨h.world, h.globals, h.locals, noted _ _ _ _ _ h.stage⟩
  first m fault stage' ended := notedFirst _ _ _ m.stage fault stage' ended

end Tandem

theorem Surroundings.shares_beside (s : Surroundings S) (l' : Listener kinds T) {m : Machine S}
    {n : Machine T} (alike : m.Alike R n) (values : List Value) :
    (s.beside l').shares n values = s.shares m values := by
  unfold shares
  rw [alike.globals, alike.locals]
  rfl

section

variable {l' : Listener kinds T} {s : Surroundings S} (escorts : Escorts R D s.listener l')

include escorts

/-- Two listeners told of the same checkpoint. -/
theorem tandem_report (site : Site kinds) (moment : Moment Value) (values : List Value) :
    Tandem R D (s.report site moment values) ((s.beside l').report site moment values) := by
  constructor
  · intro m n alike
    have both := escorts.both (s.place m values).host ⟨site, s.frame, moment⟩ m.stage n.stage
      alike.stage
    have same : ((s.beside l').place n values).host = (s.place m values).host := by
      change n.world.host ((s.beside l').shares n values) [] = m.world.host (s.shares m values) []
      rw [s.shares_beside l' alike, alike.world]
    rcases told : (s.listener.react (s.place m values).host ⟨site, s.frame, moment⟩).run.run
      m.stage with ⟨answer, after⟩
    rcases told' : (l'.react (s.place m values).host ⟨site, s.frame, moment⟩).run.run
      n.stage with ⟨answer', after'⟩
    rw [told, told'] at both
    rw [run_report_of told, run_report_of (s := s.beside l') (same ▸ told')]
    rcases both with ⟨agree, related⟩ | ⟨fault, refused, ended⟩
    · subst agree
      exact .alike ⟨alike.world, alike.globals, alike.locals, related⟩
    · subst refused
      exact .refused ended
  · intro m fault stage' ended
    exact escorts.first _ _ m.stage fault stage' ended

end

/-! ### Code of any form -/

/-- The argument that code in a frame finds at an index. -/
def argument (frame? : Option Frame) (index : Nat) : Except Interrupt Value :=
  match frame? with
  | none => .ok .nil
  | some frame => match frame.args[index]? with
    | some v => .ok v
    | none => .error (.failing (.noArgument frame.name index))

theorem run_arg {n : Nat} (s : Surroundings S) (index : Nat) (world : World) (stage : Stage kinds S)
    (globals locals : Dict String Value) :
    (eval (n + 1) s (.arg index)).run.run ⟨world, stage, globals, locals⟩ =
      (argument (world.frame? s.frame) index, ⟨world, stage, globals, locals⟩) := by
  unfold argument
  refine (run_bind get _ _).trans ?_
  rw [run_get]
  dsimp only
  cases world.frame? s.frame with
  | none => rfl
  | some frame =>
    dsimp only
    cases frame.args[index]? <;> rfl

/-- For so many steps the second listener makes no other difference. -/
structure SideBySide (R : Stage kinds S → Stage kinds T → Prop)
    (D : Stage kinds S → Fault → Stage kinds T → Prop) (l : Listener kinds S)
    (l' : Listener kinds T) (n : Nat) : Prop where
  code : ∀ (s : Surroundings S) code, s.listener = l →
    Tandem R D (eval n s code) (eval n (s.beside l') code)
  args : ∀ (s : Surroundings S) args, s.listener = l →
    Tandem R D (evalArgs n s args) (evalArgs n (s.beside l') args)
  body : ∀ (s : Surroundings S) last statements, s.listener = l →
    Tandem R D (evalBody n s last statements) (evalBody n (s.beside l') last statements)

section

variable {l : Listener kinds S} {l' : Listener kinds T} {n : Nat} (escorts : Escorts R D l l')
  (ih : SideBySide R D l l' n) (s : Surroundings S) (told : s.listener = l)

include escorts ih told

theorem tandem_called (name : String) (values : List Value) :
    Tandem R D (do
      let some function := s.program.functions.get? name
        | throw (.failing (.undefinedFunction name))
      let m ← get
      let (frame, world) := m.world.addFrame { name, caller := some s.frame, args := values }
      set { m with world }
      noteCall name values.length
      withFreshLocals (eval n { s.hold m.locals.values with frame } function))
    (do
      let some function := s.program.functions.get? name
        | throw (.failing (.undefinedFunction name))
      let m ← get
      let (frame, world) := m.world.addFrame { name, caller := some s.frame, args := values }
      set { m with world }
      noteCall name values.length
      withFreshLocals (eval n { (s.beside l').hold m.locals.values with frame } function)) := by
  cases s.program.functions.get? name with
  | none => exact .throw _
  | some function =>
    have called := fun (world : World) (locals : Dict String Value) =>
      (Tandem.noteCall escorts.noted escorts.notedFirst name values.length).bind fun _ =>
        Tandem.withFreshLocals (ih.code { s.hold locals.values with
          frame := (world.addFrame { name, caller := some s.frame, args := values }).1 } function told)
    constructor
    · intro ⟨world, stage, globals, locals⟩ ⟨_, stage', _, _⟩ ⟨same, same', same'', related⟩
      cases same
      cases same'
      cases same''
      exact (called world locals).both { world := (world.addFrame _).2, stage, globals, locals }
        { world := (world.addFrame _).2, stage := stage', globals, locals } ⟨rfl, rfl, rfl, related⟩
    · intro m
      exact (called m.world m.locals).first
        { m with world := (m.world.addFrame { name, caller := some s.frame, args := values }).2 }

theorem tandem_tagged (site : Site kinds) (code : Code) :
    Tandem R D (eval (n + 1) s (.tagged site code)) (eval (n + 1) (s.beside l') (.tagged site code)) := by
  have escorts : Escorts R D s.listener l' := told ▸ escorts
  have inside : Tandem R D (tryCatch (eval n s code) (s.unwinding site))
      (tryCatch (eval n (s.beside l') code) ((s.beside l').unwinding site)) := by
    apply Tandem.tryCatch _ _ (ih.code s code told) _ fun _ => by rfl
    intro e
    cases e with
    | returning v => exact (tandem_report escorts site _ _).bind fun _ => .throw _
    | _ => exact .throw _
  apply (tandem_report escorts site .enter []).bind
  intro _
  apply inside.bind
  intro v
  exact (tandem_report escorts site (.leave v) [v]).bind fun _ => .pure v

theorem tandem_code (code : Code) :
    Tandem R D (eval (n + 1) s code) (eval (n + 1) (s.beside l') code) := by
  cases code with
  | tagged site code => exact tandem_tagged escorts ih s told site code
  | int | str | nil => exact .pure _
  | new className =>
    exact .quiet (fun world globals locals =>
      (.ok (.object world.addObject.1 className), world.addObject.2, globals, locals))
      (fun _ _ _ _ => rfl) fun _ _ _ _ => rfl
  | getLocal name =>
    exact .quiet (fun world globals locals => (.ok (locals.getD name .nil), world, globals, locals))
      (fun _ _ _ _ => rfl) fun _ _ _ _ => rfl
  | getGlobal name =>
    exact .quiet (fun world globals locals => (.ok (globals.getD name .nil), world, globals, locals))
      (fun _ _ _ _ => rfl) fun _ _ _ _ => rfl
  | getClassVariable name =>
    exact .quiet (fun world globals locals =>
      (.ok (world.classVariable s.program.scope name), world, globals, locals))
      (fun _ _ _ _ => rfl) fun _ _ _ _ => rfl
  | setLocal name value =>
    apply (ih.code s value told).bind
    exact fun v => .quiet (fun world globals locals => (.ok v, world, globals, locals.set name v))
      (fun _ _ _ _ => rfl) fun _ _ _ _ => rfl
  | setGlobal name value =>
    apply (ih.code s value told).bind
    exact fun v => .quiet (fun world globals locals => (.ok v, world, globals.set name v, locals))
      (fun _ _ _ _ => rfl) fun _ _ _ _ => rfl
  | setClassVariable name value =>
    apply (ih.code s value told).bind
    exact fun v => .quiet (fun world globals locals =>
      (.ok v, world.setClassVariable s.program.scope name v, globals, locals))
      (fun _ _ _ _ => rfl) fun _ _ _ _ => rfl
  | ret value => exact (ih.code s value told).bind fun v => .throw _
  | arg index =>
    exact .quiet (fun world globals locals =>
      (argument (world.frame? s.frame) index, world, globals, locals))
      (run_arg s index) (run_arg (s.beside l') index)
  | add left right =>
    apply (ih.code s left told).bind
    intro v
    apply (ih.code (s.hold [v]) right told).bind
    intro w
    cases v <;> cases w <;> first | exact .pure _ | exact .throw _
  | call name args =>
    apply (ih.args s args told).bind
    exact fun values => tandem_called escorts ih s told name values
  | getProperty receiver name =>
    apply (ih.code s receiver told).bind
    intro v
    cases v with
    | object id _ =>
      exact .quiet (fun world globals locals => (.ok (world.property id name), world, globals, locals))
        (fun _ _ _ _ => rfl) fun _ _ _ _ => rfl
    | _ => exact .pure _
  | setProperty receiver name value =>
    apply (ih.code s value told).bind
    intro v
    apply (ih.code (s.hold [v]) receiver told).bind
    intro w
    cases w with
    | object id _ =>
      exact .quiet (fun world globals locals => (.ok v, world.setProperty id name v, globals, locals))
        (fun _ _ _ _ => rfl) fun _ _ _ _ => rfl
    | _ => exact .pure _
  | body statements =>
    exact .tryCatch _ _ (ih.body s .nil statements told)
      (fun e => by
        cases e with
        | returning v => exact .pure v
        | _ => exact .throw _)
      fun _ => rfl

end

theorem side_by_side {l : Listener kinds S} {l' : Listener kinds T} (escorts : Escorts R D l l')
    (n : Nat) : SideBySide R D l l' n := by
  induction n with
  | zero =>
    constructor
    · intro s code _
      rw [eval_zero, eval_zero]
      exact .throw _
    · intro s args _
      rw [evalArgs_zero, evalArgs_zero]
      exact .throw _
    · intro s last statements _
      rw [evalBody_zero, evalBody_zero]
      exact .throw _
  | succ n ih =>
    constructor
    · exact fun s code told => tandem_code escorts ih s told code
    · intro s args told
      cases args with
      | nil => exact .pure _
      | cons code rest =>
        apply (ih.code s code told).bind
        exact fun v => (ih.args (s.hold [v]) rest told).bind fun _ => .pure _
    · intro s last statements told
      cases statements with
      | nil => exact .pure _
      | cons code rest =>
        apply (ih.code (s.hold [last]) code told).bind
        exact fun v => ih.body s v rest told

namespace Program

/-- How two runs of a program have ended: alike, or the second with a refusal. -/
inductive Ended (R : Stage kinds S → Stage kinds T → Prop)
    (D : Stage kinds S → Fault → Stage kinds T → Prop) :
    Outcome × World × Stage kinds S → Outcome × World × Stage kinds T → Prop
  | alike {outcome : Outcome} {world : World} {stage stage'} (related : R stage stage') :
      Ended R D (outcome, world, stage) (outcome, world, stage')
  | refused {outcome : Outcome} {world world' : World} {stage fault stage'}
      (ended : D stage fault stage') :
      Ended R D (outcome, world, stage) (.failed (.refused fault), world', stage')

/-- Two runs of a program go alike until a listener of the second refuses what the first accepts. -/
theorem run_side_by_side (p : Program) (fuel : Nat) {l : Listener kinds S} {l' : Listener kinds T}
    (escorts : Escorts R D l l') (owned : List Entity) (world : World) {stage : Stage kinds S}
    {stage' : Stage kinds T} (related : R stage stage') :
    Ended R D (p.run fuel l owned world stage) (p.run fuel l' owned world stage') := by
  have both := ((side_by_side escorts fuel).code (p.surroundings l owned world) p.main rfl).both
    (machine world stage) (machine world stage')
    ⟨rfl, rfl, rfl, escorts.noted _ _ _ stage stage' related⟩
  rw [run_eq, run_eq]
  change Toy.Ended R D _
    ((eval fuel (p.surroundings l' owned world) p.main).run.run (machine world stage')) at both
  revert both
  generalize (eval fuel (p.surroundings l owned world) p.main).run.run (machine world stage) = ran
  generalize (eval fuel (p.surroundings l' owned world) p.main).run.run (machine world stage') = ran'
  intro both
  cases both with
  | @alike r m n alike =>
    dsimp only
    rw [alike.world]
    exact .alike alike.stage
  | refused ended => exact .refused ended

/-- What each accepted checkpoint keeps, a run keeps in which none is refused: it goes next to itself. -/
theorem run_keeps (p : Program) (fuel : Nat) {l : Listener kinds S} {P : Stage kinds S → Prop}
    (reacts : ∀ host c stage, P stage →
      Ends (l.react host c) stage fun r after => r = .ok () → P after)
    (noted : ∀ severity message fields stage, P stage → P (stage.noted severity message fields))
    (owned : List Entity) (world : World) {stage : Stage kinds S} (start : P stage)
    (accepted : ∀ fault, (p.run fuel l owned world stage).1 ≠ .failed (.refused fault)) :
    P (p.run fuel l owned world stage).2.2 := by
  have escorts : Escorts (fun stage stage' => stage' = stage ∧ P stage) (fun _ _ _ => True) l l := by
    constructor
    · rintro host c _ stage ⟨rfl, holds⟩
      have kept := reacts host c stage holds
      unfold Ends at kept
      cases answered : ((l.react host c).run.run stage).1 with
      | error fault => exact .inr ⟨fault, answered, trivial⟩
      | ok _ => exact .inl ⟨rfl, rfl, kept answered⟩
    · exact fun _ _ _ _ _ _ => trivial
    · rintro severity message fields _ stage ⟨rfl, holds⟩
      exact ⟨rfl, noted severity message fields stage holds⟩
    · exact fun _ _ _ _ _ _ _ => trivial
  have both := p.run_side_by_side fuel escorts owned world ⟨rfl, start⟩
  generalize p.run fuel l owned world stage = ran at both accepted ⊢
  cases both with
  | alike related => exact related.2
  | refused => exact absurd rfl (accepted _)

end Program

end Toy

end Lineage
