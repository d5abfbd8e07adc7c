import Lineage.Proofs.Toy.Situations

/-!
# How the evaluator goes about a situation

The evaluator's work in a situation is made of its parts, which are situations themselves, of changes
of which no listener is told, and of the interrupts that the situation raises itself: `Goes`. Two
forms are apart: a body catches a `return`, and tagged code reports checkpoints. `Resumes` says the
same from the point of view of a part, after which the evaluator goes on with the rest.
-/

namespace Lineage.Toy

variable {S : Type}

/-- What a task comes to. -/
abbrev Task.Result : Task → Type
  | .args _ => List Value
  | .code _ => Value
  | .body .. => Value

/-- A task that neither catches anything nor reports checkpoints. -/
def Task.Plain : Task → Prop
  | .code (.body _) => False
  | .code (.tagged ..) => False
  | _ => True

namespace Situation

/-- The evaluator's work in a situation. -/
def work : (sit : Situation S) → EvalM S sit.task.Result
  | ⟨n, s, .code code, _⟩ => eval n s code
  | ⟨n, s, .args args, _⟩ => evalArgs n s args
  | ⟨n, s, .body last statements, _⟩ => evalBody n s last statements

/-- What the situation comes to, and the machine then. -/
def ended (sit : Situation S) : Except Interrupt sit.task.Result × Machine S :=
  sit.work.run.run sit.machine

end Situation

/-- The interrupts that are raised in the situation itself, with the machine as it is then. -/
inductive Raises : Situation S → Interrupt → Machine S → Prop
  | outOfFuel {s task m} : Raises ⟨0, s, task, m⟩ .outOfFuel m
  | returning {n s m value v m'} (ran : (eval n s value).run.run m = (.ok v, m')) :
      Raises ⟨n + 1, s, .code (.ret value), m⟩ (.returning v) m'
  | noArgument {n s m index frame} (here : m.world.frame? s.frame = some frame)
      (none : frame.args[index]? = none) :
      Raises ⟨n + 1, s, .code (.arg index), m⟩ (.failing (.noArgument frame.name index)) m
  | cannotAdd {n s m left right v m₁ w m₂ failure}
      (first : (eval n s left).run.run m = (.ok v, m₁))
      (second : (eval n (s.hold [v]) right).run.run m₁ = (.ok w, m₂))
      (fails : (addValues v w : EvalM S Value).run.run m₂ = (.error (.failing failure), m₂)) :
      Raises ⟨n + 1, s, .code (.add left right), m⟩ (.failing failure) m₂
  | undefinedFunction {n s m name args values m₁}
      (ran : (evalArgs n s args).run.run m = (.ok values, m₁))
      (none : s.program.functions.get? name = none) :
      Raises ⟨n + 1, s, .code (.call name args), m⟩ (.failing (.undefinedFunction name)) m₁

/-- With this machine the first situation calls a function, the code of which begins in the other. -/
inductive Calls : Situation S → Machine S → Situation S → Prop
  | intro {n s m name args values m' function}
      (ran : (evalArgs n s args).run.run m = (.ok values, m'))
      (found : s.program.functions.get? name = some function) :
      Calls ⟨n + 1, s, .code (.call name args), m⟩ m'
        ⟨n, s.callee m', .code function, s.calling m' name values⟩

namespace Calls

variable {root child : Situation S} {m : Machine S}

theorem spawns (calls : Calls root m child) : Spawns root child := by
  cases calls with
  | intro ran found => exact .callFunction ran found

theorem own (calls : Calls root m child) : child.machine.stage.own = m.stage.own := by
  cases calls
  rfl

theorem not_args {n : Nat} {s : Surroundings S} {args : List Code} {m' : Machine S} :
    ¬ Calls root m ⟨n, s, .args args, m'⟩ := by
  intro calls
  have code : ∀ {child : Situation S}, Calls root m child → child.task ≠ .args args := by
    rintro _ ⟨⟩
    exact nofun
  exact code calls rfl

end Calls

/-- On the way through the first situation the evaluator has this work to do with this machine. -/
inductive Goes (root : Situation S) : {α : Type} → EvalM S α → Machine S → Prop
  | value {α : Type} (a : α) (m : Machine S) : Goes root (pure a) m
  | quiet (change : Machine S → Machine S) (m : Machine S)
      (stage : (change m).stage = m.stage)
      (frames : (change m).world.frames = m.world.frames) :
      Goes root (modify change : EvalM S Unit) m
  | raise {α : Type} {e : Interrupt} {m : Machine S} (raises : Raises root e m) :
      Goes root (throw e : EvalM S α) m
  | part {child : Situation S} (spawns : Spawns root child) (inside : ∀ m, ¬ Calls root m child) :
      Goes root child.work child.machine
  /-- After a callee the caller has its locals again. -/
  | callee {child : Situation S} {m : Machine S} {work : EvalM S child.task.Result}
      (calls : Calls root m child)
      (run : work.run.run m = (child.ended.1, { child.ended.2 with locals := m.locals })) :
      Goes root work m
  | look {α : Type} {next : Machine S → EvalM S α} {m : Machine S} (h : Goes root (next m) m) :
      Goes root (get >>= next) m
  | bind {α β : Type} {work : EvalM S α} {next : α → EvalM S β} {m : Machine S}
      (first : Goes root work m)
      (later : ∀ a m', work.run.run m = (.ok a, m') → Goes root (next a) m') :
      Goes root (work >>= next) m

section Forms

variable {n : Nat} {s : Surroundings S} {m : Machine S} {root : Situation S}

/-- A value is stored and is the value of the code as well. -/
theorem goes_put {change : Machine S → Machine S} {m : Machine S} (v : Value)
    (stage : (change m).stage = m.stage)
    (frames : (change m).world.frames = m.world.frames) :
    Goes root (do modify change; return v : EvalM S Value) m :=
  .bind (.quiet _ _ stage frames) fun _ _ _ => .value v _

theorem goes_addValues {left right : Code} {v w : Value} {m₁ m₂ : Machine S}
    (first : (eval n s left).run.run m = (.ok v, m₁))
    (second : (eval n (s.hold [v]) right).run.run m₁ = (.ok w, m₂)) :
    Goes ⟨n + 1, s, .code (.add left right), m⟩ (addValues v w) m₂ := by
  cases v <;> cases w <;>
    first | exact .value _ _ | exact .raise (.cannotAdd first second rfl)

theorem goes_called {name : String} {args : List Code} {values : List Value} {m₁ : Machine S}
    (ran : (evalArgs n s args).run.run m = (.ok values, m₁)) :
    Goes ⟨n + 1, s, .code (.call name args), m⟩ (do
      let some function := s.program.functions.get? name
        | throw (.failing (.undefinedFunction name))
      let m ← get
      let (frame, world) := m.world.addFrame { name, caller := some s.frame, args := values }
      set { m with world }
      noteCall name values.length
      withFreshLocals (eval n { s.hold m.locals.values with frame } function)) m₁ := by
  cases found : s.program.functions.get? name with
  | none => exact .raise (.undefinedFunction ran found)
  | some function => exact .callee (.intro ran found) rfl

theorem goes_fetched (name : String) (v : Value) :
    Goes root (match v with
      | .object id _ => do return (← get).world.property id name
      | _ => return .nil) m := by
  cases v with
  | object => exact .look (.value _ _)
  | _ => exact .value _ _

theorem goes_stored (name : String) (v w : Value) :
    Goes root (match w with
      | .object id _ => do
          modify fun m => { m with world := m.world.setProperty id name v }
          return v
      | _ => return v) m := by
  cases w with
  | object => exact goes_put v rfl rfl
  | _ => exact .value _ _

theorem goes_code {code : Code} (plain : (Task.code code).Plain) :
    Goes ⟨n + 1, s, .code code, m⟩ (eval (n + 1) s code) m := by
  cases code with
  | tagged => exact plain.elim
  | body => exact plain.elim
  | int k => exact .value _ _
  | str text => exact .value _ _
  | nil => exact .value _ _
  | new className => exact .look (.bind (.quiet _ _ rfl rfl) fun _ _ _ => .value _ _)
  | getLocal name => exact .look (.value _ _)
  | getGlobal name => exact .look (.value _ _)
  | getClassVariable name => exact .look (.value _ _)
  | setLocal name value =>
    exact .bind (.part .setLocal nofun) fun v m' _ => goes_put v rfl rfl
  | setGlobal name value =>
    exact .bind (.part .setGlobal nofun) fun v m' _ => goes_put v rfl rfl
  | setClassVariable name value =>
    exact .bind (.part .setClassVariable nofun) fun v m' _ => goes_put v rfl rfl
  | ret value => exact .bind (.part .ret nofun) fun v m' ran => .raise (.returning ran)
  | arg index =>
    refine .look ?_
    cases here : m.world.frame? s.frame with
    | none => exact .value _ _
    | some frame =>
      dsimp only
      cases found : frame.args[index]? with
      | none => exact .raise (.noArgument here found)
      | some v => exact .value _ _
  | add left right =>
    exact .bind (.part .addLeft nofun) fun v m₁ first =>
      .bind (.part (.addRight first) nofun) fun w m₂ second => goes_addValues first second
  | call name args =>
    exact .bind (.part .callArgs fun _ => Calls.not_args) fun values m₁ ran => goes_called ran
  | getProperty receiver name => exact .bind (.part .getProperty nofun) fun v _ _ => goes_fetched name v
  | setProperty receiver name value =>
    exact .bind (.part .setPropertyValue nofun) fun v m₁ first =>
      .bind (.part (.setPropertyReceiver first) nofun) fun w _ _ => goes_stored name v w

end Forms

/-- The evaluator goes about every task that is plain. -/
theorem goes {sit : Situation S} (plain : sit.task.Plain) : Goes sit sit.work sit.machine := by
  obtain ⟨fuel, s, task, m⟩ := sit
  cases fuel with
  | zero =>
    have raise : ∀ {α : Type}, Goes ⟨0, s, task, m⟩ (throw .outOfFuel : EvalM S α) m :=
      .raise .outOfFuel
    cases task with
    | code code =>
      rw [Situation.work, eval_zero]
      exact raise
    | args args =>
      rw [Situation.work, evalArgs_zero]
      exact raise
    | body last statements =>
      rw [Situation.work, evalBody_zero]
      exact raise
  | succ n =>
    cases task with
    | code code => exact goes_code plain
    | args args =>
      cases args with
      | nil => exact .value _ _
      | cons code rest =>
        exact .bind (.part .arg nofun) fun v m₁ first =>
          .bind (.part (.laterArgs first) nofun) fun values _ _ => .value _ _
    | body last statements =>
      cases statements with
      | nil => exact .value _ _
      | cons code rest =>
        exact .bind (.part .statement nofun) fun v m₁ first => .part (.laterStatements first) nofun

section Kept

variable {root : Situation S} {α : Type} {work : EvalM S α} {m m' : Machine S}

/-- Work that comes to a value keeps what each part and each callee keeps that comes to a value. -/
theorem Goes.value_holds {P : Stage kinds S → Prop}
    (parts : ∀ child a, Spawns root child → (∀ m, ¬ Calls root m child) → child.ended.1 = .ok a →
      P child.machine.stage → P child.ended.2.stage)
    (callees : ∀ m child a, Calls root m child → child.ended.1 = .ok a → P m.stage →
      P child.ended.2.stage)
    (goes : Goes root work m) {a : α} (run : work.run.run m = (.ok a, m')) (holds : P m.stage) :
    P m'.stage := by
  induction goes generalizing m' with
  | value =>
    cases run
    exact holds
  | quiet change m stage frames =>
    cases run
    exact stage ▸ holds
  | raise => cases run
  | @part child spawns inside =>
    have after := parts child a spawns inside (congrArg Prod.fst run) holds
    rwa [show child.ended = (.ok a, m') from run] at after
  | @callee child m work calls ran =>
    rw [ran] at run
    obtain ⟨outcome, rfl⟩ := Prod.mk.inj run
    exact callees m child a calls outcome holds
  | look _ ih => exact ih run holds
  | @bind _ _ work next m _ _ ihFirst ihLater =>
    rw [run_bind] at run
    rcases ran : work.run.run m with ⟨e | b, m₁⟩
    · rw [ran] at run
      cases run
    · rw [ran] at run
      exact ihLater b m₁ ran run (ihFirst ran holds)

variable {P : S → Prop} (kept : ∀ child a, Spawns root child → child.ended.1 = .ok a →
  P child.machine.stage.own → P child.ended.2.stage.own)

include kept

theorem Goes.value_keeps (goes : Goes root work m) {a : α} (run : work.run.run m = (.ok a, m'))
    (holds : P m.stage.own) : P m'.stage.own := by
  refine goes.value_holds (P := fun stage => P stage.own) ?_ ?_ run holds
  · exact fun child a spawns _ => kept child a spawns
  · exact fun m child a calls ended holds => kept child a calls.spawns ended (calls.own ▸ holds)

/-- Whatever ends the work before it comes to a value has been raised here or comes from a part. Until
    then all is kept that the parts keep which come to a value. -/
theorem Goes.error (goes : Goes root work m) {e : Interrupt} (run : work.run.run m = (.error e, m'))
    (holds : P m.stage.own) :
    Raises root e m' ∧ P m'.stage.own ∨ ∃ child, Spawns root child ∧ P child.machine.stage.own ∧
      child.ended.1 = .error e ∧ child.ended.2.stage = m'.stage := by
  induction goes with
  | value a m => cases run
  | quiet => cases run
  | raise raises =>
    cases run
    exact .inl ⟨raises, holds⟩
  | @part child spawns =>
    refine .inr ⟨child, spawns, holds, congrArg Prod.fst run, ?_⟩
    exact congrArg (fun ran : _ × Machine S => ran.2.stage) run
  | @callee child m work calls ran =>
    rw [ran] at run
    obtain ⟨outcome, rfl⟩ := Prod.mk.inj run
    exact .inr ⟨child, calls.spawns, calls.own ▸ holds, outcome, rfl⟩
  | look _ ih => exact ih run holds
  | @bind _ _ work next m first _ ihFirst ihLater =>
    rw [run_bind] at run
    rcases ran : work.run.run m with ⟨e' | a, m₁⟩
    · rw [ran] at run
      cases run
      exact ihFirst ran holds
    · rw [ran] at run
      exact ihLater a m₁ ran run (first.value_keeps kept ran holds)

end Kept

/-! ### After a part -/

/-- After its part `child` the evaluator goes on with `root`: what ends the part before it comes to a
    value ends the root as well, and after a value there is some work left. -/
def Resumes (root child : Situation S) : Prop :=
  (∀ e, child.ended.1 = .error e →
    root.ended.1 = .error e ∧ root.ended.2.stage = child.ended.2.stage) ∧
  ∀ a m', child.ended = (.ok a, m') → ∃ (rest : EvalM S root.task.Result) (m'' : Machine S),
    m''.stage = m'.stage ∧ Goes root rest m'' ∧ root.ended.2.stage = (rest.run.run m'').2.stage

theorem resumes_bind {root child : Situation S} {k : child.task.Result → EvalM S root.task.Result}
    (run : root.ended = (child.work >>= k).run.run child.machine)
    (goes : ∀ a m', child.ended = (.ok a, m') → Goes root (k a) m') : Resumes root child := by
  rw [run_bind] at run
  constructor
  · intro e interrupted
    have ended : child.work.run.run child.machine = (.error e, child.ended.2) :=
      Prod.ext interrupted rfl
    rw [ended] at run
    rw [run]
    exact ⟨rfl, rfl⟩
  · intro a m' ended
    refine ⟨k a, m', rfl, goes a m' ended, ?_⟩
    rw [run, show child.work.run.run child.machine = (.ok a, m') from ended]

theorem run_bind_of {ε σ α β : Type} {work : ExceptT ε (StateM σ) α}
    {next : α → ExceptT ε (StateM σ) β} {s s' : σ} {a : α} (run : work.run.run s = (.ok a, s')) :
    (work >>= next).run.run s = (next a).run.run s' := by
  rw [run_bind, run]

/-- The run of a call from the run of the code of the function. -/
theorem run_call {n : Nat} {s : Surroundings S} {m m' : Machine S} {name : String} {args : List Code}
    {values : List Value} {function : Code}
    (ran : (evalArgs n s args).run.run m = (.ok values, m'))
    (found : s.program.functions.get? name = some function) :
    (eval (n + 1) s (.call name args)).run.run m =
      let inner := (eval n (s.callee m') function).run.run (s.calling m' name values)
      (inner.1, { inner.2 with locals := m'.locals }) := by
  refine (run_bind_of ran).trans ?_
  rw [found]
  rfl

/-- The evaluator goes on after every part of a plain task. -/
theorem Spawns.resumes {root child : Situation S} (spawns : Spawns root child)
    (plain : root.task.Plain) : Resumes root child := by
  cases spawns with
  | body => exact plain.elim
  | tagged => exact plain.elim
  | setLocal => exact resumes_bind rfl fun v _ _ => goes_put v rfl rfl
  | setGlobal => exact resumes_bind rfl fun v _ _ => goes_put v rfl rfl
  | setClassVariable => exact resumes_bind rfl fun v _ _ => goes_put v rfl rfl
  | ret => exact resumes_bind rfl fun v _ ran => .raise (.returning ran)
  | addLeft =>
    exact resumes_bind rfl fun v m₁ first =>
      .bind (.part (.addRight first) nofun) fun w m₂ second => goes_addValues first second
  | addRight first =>
    exact resumes_bind (run_bind_of first) fun w m₂ second => goes_addValues first second
  | getProperty => exact resumes_bind rfl fun v _ _ => goes_fetched _ v
  | setPropertyValue =>
    exact resumes_bind rfl fun v m₁ first =>
      .bind (.part (.setPropertyReceiver first) nofun) fun w _ _ => goes_stored _ v w
  | setPropertyReceiver first =>
    exact resumes_bind (run_bind_of first) fun w _ _ => goes_stored _ _ w
  | callArgs => exact resumes_bind rfl fun values m₁ ran => goes_called ran
  | @callFunction n s m name args values m' function ran found =>
    have run := run_call ran found
    have stage := congrArg (fun ran : Except Interrupt Value × Machine S => ran.2.stage) run
    constructor
    · exact fun e interrupted => ⟨(congrArg Prod.fst run).trans interrupted, stage⟩
    · intro v m₁ ended
      have after := congrArg (fun ran : Except Interrupt Value × Machine S => ran.2.stage) ended
      exact ⟨pure v, m₁, rfl, .value _ _, stage.trans after⟩
  | arg =>
    exact resumes_bind rfl fun v m₁ first =>
      .bind (.part (.laterArgs first) nofun) fun values _ _ => .value _ _
  | laterArgs first => exact resumes_bind (run_bind_of first) fun values _ _ => .value _ _
  | statement => exact resumes_bind rfl fun v m₁ first => .part (.laterStatements first) nofun
  | @laterStatements n s m last code rest v m' first =>
    refine resumes_bind (k := pure) ?_ fun v _ _ => .value v _
    exact (run_bind_of first).trans (by rw [bind_pure]; rfl)

end Lineage.Toy
