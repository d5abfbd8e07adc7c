import Lineage.Proofs.Toy.Situations

/-!
# Invocations that wait

While a function runs its callers wait, each with locals of its own. `Under` says of a situation which
invocations wait there, `Reported` which checkpoints are reported on the way through it, and `Halts`
where a run can break off.
-/

namespace Lineage.Toy

variable {S : Type}

/-- The invocations that wait for the one under way, the latest first, and the locals of each. -/
abbrev Waiting := List (FrameId × Dict String Value)

/-- The evaluator comes to the situation on its way through the first one, while these invocations
    wait. -/
inductive Under (start : Situation S) : Waiting → Situation S → Prop
  | start : Under start [] start
  | inside {waiting : Waiting} {sit next : Situation S} (h : Under start waiting sit)
      (spawns : Spawns sit next) (same : next.surroundings.frame = sit.surroundings.frame) :
      Under start waiting next
  | call {waiting : Waiting} {n s m name args values m' function}
      (h : Under start waiting ⟨n + 1, s, .code (.call name args), m⟩)
      (ran : (evalArgs n s args).run.run m = (.ok values, m'))
      (found : s.program.functions.get? name = some function) :
      Under start ((s.frame, m'.locals) :: waiting)
        ⟨n, s.callee m', .code function, s.calling m' name values⟩

theorem Under.within {start sit : Situation S} {waiting : Waiting} (h : Under start waiting sit) :
    Within start sit := by
  induction h with
  | start => exact .start
  | inside _ spawns _ ih => exact ih.later spawns
  | call _ ran found ih => exact ih.later (.callFunction ran found)

/-- In every situation of a run it is known who waits. -/
theorem Within.under {start sit : Situation S} (h : Within start sit) :
    ∃ waiting, Under start waiting sit := by
  induction h with
  | start => exact ⟨[], .start⟩
  | @later sit next _ spawns ih =>
    obtain ⟨waiting, under⟩ := ih
    cases id spawns with
    | callFunction ran found => exact ⟨_, under.call ran found⟩
    | _ => exact ⟨waiting, under.inside spawns rfl⟩

/-- The situation begins with tagged code, of which a checkpoint is reported while `values` are in
    use; the machine is the one right after it. -/
inductive Reported : Situation S → List Value → Machine S → Prop
  | enter {n s m site code} : Reported ⟨n + 1, s, .code (.tagged site code), m⟩ []
      ((s.report site .enter []).run.run m).2
  | leave {n s m site code m₁ v m₂} (entered : (s.report site .enter []).run.run m = (.ok (), m₁))
      (ran : (eval n s code).run.run m₁ = (.ok v, m₂)) :
      Reported ⟨n + 1, s, .code (.tagged site code), m⟩ [v]
        ((s.report site (.leave v) [v]).run.run m₂).2
  | unwind {n s m site code m₁ v m₂} (entered : (s.report site .enter []).run.run m = (.ok (), m₁))
      (ran : (eval n s code).run.run m₁ = (.error (.returning v), m₂)) :
      Reported ⟨n + 1, s, .code (.tagged site code), m⟩ [v]
        ((s.report site (.unwind (returnText v)) [v]).run.run m₂).2

/-- Tagged code that is entered and comes to a value is left with a checkpoint. -/
theorem Reported.left {n : Nat} {s : Surroundings S} {m : Machine S} {site : Site kinds} {code : Code}
    {v : Value} (entered : ((s.report site .enter []).run.run m).1 = .ok ())
    (ran : ((eval n s code).run.run ((s.report site .enter []).run.run m).2).1 = .ok v) :
    Reported ⟨n + 1, s, .code (.tagged site code), m⟩ [v] ((s.report site (.leave v) [v]).run.run
      ((eval n s code).run.run ((s.report site .enter []).run.run m).2).2).2 :=
  .leave (Prod.ext entered rfl) (Prod.ext ran rfl)

/-- A run can break off on its way through the situation, with the machine as it is then. -/
inductive Halts : Situation S → Machine S → Prop
  | refused {sit values m} (reported : Reported sit values m) : Halts sit m
  | noArgument {n s m index} : Halts ⟨n + 1, s, .code (.arg index), m⟩ m
  | cannotAdd {n s m left right v m₁ w m₂} (first : (eval n s left).run.run m = (.ok v, m₁))
      (second : (eval n (s.hold [v]) right).run.run m₁ = (.ok w, m₂)) :
      Halts ⟨n + 1, s, .code (.add left right), m⟩ m₂
  | undefinedFunction {n s m name args values m₁}
      (ran : (evalArgs n s args).run.run m = (.ok values, m₁)) :
      Halts ⟨n + 1, s, .code (.call name args), m⟩ m₁

/-- If the work fails, it does so in a situation where whoever waits still waits, and from there on
    only locals are put back. -/
def FailsUnder {α : Type} (start : Situation S) (waiting : Waiting) (s : Surroundings S)
    (work : EvalM S α) (m : Machine S) : Prop :=
  ∀ failure m', work.run.run m = (.error (.failing failure), m') →
    ∃ waiting' sit m₁, Under start waiting' sit ∧ Halts sit m₁ ∧
      m' = { m₁ with locals := m'.locals } ∧
      (s.frame, m'.locals) :: waiting ⊆ (sit.surroundings.frame, m₁.locals) :: waiting'

namespace FailsUnder

variable {α β : Type} {start : Situation S} {waiting : Waiting} {s : Surroundings S} {m : Machine S}
  {work : EvalM S α} {n : Nat} {task : Task}

/-- Work that comes to something else does not fail. -/
theorem of_run {r : Except Interrupt α} {m' : Machine S} (run : work.run.run m = (r, m'))
    (fine : ∀ failure, r ≠ .error (.failing failure)) : FailsUnder start waiting s work m :=
  fun failure _ failed => absurd (congrArg Prod.fst (run.symm.trans failed)) (fine failure)

theorem pure (a : α) : FailsUnder start waiting s (Pure.pure a : EvalM S α) m :=
  of_run rfl nofun

theorem modify (change : Machine S → Machine S) :
    FailsUnder start waiting s (modify change : EvalM S Unit) m :=
  of_run rfl nofun

theorem set (m' : Machine S) :
    FailsUnder start waiting s (MonadStateOf.set m' : EvalM S PUnit) m :=
  of_run rfl nofun

theorem returning (v : Value) :
    FailsUnder start waiting s (throw (.returning v) : EvalM S α) m :=
  of_run rfl fun _ same => Interrupt.noConfusion (Except.error.inj same)

theorem outOfFuel : FailsUnder start waiting s (throw .outOfFuel : EvalM S α) m :=
  of_run rfl fun _ same => Interrupt.noConfusion (Except.error.inj same)

/-- Work that cannot go on halts where it is. -/
theorem halt {m' : Machine S} (under : Under start waiting ⟨n, s, task, m⟩)
    (halts : Halts ⟨n, s, task, m⟩ m') (failure : Failure) :
    FailsUnder start waiting s (throw (.failing failure) : EvalM S α) m' := by
  rintro _ _ ⟨⟩
  exact ⟨waiting, _, m', under, halts, rfl, fun _ => id⟩

theorem report {site : Site kinds} {moment : Moment Value} {values : List Value} {m' : Machine S}
    (under : Under start waiting ⟨n, s, task, m⟩)
    (reported : Reported ⟨n, s, task, m⟩ values ((s.report site moment values).run.run m').2) :
    FailsUnder start waiting s (s.report site moment values) m' := by
  intro failure m'' run
  rw [run] at reported
  exact ⟨waiting, _, m'', under, .refused reported, rfl, fun _ => id⟩

theorem bind {next : α → EvalM S β} (h : FailsUnder start waiting s work m)
    (later : ∀ a m', work.run.run m = (.ok a, m') → FailsUnder start waiting s (next a) m') :
    FailsUnder start waiting s (work >>= next) m := by
  intro failure m' run
  rw [run_bind] at run
  rcases ran : work.run.run m with ⟨e | a, m₁⟩
  · rw [ran] at run
    cases run
    exact h failure m' ran
  · rw [ran] at run
    exact later a m₁ ran failure m' run

theorem get_bind {next : Machine S → EvalM S α} (h : FailsUnder start waiting s (next m) m) :
    FailsUnder start waiting s (get >>= next) m := h

/-- A failure goes through where a `return` is handled. -/
theorem catching {handle : Interrupt → EvalM S α} (h : FailsUnder start waiting s work m)
    (returned : ∀ v m', work.run.run m = (.error (.returning v), m') →
      FailsUnder start waiting s (handle (.returning v)) m')
    (others : ∀ e, (∀ v, e ≠ .returning v) → handle e = throw e) :
    FailsUnder start waiting s (tryCatch work handle) m := by
  intro failure m' run
  rw [run_tryCatch] at run
  rcases ran : work.run.run m with ⟨(v | failure' | _) | a, m₁⟩
  · rw [ran] at run
    exact returned v m₁ ran failure m' run
  · rw [ran] at run
    dsimp only at run
    rw [others _ fun _ => Interrupt.noConfusion] at run
    cases run
    exact h failure m' ran
  · rw [ran] at run
    dsimp only at run
    rw [others _ fun _ => Interrupt.noConfusion] at run
    cases run
  · rw [ran] at run
    cases run

/-- A caller waits with its locals until its callee has failed. -/
theorem freshLocals {callee : Surroundings S}
    (h : FailsUnder start ((s.frame, m.locals) :: waiting) callee work { m with locals := {} }) :
    FailsUnder start waiting s (withFreshLocals work) m := by
  intro failure m' run
  let inner := work.run.run { m with locals := {} }
  have ended : (inner.1, { inner.2 with locals := m.locals }) =
    (.error (.failing failure), m') := run
  obtain ⟨outcome, rfl⟩ := Prod.mk.inj ended
  obtain ⟨waiting', sit, m₁, under, halts, same, waits⟩ := h failure inner.2 (Prod.ext outcome rfl)
  refine ⟨waiting', sit, m₁, under, halts, ?_, fun x mem => waits (List.mem_cons_of_mem _ mem)⟩
  rw [same]

end FailsUnder

/-- Wherever a failure of code of any form happens, it is known who waits, for as many steps. -/
structure FailsKnown (S : Type) (n : Nat) : Prop where
  code : ∀ {start : Situation S} {waiting s m code}, Under start waiting ⟨n, s, .code code, m⟩ →
    FailsUnder start waiting s (eval n s code) m
  args : ∀ {start : Situation S} {waiting s m args}, Under start waiting ⟨n, s, .args args, m⟩ →
    FailsUnder start waiting s (evalArgs n s args) m
  body : ∀ {start : Situation S} {waiting s m last statements},
    Under start waiting ⟨n, s, .body last statements, m⟩ →
    FailsUnder start waiting s (evalBody n s last statements) m

section Forms

variable {start : Situation S} {waiting : Waiting} {n : Nat} {s : Surroundings S} {m : Machine S}
  {code : Code}

theorem fails_tagged (known : FailsKnown S n) {site : Site kinds}
    (under : Under start waiting ⟨n + 1, s, .code (.tagged site code), m⟩) :
    FailsUnder start waiting s (eval (n + 1) s (.tagged site code)) m := by
  unfold eval
  dsimp only
  refine .bind (.report under .enter) fun _ m₁ entered => ?_
  refine .bind (.catching (known.code (under.inside (.tagged entered) rfl)) (fun v m₂ ran => ?_)
    fun e others => ?_) fun v m₂ ran => ?_
  · exact .bind (.report under (.unwind entered ran)) fun _ _ _ => .returning v
  · cases e with
    | returning v => exact absurd rfl (others v)
    | _ => rfl
  · rw [run_tryCatch] at ran
    rcases inner : (eval n s code).run.run m₁ with ⟨(w | failure | _) | w, m₃⟩
    · rw [inner] at ran
      dsimp only at ran
      rw [run_bind] at ran
      rcases unwound : (s.report site (.unwind (returnText w)) [w]).run.run m₃ with ⟨_ | _, m₄⟩
      · rw [unwound] at ran
        cases ran
      · rw [unwound] at ran
        cases ran
    · rw [inner] at ran
      cases ran
    · rw [inner] at ran
      cases ran
    · rw [inner] at ran
      cases ran
      exact .bind (.report under (.leave entered inner)) fun _ _ _ => .pure v

theorem fails_call (known : FailsKnown S n) {name : String} {args : List Code}
    (under : Under start waiting ⟨n + 1, s, .code (.call name args), m⟩) :
    FailsUnder start waiting s (eval (n + 1) s (.call name args)) m := by
  unfold eval
  dsimp only
  refine .bind (known.args (under.inside .callArgs rfl)) fun values m₁ ran => ?_
  cases found : s.program.functions.get? name with
  | none => exact .halt under (.undefinedFunction ran) _
  | some function =>
    dsimp only
    refine .get_bind (.bind (.set _) fun _ m₂ moved => ?_)
    cases moved
    refine .bind (.modify _) fun _ m₃ noted => ?_
    cases noted
    exact .freshLocals (known.code (under.call ran found))

theorem fails_add (known : FailsKnown S n) {left right : Code}
    (under : Under start waiting ⟨n + 1, s, .code (.add left right), m⟩) :
    FailsUnder start waiting s (eval (n + 1) s (.add left right)) m := by
  unfold eval
  dsimp only
  refine .bind (known.code (under.inside .addLeft rfl)) fun v m₁ first => ?_
  refine .bind (known.code (under.inside (.addRight first) rfl)) fun w m₂ second => ?_
  unfold addValues
  split
  · exact .pure _
  · exact .pure _
  · exact .halt under (.cannotAdd first second) _

/-- A part that has come to a value is followed by work that cannot fail. -/
theorem fails_part (known : FailsKnown S n) {value : Code} {next : Value → EvalM S Value}
    (spawns : Spawns ⟨n + 1, s, .code code, m⟩ ⟨n, s, .code value, m⟩)
    (under : Under start waiting ⟨n + 1, s, .code code, m⟩)
    (run : eval (n + 1) s code = eval n s value >>= next)
    (never : ∀ v m', FailsUnder start waiting s (next v) m') :
    FailsUnder start waiting s (eval (n + 1) s code) m := by
  rw [run]
  exact .bind (known.code (under.inside spawns rfl)) fun v m' _ => never v m'

theorem fails_code (known : FailsKnown S n)
    (under : Under start waiting ⟨n + 1, s, .code code, m⟩) :
    FailsUnder start waiting s (eval (n + 1) s code) m := by
  have put : ∀ (change : Value → Machine S → Machine S) v m', FailsUnder start waiting s (do
      modify (change v)
      return v) m' := fun change v _ => .bind (.modify (change v)) fun _ _ _ => .pure v
  cases code with
  | tagged site code => exact fails_tagged known under
  | call name args => exact fails_call known under
  | add left right => exact fails_add known under
  | int | str | nil =>
    unfold eval
    exact .pure _
  | new =>
    unfold eval
    exact .get_bind (.bind (.modify _) fun _ _ _ => .pure _)
  | getLocal | getGlobal | getClassVariable =>
    unfold eval
    exact .get_bind (.pure _)
  | arg index =>
    unfold eval
    dsimp only
    refine .get_bind ?_
    cases m.world.frame? s.frame with
    | none => exact .pure _
    | some frame =>
      dsimp only
      cases frame.args[index]? with
      | none => exact .halt under .noArgument _
      | some v => exact .pure v
  | setLocal name value =>
    exact fails_part known .setLocal under rfl (put fun v m => { m with locals := m.locals.set name v })
  | setGlobal name value =>
    exact fails_part known .setGlobal under rfl
      (put fun v m => { m with globals := m.globals.set name v })
  | setClassVariable name value =>
    exact fails_part known .setClassVariable under rfl (put fun v m =>
      { m with world := m.world.setClassVariable s.program.scope name v })
  | ret value => exact fails_part known .ret under rfl fun v _ => .returning v
  | getProperty receiver name =>
    refine fails_part known .getProperty under rfl fun v m' => ?_
    cases v with
    | object => exact .get_bind (.pure _)
    | _ => exact .pure _
  | setProperty receiver name value =>
    unfold eval
    dsimp only
    refine .bind (known.code (under.inside .setPropertyValue rfl)) fun v m₁ first => ?_
    refine .bind (known.code (under.inside (.setPropertyReceiver first) rfl)) fun w m₂ _ => ?_
    cases w with
    | object id className =>
      exact put (fun v m => { m with world := m.world.setProperty id name v }) v m₂
    | _ => exact .pure _
  | body statements =>
    unfold eval
    dsimp only
    refine .catching (known.body (under.inside .body rfl)) (fun v _ _ => .pure v) fun e others => ?_
    cases e with
    | returning v => exact absurd rfl (others v)
    | _ => rfl

theorem fails_args (known : FailsKnown S n) {args : List Code}
    (under : Under start waiting ⟨n + 1, s, .args args, m⟩) :
    FailsUnder start waiting s (evalArgs (n + 1) s args) m := by
  unfold evalArgs
  cases args with
  | nil => exact .pure _
  | cons code rest =>
    refine .bind (known.code (under.inside .arg rfl)) fun v m₁ first => ?_
    exact .bind (known.args (under.inside (.laterArgs first) rfl)) fun values _ _ => .pure _

theorem fails_body (known : FailsKnown S n) {last : Value} {statements : List Code}
    (under : Under start waiting ⟨n + 1, s, .body last statements, m⟩) :
    FailsUnder start waiting s (evalBody (n + 1) s last statements) m := by
  unfold evalBody
  cases statements with
  | nil => exact .pure _
  | cons code rest =>
    refine .bind (known.code (under.inside .statement rfl)) fun v m₁ first => ?_
    exact known.body (under.inside (.laterStatements first) rfl)

end Forms

/-- By induction on the steps allowed, it is known of every failure who waits when it happens. -/
theorem failsKnown (S : Type) (n : Nat) : FailsKnown S n := by
  induction n with
  | zero =>
    constructor <;> intros
    · rw [eval_zero]
      exact .outOfFuel
    · rw [evalArgs_zero]
      exact .outOfFuel
    · rw [evalBody_zero]
      exact .outOfFuel
  | succ n ih => exact ⟨fails_code ih, fails_args ih, fails_body ih⟩

end Lineage.Toy
