import Lineage.Proofs.Toy.Situations

/-!
# Tracing is transparent

Tagged code runs as it does without its tags. `Lock` relates work of the evaluator on tagged code to
work on the same code stripped, step for step and for any listener, up to the point where a listener
refuses a checkpoint; that the tracer never does so is known of every situation of a run.
-/

namespace Lineage.Toy

variable {S T : Type}

/-- Nothing that code can tell apart is different: the objects, the variables, and the arguments of
    the invocation at hand. -/
structure Alike (s : Surroundings S) (t : Surroundings T) (m : Machine S) (k : Machine T) : Prop where
  objects : k.world.objects = m.world.objects
  scopes : k.world.scopes = m.world.scopes
  globals : k.globals = m.globals
  locals : k.locals = m.locals
  frame : ∃ f g, m.world.frame? s.frame = some f ∧ k.world.frame? t.frame = some g ∧
    g.name = f.name ∧ g.args = f.args

/-- The outcome is one of the program itself: it is not cut short, and no listener has refused
    anything. -/
def Settled {α : Type} (r : Except Interrupt α) : Prop :=
  r ≠ .error .outOfFuel ∧ ∀ fault, r ≠ .error (.failing (.refused fault))

/-- If it is settled, the outcome of the work is that of the plain work, in states alike. -/
def Lock {α : Type} (s : Surroundings S) (t : Surroundings T) (work : EvalM S α) (plain : EvalM T α)
    (m : Machine S) (k : Machine T) : Prop :=
  Ends work m fun r m' => Settled r → ∃ k', plain.run.run k = (r, k') ∧ Alike s t m' k' ∧
    m.world.Grows m'.world ∧ k.world.Grows k'.world

section Steps

variable {s : Surroundings S} {t : Surroundings T} {m m' : Machine S} {k k' : Machine T}

theorem Alike.stage (h : Alike s t m k) (stage : Stage kinds S) : Alike s t { m with stage } k :=
  ⟨h.objects, h.scopes, h.globals, h.locals, h.frame⟩

/-- Where code goes on after a call, the invocation at hand is the same as before. -/
theorem Alike.grow (h : Alike s t m k) (objects : k'.world.objects = m'.world.objects)
    (scopes : k'.world.scopes = m'.world.scopes) (globals : k'.globals = m'.globals)
    (locals : k'.locals = m'.locals) (grows : m.world.Grows m'.world)
    (grows' : k.world.Grows k'.world) : Alike s t m' k' := by
  obtain ⟨f, g, found, found', same⟩ := h.frame
  exact ⟨objects, scopes, globals, locals, f, g, grows _ _ found, grows' _ _ found', same⟩

theorem Settled.error {α β : Type} {e : Interrupt} (h : Settled (.error e : Except Interrupt α)) :
    Settled (.error e : Except Interrupt β) := by
  obtain ⟨fuel, refused⟩ := h
  refine ⟨fun eq => fuel ?_, fun fault eq => refused fault ?_⟩ <;> cases eq <;> rfl

theorem settled_returning {α : Type} (v : Value) :
    Settled (.error (.returning v) : Except Interrupt α) := ⟨nofun, nofun⟩

namespace Lock

variable {α β : Type} {work : EvalM S α} {plain : EvalM T α}

theorem of_run {r : Except Interrupt α} (h : Alike s t m' k') (run : work.run.run m = (r, m'))
    (plainRun : plain.run.run k = (r, k')) (grows : m.world.Grows m'.world)
    (grows' : k.world.Grows k'.world) : Lock s t work plain m k :=
  Ends.of_run run fun _ => ⟨k', plainRun, h, grows, grows'⟩

theorem pure (h : Alike s t m k) (a : α) : Lock s t (Pure.pure a) (Pure.pure a) m k :=
  .of_run h rfl rfl (.refl _) (.refl _)

theorem throw (h : Alike s t m k) (e : Interrupt) :
    Lock s t (MonadExcept.throw e : EvalM S α) (MonadExcept.throw e) m k :=
  .of_run h rfl rfl (.refl _) (.refl _)

theorem bind {next : α → EvalM S β} {then' : α → EvalM T β} (h : Lock s t work plain m k)
    (later : ∀ a m' k', Alike s t m' k' → m.world.Grows m'.world → k.world.Grows k'.world →
      Lock s t (next a) (then' a) m' k') :
    Lock s t (work >>= next) (plain >>= then') m k := by
  unfold Lock
  rw [ends_bind]
  refine Ends.mono h fun r m' first => ?_
  rcases r with e | a
  · intro settled
    obtain ⟨k', run, alike, grows⟩ := first settled.error
    exact ⟨k', by rw [run_bind, run], alike, grows⟩
  · obtain ⟨k', run, alike, grows, grows'⟩ := first ⟨nofun, nofun⟩
    refine Ends.mono (later a m' k' alike grows grows') fun r m'' second settled => ?_
    obtain ⟨k'', run', alike', more, more'⟩ := second settled
    exact ⟨k'', by rw [run_bind, run]; exact run', alike', grows.trans more, grows'.trans more'⟩

theorem get_bind {next : Machine S → EvalM S α} {then' : Machine T → EvalM T α}
    (h : Lock s t (next m) (then' k) m k) : Lock s t (get >>= next) (get >>= then') m k := by
  refine Ends.mono ((ends_bind _ _ _ _).mpr ((ends_get _ _).mpr h)) fun r m' post settled => ?_
  obtain ⟨k', run, rest⟩ := post settled
  exact ⟨k', by rw [run_bind, run_get]; exact run, rest⟩

theorem modify {change : Machine S → Machine S} {change' : Machine T → Machine T}
    (h : Alike s t (change m) (change' k)) (grows : m.world.Grows (change m).world)
    (grows' : k.world.Grows (change' k).world) :
    Lock s t (modify change) (modify change') m k := .of_run h rfl rfl grows grows'

/-- Work that changes nothing that code could tell apart has no counterpart. -/
theorem silent {quiet : EvalM S Unit} {next : Unit → EvalM S α}
    (h : Ends quiet m fun r m' => (∃ stage, m' = { m with stage }) ∧ (Settled r → r = .ok ()))
    (later : ∀ stage, Lock s t (next ()) plain { m with stage } k) :
    Lock s t (quiet >>= next) plain m k := by
  unfold Lock
  rw [ends_bind]
  refine Ends.mono h fun r m' post => ?_
  obtain ⟨⟨stage, rfl⟩, accepted⟩ := post
  rcases r with e | ⟨⟩
  · exact fun settled => nomatch accepted settled.error
  · exact later stage

/-- A `return` is caught on both sides. -/
theorem catching {work : EvalM S Value} {plain : EvalM T Value} (h : Lock s t work plain m k) :
    Lock s t
      (tryCatch work fun
        | .returning v => Pure.pure v
        | other => MonadExcept.throw other)
      (tryCatch plain fun
        | .returning v => Pure.pure v
        | other => MonadExcept.throw other) m k := by
  unfold Lock
  rw [ends_tryCatch]
  refine Ends.mono h fun r m' post => ?_
  rcases r with (v | failure | _) | v
  · obtain ⟨k', run, rest⟩ := post (settled_returning v)
    exact fun _ => ⟨k', by rw [run_tryCatch, run]; rfl, rest⟩
  · intro settled
    obtain ⟨k', run, rest⟩ := post settled
    exact ⟨k', by rw [run_tryCatch, run]; rfl, rest⟩
  · exact fun settled => absurd rfl settled.1
  · intro settled
    obtain ⟨k', run, rest⟩ := post settled
    exact ⟨k', by rw [run_tryCatch, run], rest⟩

end Lock

/-- A checkpoint changes nothing but the stage, and is refused or goes through. -/
theorem report_cases (s : Surroundings S) (site : Site kinds) (moment : Moment Value)
    (values : List Value) (m : Machine S) : ∃ r stage,
      (s.report site moment values).run.run m = (r, { m with stage }) ∧
      (r = .ok () ∨ ∃ fault, r = .error (.failing (.refused fault))) := by
  rcases reaction : (s.listener.react (s.place m values).host ⟨site, s.frame, moment⟩).run.run
    m.stage with ⟨r, stage⟩
  refine ⟨_, stage, run_report_of reaction, ?_⟩
  rcases r with fault | ⟨⟩
  · exact .inr ⟨fault, rfl⟩
  · exact .inl rfl

theorem ends_report (s : Surroundings S) (site : Site kinds) (moment : Moment Value)
    (values : List Value) (m : Machine S) :
    Ends (s.report site moment values) m fun r m' =>
      (∃ stage, m' = { m with stage }) ∧ (Settled r → r = .ok ()) := by
  obtain ⟨r, stage, run, rfl | ⟨fault, rfl⟩⟩ := report_cases s site moment values m
  · exact .of_run run ⟨⟨stage, rfl⟩, fun _ => rfl⟩
  · exact .of_run run ⟨⟨stage, rfl⟩, fun settled => absurd rfl (settled.2 fault)⟩

/-- Between its checkpoints tagged code runs as it does without the tag. -/
theorem Lock.tagged {work : EvalM S Value} {plain : EvalM T Value} {enter : EvalM S Unit}
    {unwind leave : Value → EvalM S Unit}
    (quiet : ∀ m, Ends enter m fun r m' =>
      (∃ stage, m' = { m with stage }) ∧ (Settled r → r = .ok ()))
    (quietUnwind : ∀ v m, Ends (unwind v) m fun r m' =>
      (∃ stage, m' = { m with stage }) ∧ (Settled r → r = .ok ()))
    (quietLeave : ∀ v m, Ends (leave v) m fun r m' =>
      (∃ stage, m' = { m with stage }) ∧ (Settled r → r = .ok ()))
    (h : ∀ stage, Lock s t work plain { m with stage } k) :
    Lock s t (do
      enter
      let v ← tryCatch work fun
        | .returning v => do
            unwind v
            MonadExcept.throw (.returning v)
        | other => MonadExcept.throw other
      leave v
      return v) plain m k := by
  refine .silent (quiet m) fun stage => ?_
  unfold Lock
  rw [ends_bind, ends_tryCatch]
  refine Ends.mono (h stage) fun r m' post => ?_
  rcases r with (v | failure | _) | v
  · obtain ⟨k', run, alike, grows⟩ := post (settled_returning v)
    dsimp only
    rw [ends_bind]
    refine Ends.mono (quietUnwind v m') fun r m'' quiet => ?_
    obtain ⟨⟨stage, rfl⟩, accepted⟩ := quiet
    rcases r with e | ⟨⟩
    · exact fun settled => nomatch accepted settled.error
    · exact fun _ => ⟨k', run, alike.stage stage, grows⟩
  · intro settled
    exact post settled
  · exact fun settled => absurd rfl settled.1
  · obtain ⟨k', run, alike, grows⟩ := post ⟨nofun, nofun⟩
    dsimp only
    rw [ends_bind]
    refine Ends.mono (quietLeave v m') fun r m'' quiet => ?_
    obtain ⟨⟨stage, rfl⟩, accepted⟩ := quiet
    rcases r with e | ⟨⟩
    · exact fun settled => nomatch accepted settled.error
    · exact fun _ => ⟨k', run, alike.stage stage, grows⟩

end Steps

/-! ### Code of any form -/

/-- For so many steps, tagged code of any form runs as it does without its tags. -/
structure Locked (S T : Type) (n : Nat) : Prop where
  code : ∀ (s : Surroundings S) (t : Surroundings T) m k j code, n ≤ j →
    s.program.Strips t.program → Alike s t m k →
    Lock s t (eval n s code) (eval j t code.strip) m k
  args : ∀ (s : Surroundings S) (t : Surroundings T) m k j args, n ≤ j →
    s.program.Strips t.program → Alike s t m k →
    Lock s t (evalArgs n s args) (evalArgs j t (Code.stripAll args)) m k
  body : ∀ (s : Surroundings S) (t : Surroundings T) m k j last statements, n ≤ j →
    s.program.Strips t.program → Alike s t m k →
    Lock s t (evalBody n s last statements) (evalBody j t last (Code.stripAll statements)) m k

section Forms

variable {n j : Nat} {s : Surroundings S} {t : Surroundings T} {m : Machine S} {k : Machine T}

/-- What is held along with the code makes no difference to it. -/
theorem Alike.held {values : List Value} (h : Alike s t m k) :
    Alike (s.hold values) (t.hold values) m k :=
  ⟨h.objects, h.scopes, h.globals, h.locals, h.frame⟩

theorem Lock.of_hold {α : Type} {values : List Value} {work : EvalM S α} {plain : EvalM T α}
    (h : Lock (s.hold values) (t.hold values) work plain m k) : Lock s t work plain m k := by
  refine Ends.mono h fun r m' post settled => ?_
  obtain ⟨k', run, alike, grows⟩ := post settled
  exact ⟨k', run, ⟨alike.objects, alike.scopes, alike.globals, alike.locals, alike.frame⟩, grows⟩

theorem Locked.held (locked : Locked S T n) (enough : n ≤ j) (strips : s.program.Strips t.program)
    (h : Alike s t m k) (values : List Value) (code : Code) :
    Lock s t (eval n (s.hold values) code) (eval j (t.hold values) code.strip) m k :=
  (locked.code (s.hold values) (t.hold values) m k j code enough strips h.held).of_hold

theorem Locked.zero : Locked S T 0 where
  code _ _ _ _ _ _ _ _ _ := fun settled => absurd rfl settled.1
  args _ _ _ _ _ _ _ _ _ := fun settled => absurd rfl settled.1
  body _ _ _ _ _ _ _ _ _ _ := fun settled => absurd rfl settled.1

/-- The function itself runs in lock step, in frames of the same name and with the same arguments. -/
theorem lock_invoke (locked : Locked S T n) (enough : n ≤ j) (strips : s.program.Strips t.program)
    (h : Alike s t m k) (name : String) (values : List Value) (function : Code) :
    Lock s t
      (do
        set { m with world := (m.world.addFrame (s.invocation name values)).2 }
        noteCall name values.length
        withFreshLocals (eval n (s.callee m) function))
      (do
        set { k with world := (k.world.addFrame (t.invocation name values)).2 }
        noteCall name values.length
        withFreshLocals (eval j (t.callee k) function.strip)) m k := by
  have entered : Alike (s.callee m) (t.callee k) (s.calling m name values)
      (t.calling k name values) := by
    refine ⟨h.objects, h.scopes, h.globals, rfl, s.invocation name values, t.invocation name values,
      World.frame?_addFrame _ _, World.frame?_addFrame _ _, rfl, rfl⟩
  have inner := locked.code (s.callee m) (t.callee k) _ _ j function enough strips entered
  unfold Lock
  rw [ends_bind, ends_set]
  dsimp only
  unfold noteCall
  rw [ends_bind, ends_modify]
  dsimp only
  rw [ends_withFreshLocals]
  refine Ends.mono inner fun r m' post settled => ?_
  obtain ⟨k', run, alike, grows, grows'⟩ := post settled
  have more := (World.grows_addFrame m.world (s.invocation name values)).trans grows
  have more' := (World.grows_addFrame k.world (t.invocation name values)).trans grows'
  refine ⟨{ k' with locals := k.locals }, ?_, ?_, more, more'⟩
  · exact congrArg (fun ended : Except Interrupt Value × Machine T =>
      (ended.1, { ended.2 with locals := k.locals })) run
  · exact h.grow alike.objects alike.scopes alike.globals h.locals more more'

theorem lock_addValues (h : Alike s t m k) (left right : Value) :
    Lock s t (addValues left right) (addValues left right) m k := by
  unfold addValues
  split
  · exact .pure h _
  · exact .pure h _
  · exact .throw h _

/-- A value goes into a slot, and the code comes to it. -/
theorem lock_put {change : Machine S → Machine S} {change' : Machine T → Machine T}
    (h : Alike s t (change m) (change' k)) (grows : m.world.Grows (change m).world)
    (grows' : k.world.Grows (change' k).world) (v : Value) :
    Lock s t (do
      modify change
      return v) (do
      modify change'
      return v) m k := .bind (.modify h grows grows') fun _ _ _ alike _ _ => .pure alike v

theorem lock_code (locked : Locked S T n) (enough : n ≤ j) (strips : s.program.Strips t.program)
    (h : Alike s t m k) (code : Code) (untagged : code.isTagged = false) :
    Lock s t (eval (n + 1) s code) (eval (j + 1) t code.strip) m k := by
  have part := fun code => locked.code s t m k j code enough strips h
  unfold eval Code.strip
  cases code with
  | tagged => cases untagged
  | int | str | nil => exact .pure h _
  | new className =>
    have sameId : k.world.addObject.1 = m.world.addObject.1 := by
      unfold World.addObject
      rw [h.objects]
    have alike : Alike s t { m with world := m.world.addObject.2 }
        { k with world := k.world.addObject.2 } :=
      ⟨congrArg (·.push {}) h.objects, h.scopes, h.globals, h.locals, h.frame⟩
    refine .get_bind (.of_run (r := .ok (.object m.world.addObject.1 className)) alike rfl ?_
      (fun _ _ => id) fun _ _ => id)
    rw [← sameId]
    rfl
  | getLocal name =>
    refine .get_bind ?_
    rw [h.locals]
    exact .pure h _
  | setLocal name value =>
    refine .bind (part value) fun v m' k' alike _ _ => ?_
    exact lock_put ⟨alike.objects, alike.scopes, alike.globals, by rw [alike.locals], alike.frame⟩
      (.refl _) (.refl _) v
  | arg index =>
    obtain ⟨f, g, found, found', sameName, sameArgs⟩ := h.frame
    refine .get_bind ?_
    rw [found, found']
    dsimp only
    rw [sameArgs, sameName]
    cases f.args[index]? with
    | none => exact .throw h _
    | some v => exact .pure h v
  | add left right =>
    refine .bind (part left) fun l m' k' alike _ _ => ?_
    refine .bind (locked.held enough strips alike [l] right) fun r m'' k'' alike' _ _ => ?_
    exact lock_addValues alike' l r
  | call name args =>
    refine .bind (locked.args s t m k j args enough strips h) fun values m' k' alike _ _ => ?_
    rw [strips.functions name]
    cases s.program.functions.get? name with
    | none => exact .throw alike _
    | some function =>
      exact .get_bind (lock_invoke locked enough strips alike name values function)
  | getProperty receiver name =>
    refine .bind (part receiver) fun v m' k' alike _ _ => ?_
    cases v with
    | object id _ =>
      refine .get_bind ?_
      rw [World.property, World.property, alike.objects]
      exact .pure alike _
    | _ => exact .pure alike _
  | setProperty receiver name value =>
    refine .bind (part value) fun v m' k' alike _ _ => ?_
    refine .bind (locked.held enough strips alike [v] receiver) fun r m'' k'' alike' _ _ => ?_
    cases r with
    | object id _ =>
      exact lock_put ⟨congrArg (·.modify id.number (·.set name v)) alike'.objects, alike'.scopes,
        alike'.globals, alike'.locals, alike'.frame⟩ (fun _ _ found => found) (fun _ _ found => found) v
    | _ => exact .pure alike' _
  | getGlobal name =>
    refine .get_bind ?_
    rw [h.globals]
    exact .pure h _
  | setGlobal name value =>
    refine .bind (part value) fun v m' k' alike _ _ => ?_
    exact lock_put ⟨alike.objects, alike.scopes, by rw [alike.globals], alike.locals, alike.frame⟩
      (.refl _) (.refl _) v
  | getClassVariable name =>
    refine .get_bind ?_
    rw [strips.scope, World.classVariable, World.classVariable, h.scopes]
    exact .pure h _
  | setClassVariable name value =>
    refine .bind (part value) fun v m' k' alike _ _ => ?_
    rw [strips.scope]
    exact lock_put ⟨alike.objects,
      congrArg (·.modify s.program.scope.number (·.set name v)) alike.scopes, alike.globals,
      alike.locals, alike.frame⟩ (fun _ _ found => found) (fun _ _ found => found) v
  | ret value =>
    exact .bind (part value) fun v m' k' alike _ _ => .throw alike _
  | body statements =>
    exact .catching (locked.body s t m k j .nil statements enough strips h)

theorem lock_args (locked : Locked S T n) (enough : n ≤ j) (strips : s.program.Strips t.program)
    (h : Alike s t m k) (args : List Code) :
    Lock s t (evalArgs (n + 1) s args) (evalArgs (j + 1) t (Code.stripAll args)) m k := by
  unfold evalArgs Code.stripAll
  cases args with
  | nil => exact .pure h _
  | cons arg rest =>
    refine .bind (locked.code s t m k j arg enough strips h) fun v m' k' alike _ _ => ?_
    refine .bind ?_ fun values m'' k'' alike' _ _ => .pure alike' _
    exact (locked.args (s.hold [v]) (t.hold [v]) m' k' j rest enough strips alike.held).of_hold

theorem lock_body (locked : Locked S T n) (enough : n ≤ j) (strips : s.program.Strips t.program)
    (h : Alike s t m k) (last : Value) (statements : List Code) :
    Lock s t (evalBody (n + 1) s last statements)
      (evalBody (j + 1) t last (Code.stripAll statements)) m k := by
  unfold evalBody Code.stripAll
  cases statements with
  | nil => exact .pure h _
  | cons statement rest =>
    have first := locked.code (s.hold [last]) (t.hold [last]) m k j statement enough strips h.held
    refine .bind first.of_hold fun v m' k' alike _ _ => ?_
    exact locked.body s t m' k' j v rest enough strips alike

end Forms

/-- Tagged code runs as it does without its tags, by induction on the steps allowed. -/
theorem locked (S T : Type) (n : Nat) : Locked S T n := by
  induction n with
  | zero => exact .zero
  | succ n ih =>
    constructor
    · intro s t m k j code enough strips h
      cases tagged : code.isTagged with
      | false =>
        obtain _ | j := j
        · cases enough
        · exact lock_code ih (Nat.le_of_succ_le_succ enough) strips h code tagged
      | true =>
        cases code with
        | tagged site code =>
          have inner := fun stage =>
            ih.code s t { m with stage } k j code (Nat.le_of_succ_le enough) strips (h.stage stage)
          have quiet := fun moment values => ends_report s site moment values
          exact .tagged (quiet _ _) (fun v => quiet _ [v]) (fun v => quiet _ [v]) inner
        | _ => cases tagged
    · intro s t m k j args enough strips h
      obtain _ | j := j
      · cases enough
      · exact lock_args ih (Nat.le_of_succ_le_succ enough) strips h args
    · intro s t m k j last statements enough strips h
      obtain _ | j := j
      · cases enough
      · exact lock_body ih (Nat.le_of_succ_le_succ enough) strips h last statements

/-! ### Runs of programs -/

section

variable {n : Nat} {s : Surroundings S} {m : Machine S} {site : Site kinds} {code : Code}
  {tracer : Tracer} {seen : Stage kinds S → List (Node Value) → Prop}

/-- Every checkpoint that is reported of a piece of tagged code is accepted. -/
structure Accepted (n : Nat) (s : Surroundings S) (m : Machine S) (site : Site kinds) (code : Code) :
    Prop where
  enter : ∃ m₁, (s.report site .enter []).run.run m = (.ok (), m₁)
  leave : ∀ m₁ v m₂, (s.report site .enter []).run.run m = (.ok (), m₁) →
    (eval n s code).run.run m₁ = (.ok v, m₂) →
    ∃ m₃, (s.report site (.leave v) [v]).run.run m₂ = (.ok (), m₃)
  unwind : ∀ m₁ v m₂, (s.report site .enter []).run.run m = (.ok (), m₁) →
    (eval n s code).run.run m₁ = (.error (.returning v), m₂) →
    ∃ m₃, (s.report site (.unwind (returnText v)) [v]).run.run m₂ = (.ok (), m₃)

/-- In a sound situation nothing comes to the refusal of a checkpoint. -/
theorem Sound.not_refused (sound : Sound tracer seen ⟨n, s, .code code, m⟩) (fault : Fault)
    (m' : Machine S) : (eval n s code).run.run m ≠ (.error (.failing (.refused fault)), m') := by
  intro run
  cases sound with
  | @code _ _ a _ l _ fit h shaped =>
    have sim := (good tracer False seen n).code s a m l code fit h shaped
    obtain ⟨l', -, never, -⟩ := Ends.at_run sim run
    exact never fault rfl
  | @piece _ _ a _ l _ fit h piece empty =>
    have sim := (good tracer False seen n).piece s a m l code fit h piece empty
    obtain ⟨l', -, never, -⟩ := Ends.at_run sim run
    exact never fault rfl
  | function begun =>
    obtain ⟨arguments, l, fit, h, fresh, defined⟩ := begun
    have sim := (good tracer False seen n).function s arguments m l code fit h fresh defined
    obtain ⟨l', -, never, -⟩ := Ends.at_run sim run
    exact never fault rfl

theorem Sound.accepted (sound : Sound tracer seen ⟨n + 1, s, .code (.tagged site code), m⟩) :
    Accepted n s m site code := by
  have unrefused := sound.not_refused
  unfold eval at unrefused
  dsimp only at unrefused
  rw [run_bind] at unrefused
  obtain ⟨r, stage, entered, rfl | ⟨fault, rfl⟩⟩ := report_cases s site .enter [] m
  · rw [entered] at unrefused
    dsimp only at unrefused
    rw [run_bind, run_tryCatch] at unrefused
    constructor
    · exact ⟨_, entered⟩
    · intro m₁ v m₂ entered' run
      cases entered.symm.trans entered'
      rw [run] at unrefused
      dsimp only at unrefused
      rw [run_bind] at unrefused
      obtain ⟨r, stage', left, rfl | ⟨fault, rfl⟩⟩ := report_cases s site (.leave v) [v] m₂
      · exact ⟨_, left⟩
      · rw [left] at unrefused
        exact absurd rfl (unrefused fault _)
    · intro m₁ v m₂ entered' run
      cases entered.symm.trans entered'
      rw [run] at unrefused
      dsimp only at unrefused
      rw [run_bind] at unrefused
      obtain ⟨r, stage', left, rfl | ⟨fault, rfl⟩⟩ :=
        report_cases s site (.unwind (returnText v)) [v] m₂
      · exact ⟨_, left⟩
      · rw [left] at unrefused
        exact absurd rfl (unrefused fault _)
  · rw [entered] at unrefused
    exact absurd rfl (unrefused fault _)

end

/-- The code of an invocation within a run, where it begins. -/
inductive Invoked (start : Situation S) : Situation S → Prop
  | main : Invoked start start
  | called {n s m name args values m' function}
      (within : Within start ⟨n + 1, s, .code (.call name args), m⟩)
      (ran : (evalArgs n s args).run.run m = (.ok values, m'))
      (found : s.program.functions.get? name = some function) :
      Invoked start ⟨n, s.callee m', .code function, s.calling m' name values⟩

/-- What a run that has not been cut short comes to, whatever its frame. -/
def Outcome.result? : Outcome → Option (Except Failure Value)
  | .finished run => some (.ok run.value)
  | .failed failure => some (.error failure)
  | .outOfFuel => none

/-- A program and the same program untraced begin alike in worlds with the same objects and class
    variables. -/
theorem Program.alike_machine (p q : Program) (listener : Listener kinds S)
    (listener' : Listener kinds T) (owned owned' : List Entity) {world world' : World}
    (objects : world'.objects = world.objects) (scopes : world'.scopes = world.scopes)
    (stage : Stage kinds S) (stage' : Stage kinds T) :
    Alike (p.surroundings listener owned world) (q.surroundings listener' owned' world')
      (machine world stage) (machine world' stage') :=
  ⟨objects, scopes, rfl, rfl, _, _, World.frame?_addFrame world _, World.frame?_addFrame world' _,
    rfl, rfl⟩

/-- Tracing is transparent. Whatever the tracer has been through before, a traced program comes to
    what it comes to with every definition untraced, as soon as it comes to anything; no checkpoint is
    refused, and no `return` gets out of an invocation. -/
theorem Program.run_transparent {source : Source} {scope : ScopeId} {p q : Program}
    (compiled : source.compile scope = some p) (plain : source.untraced.compile scope = some q)
    (tracer : Tracer) {world world' : World} (objects : world'.objects = world.objects)
    (scopes : world'.scopes = world.scopes) {stage : Stage kinds S}
    (past : Past tracer world stage.shadow) (owned owned' : List Entity)
    (listener : Listener kinds T) (stage' : Stage kinds T) (fuel : Nat) :
    (∀ result, (p.run fuel (.ofTracer tracer) owned world stage).1.result? = some result →
      (∀ fault, result ≠ .error (.refused fault)) ∧
      ∀ fuel', fuel ≤ fuel' →
        (q.run fuel' listener owned' world' stage').1.result? = some result) ∧
    (∀ n s m site code, Within (p.situation fuel (.ofTracer tracer) owned world stage)
      ⟨n + 1, s, .code (.tagged site code), m⟩ → Accepted n s m site code) ∧
    ∀ n s m function, Invoked (p.situation fuel (.ofTracer tracer) owned world stage)
      ⟨n, s, .code function, m⟩ → ∀ v m',
      (eval n s function).run.run m ≠ (.error (.returning v), m') := by
  have begun := Program.begun (Source.wellTagged_of_compile compiled).1 (watches_ofTracer tracer)
    owned past
  have sound : Sound tracer (fun _ _ => True)
      (p.situation fuel (.ofTracer tracer) owned world stage) := .function begun
  refine ⟨fun result came => ?_, fun n s m site code within => ?_, ?_⟩
  · have strips := Source.strips_untraced compiled plain
    rw [run_eq] at came
    rcases ended : (eval fuel (p.surroundings (.ofTracer tracer) owned world) p.main).run.run
      (machine world stage) with ⟨r, m'⟩
    rw [ended] at came
    have settled : Settled r := by
      refine ⟨?_, ?_⟩
      · rintro rfl
        cases came
      · rintro fault rfl
        exact sound.not_refused fault m' ended
    refine ⟨?_, fun fuel' enough => ?_⟩
    · rintro fault rfl
      rcases r with (v | failure | _) | v
      · cases came
      · cases came
        exact settled.2 fault rfl
      · cases came
      · cases came
    · have lock := (locked S T fuel).code _ _ _ _ fuel' p.main enough strips
        (p.alike_machine q (.ofTracer tracer) listener owned owned' objects scopes stage stage')
      unfold Lock Ends at lock
      rw [ended] at lock
      obtain ⟨k', run, -⟩ := lock settled
      rw [run_eq, strips.main, run]
      rcases r with (v | failure | _) | v <;> exact came
  · exact (sound.within within).accepted
  · intro n s m function invoked
    cases invoked with
    | main => exact begun.never_returns _
    | called within ran found => exact ((sound.within within).begun ran found).never_returns _

theorem Program.run_transparent_call :
    ∃ q, callingSource.compile ⟨0⟩ = some callingProgram ∧
      callingSource.untraced.compile ⟨0⟩ = some q ∧ Past {} callingWorld callingStage.shadow ∧
      ∀ fuel', 20 ≤ fuel' →
        (q.run fuel' (.ofTracer {}) [] { scopes := #[{}] } callingStage).1.result? =
          some (.ok (.int 3)) := by
  refine ⟨(callingSource.untraced.compile ⟨0⟩).get rfl, rfl, rfl, calling_past, ?_⟩
  have compiled : callingSource.compile ⟨0⟩ = some callingProgram := rfl
  have untraced : callingSource.untraced.compile ⟨0⟩ =
      some ((callingSource.untraced.compile ⟨0⟩).get rfl) := rfl
  have objects : ({ scopes := #[{}] } : World).objects = callingWorld.objects := rfl
  have transparent := Program.run_transparent compiled untraced {} objects rfl calling_past [] []
    (.ofTracer {}) callingStage 20
  have traced : (callingProgram.run 20 (.ofTracer {}) [] callingWorld callingStage).1 =
      .finished ⟨⟨1⟩, .int 3⟩ := by decide +kernel
  exact (transparent.1 (.ok (.int 3)) (by rw [traced]; rfl)).2

end Lineage.Toy
