import Lineage.Proofs.Brackets
import Lineage.Proofs.Toy.Course
import Lineage.Proofs.Toy.Journal
import Lineage.Proofs.Toy.Transparency

/-!
# The stream of checkpoints

What a listener is told in a run of a program follows the code: tagged code is entered, all that it
runs comes in between, and then it is left, by a value, or by a `return` that has been run inside. The
stream of a run that comes to a value is well bracketed (`Nested`). Where the program fails, the stream
breaks off, and what has not been left is the tagged code at work (`CutShort`).

The stream is read off a `journal`, some part of the state of the listeners in which the listener of
the run writes all that it is told.
-/

namespace Lineage.Toy

variable {S : Type}

/-! ### The parts of a situation -/

theorem Within.trans {start sit next : Situation S} (h : Within start sit) (h' : Within sit next) :
    Within start next := by
  induction h' with
  | start => exact h
  | later _ spawns ih => exact ih.later spawns

namespace Spawns

variable {root child : Situation S}

theorem fuel (spawns : Spawns root child) : root.fuel = child.fuel + 1 := by
  cases spawns <;> rfl

theorem program (spawns : Spawns root child) :
    child.surroundings.program = root.surroundings.program := by
  cases spawns <;> rfl

theorem listener (spawns : Spawns root child) :
    child.surroundings.listener = root.surroundings.listener := by
  cases spawns <;> rfl

end Spawns

/-- Only bodies and tagged code have rules of their own. -/
theorem Task.plain_or (task : Task) : task.Plain ∨ (∃ statements, task = .code (.body statements)) ∨
    ∃ site code, task = .code (.tagged site code) := by
  cases task with
  | code code =>
    cases code with
    | body statements => exact .inr (.inl ⟨statements, rfl⟩)
    | tagged site code => exact .inr (.inr ⟨site, code, rfl⟩)
    | _ => exact .inl trivial
  | _ => exact .inl trivial

theorem Situation.ended_zero (s : Surroundings S) (task : Task) (m : Machine S) :
    (⟨0, s, task, m⟩ : Situation S).ended = (.error .outOfFuel, m) := by
  cases task with
  | code code => rw [Situation.ended, Situation.work, eval_zero]; rfl
  | args args => rw [Situation.ended, Situation.work, evalArgs_zero]; rfl
  | body last statements => rw [Situation.ended, Situation.work, evalBody_zero]; rfl

section Forms

variable {n : Nat} {s : Surroundings S} {m m' : Machine S} {site : Site kinds} {code : Code}

/-- A body catches a `return`. -/
theorem run_body (statements : List Code) : (eval (n + 1) s (.body statements)).run.run m =
    match (evalBody n s .nil statements).run.run m with
    | (.error (.returning v), m') => (.ok v, m')
    | ran => ran := by
  refine (run_tryCatch _ _ _).trans ?_
  rcases (evalBody n s .nil statements).run.run m with ⟨(v | failure | _) | v, m'⟩ <;> rfl

/-- How tagged code is left, from what it has come to inside and the machine then. -/
inductive Leaving (s : Surroundings S) (site : Site kinds) :
    Except Interrupt Value × Machine S → Except Interrupt Value × Machine S → Prop
  | value {v m r m'} (left : (s.report site (.leave v) [v]).run.run m = (r, m')) :
      Leaving s site (.ok v, m) (r.bind fun _ => .ok v, m')
  | returned {v m r m'}
      (left : (s.report site (.unwind (returnText v)) [v]).run.run m = (r, m')) :
      Leaving s site (.error (.returning v), m) (r.bind fun _ => .error (.returning v), m')
  | interrupted {e m} (other : ∀ v, e ≠ .returning v) : Leaving s site (.error e, m) (.error e, m)

theorem Leaving.of_interrupted {e : Interrupt} {ran : Except Interrupt Value × Machine S}
    (left : Leaving s site (.error e, m) ran) (other : ∀ v, e ≠ .returning v) :
    ran = (.error e, m) := by
  cases left with
  | returned => exact absurd rfl (other _)
  | interrupted => rfl

theorem leaving (n : Nat) (code : Code)
    (entered : (s.report site .enter []).run.run m = (.ok (), m')) :
    Leaving s site ((eval n s code).run.run m')
      ((eval (n + 1) s (.tagged site code)).run.run m) := by
  change Leaving s site _ ((s.report site .enter [] >>= fun _ => _ : EvalM S Value).run.run m)
  rw [run_bind_of entered, run_bind, run_tryCatch]
  rcases (eval n s code).run.run m' with ⟨(v | failure | _) | v, m₂⟩ <;> dsimp only
  · rw [run_bind]
    rcases left : (s.report site (.unwind (returnText v)) [v]).run.run m₂ with ⟨e | ⟨⟩, m₃⟩
    · exact .returned left
    · exact .returned left
  · exact .interrupted nofun
  · exact .interrupted nofun
  · rw [run_bind]
    rcases left : (s.report site (.leave v) [v]).run.run m₂ with ⟨e | ⟨⟩, m₃⟩
    · exact .value left
    · exact .value left

theorem run_tagged_of_refused {e : Interrupt}
    (refused : (s.report site .enter []).run.run m = (.error e, m')) :
    (eval (n + 1) s (.tagged site code)).run.run m = (.error e, m') := by
  change (s.report site .enter [] >>= fun _ => _ : EvalM S Value).run.run m = _
  rw [run_bind, refused]

/-- Only a refusal ends a checkpoint. -/
theorem report_error {moment : Moment Value} {values : List Value} {e : Interrupt}
    (run : (s.report site moment values).run.run m = (.error e, m')) :
    ∃ fault, e = .failing (.refused fault) := by
  obtain ⟨r, stage, run', rfl | ⟨fault, rfl⟩⟩ := report_cases s site moment values m
  · rw [run'] at run
    cases run
  · rw [run'] at run
    cases run
    exact ⟨fault, rfl⟩

end Forms

/-- Code that has come to a value or has been left by a `return`. -/
def Unbroken {α : Type} (r : Except Interrupt α) : Prop := ∀ e, r = .error e → ∃ v, e = .returning v

theorem unbroken_ok {α : Type} (a : α) : Unbroken (.ok a : Except Interrupt α) := nofun

theorem unbroken_returning {α : Type} (v : Value) :
    Unbroken (.error (.returning v) : Except Interrupt α) := by
  rintro e ⟨⟩
  exact ⟨v, rfl⟩

theorem not_unbroken {α : Type} {e : Interrupt} (other : ∀ v, e ≠ .returning v) :
    ¬ Unbroken (.error e : Except Interrupt α) := by
  intro unbroken
  obtain ⟨v, same⟩ := unbroken e rfl
  exact other v same

theorem report_not_unbroken {α : Type} {s : Surroundings S} {site : Site kinds}
    {moment : Moment Value} {values : List Value} {m m' : Machine S} {e : Interrupt}
    (run : (s.report site moment values).run.run m = (.error e, m')) :
    ¬ Unbroken (.error e : Except Interrupt α) := by
  obtain ⟨fault, rfl⟩ := report_error run
  exact not_unbroken fun _ same => by cases same

/-- What no body catches ends every situation around. -/
theorem Spawns.interrupts {root child : Situation S} (spawns : Spawns root child) {e : Interrupt}
    (interrupted : child.ended.1 = .error e) (other : ∀ v, e ≠ .returning v) :
    root.ended.1 = .error e := by
  have ran : child.ended = (.error e, child.ended.2) := Prod.ext interrupted rfl
  rcases root.task.plain_or with plain | ⟨statements, body⟩ | ⟨site, code, tagged⟩
  · exact ((spawns.resumes plain).1 e interrupted).1
  · cases spawns with
    | body =>
      refine (congrArg Prod.fst (run_body _)).trans ?_
      rw [show (evalBody _ _ _ _).run.run _ = (.error e, _) from ran]
      cases e with
      | returning v => exact absurd rfl (other v)
      | _ => rfl
    | _ => cases body
  · cases spawns with
    | @tagged n s m site code m' entered =>
      have left := leaving n code entered
      rw [show (eval _ _ _).run.run _ = (.error e, _) from ran] at left
      exact congrArg Prod.fst (left.of_interrupted other)
    | _ => cases tagged

theorem Spawns.unbroken {root child : Situation S} (spawns : Spawns root child)
    (h : Unbroken root.ended.1) : Unbroken child.ended.1 := by
  intro e interrupted
  by_cases other : ∃ v, e = .returning v
  · exact other
  · exact h e (spawns.interrupts interrupted fun v same => other ⟨v, same⟩)

/-- Nothing inside of unbroken code is broken. -/
theorem Within.unbroken {start sit : Situation S} (within : Within start sit)
    (h : Unbroken start.ended.1) : Unbroken sit.ended.1 := by
  induction within with
  | start => exact h
  | later _ spawns ih => exact spawns.unbroken ih

/-! ### What a `return` ends -/

/-- A `return` with this value is run inside, in this function and in the same body. -/
inductive Returning : Situation S → Value → Prop
  | ret {n s m value v m'} (ran : (eval n s value).run.run m = (.ok v, m')) :
      Returning ⟨n + 1, s, .code (.ret value), m⟩ v
  | outwards {sit next v} (h : Returning next v) (spawns : Spawns sit next)
      (frame : next.surroundings.frame = sit.surroundings.frame)
      (inBody : ∀ statements, sit.task ≠ .code (.body statements)) : Returning sit v

/-- A `return` leaves all around it, up to the body. -/
theorem Returning.ended {sit : Situation S} {v : Value} (h : Returning sit v)
    (unbroken : Unbroken sit.ended.1) : sit.ended.1 = .error (.returning v) := by
  induction h with
  | ret ran => exact congrArg Prod.fst (run_bind_of ran)
  | @outwards sit next v h spawns frame inBody ih =>
    have inner := ih (spawns.unbroken unbroken)
    rcases sit.task.plain_or with plain | ⟨statements, body⟩ | ⟨site, code, tagged⟩
    · exact ((spawns.resumes plain).1 _ inner).1
    · exact absurd body (inBody statements)
    · cases spawns with
      | @tagged n s m site code m' entered =>
        have left := leaving n code entered
        rw [show (eval n s code).run.run m' = (.error (.returning v), _) from
          Prod.ext inner rfl] at left
        change Unbroken ((eval (n + 1) s (.tagged site code)).run.run m).1 at unbroken
        change ((eval (n + 1) s (.tagged site code)).run.run m).1 = _
        generalize (eval (n + 1) s (.tagged site code)).run.run m = ran at left unbroken ⊢
        cases left with
        | @returned _ _ r m₃ left =>
          rcases r with e | ⟨⟩
          · exact absurd unbroken (report_not_unbroken left)
          · rfl
        | interrupted other => exact absurd rfl (other v)
      | _ => cases tagged

section Functions

variable {n : Nat} {s : Surroundings S} {m : Machine S} {v : Value}

theorem body_never_returns (statements : List Code) :
    ((eval n s (.body statements)).run.run m).1 ≠ .error (.returning v) := by
  cases n with
  | zero => exact fun h => by rw [eval_zero] at h; cases h
  | succ n =>
    rw [run_body]
    rcases (evalBody n s .nil statements).run.run m with ⟨(w | failure | _) | w, m'⟩ <;>
      exact nofun

/-- Tagged code that is interrupted has been refused a checkpoint, or the code inside has been
    interrupted; then nothing is told any more, unless by a `return`. -/
theorem tagged_interrupted {site : Site kinds} {code : Code} {e : Interrupt}
    (ended : ((eval (n + 1) s (.tagged site code)).run.run m).1 = .error e) :
    (∃ moment values m₁ m₂, (s.report site moment values).run.run m₁ = (.error e, m₂)) ∨
    ∃ m', (s.report site .enter []).run.run m = (.ok (), m') ∧
      ((eval n s code).run.run m').1 = .error e ∧
      ((∀ v, e ≠ .returning v) → ((eval n s code).run.run m').2 =
        ((eval (n + 1) s (.tagged site code)).run.run m).2) := by
  rcases entered : (s.report site .enter []).run.run m with ⟨refused | ⟨⟩, m'⟩
  · rw [run_tagged_of_refused entered] at ended
    cases ended
    exact .inl ⟨_, _, _, _, entered⟩
  · have left := leaving n code entered
    generalize inner : (eval n s code).run.run m' = ran,
      (eval (n + 1) s (.tagged site code)).run.run m = ran' at left ended ⊢
    cases left with
    | @value w _ r _ left =>
      rcases r with refused | ⟨⟩
      · cases ended
        exact .inl ⟨_, _, _, _, left⟩
      · cases ended
    | @returned w _ r _ left =>
      rcases r with refused | ⟨⟩
      · cases ended
        exact .inl ⟨_, _, _, _, left⟩
      · cases ended
        exact .inr ⟨m', rfl, congrArg Prod.fst inner, fun other => absurd rfl (other w)⟩
    | interrupted =>
      cases ended
      exact .inr ⟨m', rfl, congrArg Prod.fst inner, fun _ => congrArg Prod.snd inner⟩

/-- Tagged code is left by a `return` that has left the code inside. -/
theorem returning_inside {site : Site kinds} {code : Code}
    (ended : ((eval (n + 1) s (.tagged site code)).run.run m).1 = .error (.returning v)) :
    ∃ m', (s.report site .enter []).run.run m = (.ok (), m') ∧
      ((eval n s code).run.run m').1 = .error (.returning v) := by
  rcases tagged_interrupted ended with ⟨_, _, _, _, refused⟩ | ⟨m', entered, inner, -⟩
  · have unbroken : Unbroken (.error (.returning v) : Except Interrupt Value) := unbroken_returning v
    exact absurd unbroken (report_not_unbroken refused)
  · exact ⟨m', entered, inner⟩

theorem tagged_never_returns {site : Site kinds} {code : Code}
    (inside : ∀ n m, ((eval n s code).run.run m).1 ≠ .error (.returning v)) :
    ((eval n s (.tagged site code)).run.run m).1 ≠ .error (.returning v) := by
  intro ended
  cases n with
  | zero =>
    rw [eval_zero] at ended
    cases ended
  | succ n =>
    obtain ⟨m', -, inner⟩ := returning_inside ended
    exact inside n m' inner

/-- No `return` leaves a function. -/
theorem Code.Defined.never_returns {scope : ScopeId} {code : Code} (defined : code.Defined scope) :
    ((eval n s code).run.run m).1 ≠ .error (.returning v) := by
  cases defined with
  | plain => exact body_never_returns _
  | traced =>
    exact tagged_never_returns fun _ _ => tagged_never_returns fun _ _ => body_never_returns _

end Functions

/-- What a `return` has left has run it. -/
theorem returning_of_ended {sit : Situation S} (welltagged : sit.surroundings.program.WellTagged)
    {v : Value} (ended : sit.ended.1 = .error (.returning v)) : Returning sit v := by
  obtain ⟨n, s, task, m⟩ := sit
  induction n generalizing s task m with
  | zero =>
    rw [Situation.ended_zero] at ended
    cases ended
  | succ n ih =>
    -- a part of the same function that the `return` has left
    have outwards : ∀ {next : Situation S}, Spawns ⟨n + 1, s, task, m⟩ next →
        next.ended.1 = .error (.returning v) → next.surroundings.frame = s.frame →
        (∀ statements, task ≠ .code (.body statements)) → Returning ⟨n + 1, s, task, m⟩ v := by
      rintro ⟨k, t, inner, m'⟩ spawns ended frame inBody
      obtain rfl : n = k := Nat.succ.inj spawns.fuel
      exact .outwards (ih t inner m' (spawns.program ▸ welltagged) ended) spawns frame inBody
    rcases task.plain_or with plain | ⟨statements, rfl⟩ | ⟨site, code, rfl⟩
    · have run : (Situation.work ⟨n + 1, s, task, m⟩).run.run m = (.error (.returning v), _) :=
        Prod.ext ended rfl
      have parts := (goes plain).error (P := fun _ => True) (fun _ _ _ _ _ => trivial) run trivial
      rcases parts with ⟨raises, -⟩ | ⟨next, spawns, -, inner, -⟩
      · cases raises with
        | returning ran => exact .ret ran
      · by_cases frame : next.surroundings.frame = s.frame
        · exact outwards spawns inner frame fun statements same => by rw [same] at plain; exact plain
        · cases spawns with
          | callFunction ran found =>
            exact absurd inner (welltagged.functions _ _ found).never_returns
          | _ => exact absurd rfl frame
    · exact absurd ended (body_never_returns statements)
    · obtain ⟨m', entered, inner⟩ := returning_inside ended
      exact outwards (.tagged entered) inner rfl nofun

/-! ### What breaks a situation -/

/-- The situation begins with tagged code, of which this checkpoint tells that it is entered. -/
inductive Situation.Opens : Situation S → Checkpoint kinds → Prop
  | intro {n s m site code} : Opens ⟨n + 1, s, .code (.tagged site code), m⟩ ⟨site, s.frame, .enter⟩

/-- Whatever no body catches has been raised here, is a refusal, or comes from a part. Outside of
    checkpoints all is kept until then that the parts keep which come to a value. -/
theorem breaks {sit : Situation S} {P : S → Prop}
    (kept : ∀ child a, Spawns sit child → child.ended.1 = .ok a → P child.machine.stage.own →
      P child.ended.2.stage.own)
    (holds : P sit.machine.stage.own) {e : Interrupt} (ended : sit.ended.1 = .error e)
    (other : ∀ v, e ≠ .returning v) :
    Raises sit e sit.ended.2 ∧ P sit.ended.2.stage.own ∨
    (∃ site moment values m m',
      (sit.surroundings.report site moment values).run.run m = (.error e, m')) ∨
    ∃ child, Spawns sit child ∧ ((∀ c, ¬ sit.Opens c) → P child.machine.stage.own) ∧
      child.ended.1 = .error e ∧ child.ended.2.stage = sit.ended.2.stage := by
  obtain ⟨n, s, task, m⟩ := sit
  cases n with
  | zero =>
    rw [Situation.ended_zero] at ended ⊢
    cases ended
    exact .inl ⟨.outOfFuel, holds⟩
  | succ n =>
    rcases task.plain_or with plain | ⟨statements, rfl⟩ | ⟨site, code, rfl⟩
    · have run : (Situation.work ⟨n + 1, s, task, m⟩).run.run m =
          (.error e, (Situation.ended ⟨n + 1, s, task, m⟩).2) := Prod.ext ended rfl
      rcases (goes plain).error kept run holds with raised | ⟨child, spawns, before, rest⟩
      · exact .inl raised
      · exact .inr (.inr ⟨child, spawns, fun _ => before, rest⟩)
    · refine .inr (.inr ⟨_, .body, fun _ => holds, ?_⟩)
      change ((eval (n + 1) s (.body statements)).run.run m).1 = _ at ended
      change ((evalBody n s .nil statements).run.run m).1 = _ ∧
        ((evalBody n s .nil statements).run.run m).2.stage =
          ((eval (n + 1) s (.body statements)).run.run m).2.stage
      rw [run_body] at ended ⊢
      generalize (evalBody n s .nil statements).run.run m = ran at ended ⊢
      rcases ran with ⟨(v | failure | _) | v, m'⟩
      · cases ended
      · exact ⟨ended, rfl⟩
      · exact ⟨ended, rfl⟩
      · cases ended
    · rcases tagged_interrupted ended with ⟨_, _, _, _, refused⟩ | ⟨m', entered, inner, stops⟩
      · exact .inr (.inl ⟨_, _, _, _, _, refused⟩)
      · refine .inr (.inr ⟨_, .tagged entered, fun unopened => absurd .intro (unopened _), inner, ?_⟩)
        exact congrArg Machine.stage (stops other)

/-- The listener accepts every checkpoint, whatever happens. -/
def AcceptsAll (listener : Listener kinds S) : Prop :=
  ∀ host c stage, ((listener.react host c).run.run stage).1 = .ok ()

theorem Raises.not_refused {root : Situation S} {m : Machine S} {fault : Fault} :
    ¬ Raises root (.failing (.refused fault)) m := by
  intro raises
  cases raises with
  | @cannotAdd _ _ _ _ _ v _ w m₂ _ _ _ fails => cases v <;> cases w <;> cases fails

/-- Nothing is refused by a listener that accepts everything. -/
theorem never_refused {sit : Situation S} (accepts : AcceptsAll sit.surroundings.listener)
    (fault : Fault) : sit.ended.1 ≠ .error (.failing (.refused fault)) := by
  obtain ⟨n, s, task, m⟩ := sit
  intro ended
  induction n generalizing s task m with
  | zero =>
    rw [Situation.ended_zero] at ended
    cases ended
  | succ n ih =>
    rcases breaks (P := fun _ => True) (fun _ _ _ _ _ => trivial) trivial ended nofun with
      ⟨raises, -⟩ | ⟨site, moment, values, m', m'', report⟩ | ⟨⟨k, t, inner, m'⟩, spawns, -, inside, -⟩
    · exact raises.not_refused
    · have accepted : ((s.report site moment values).run.run m').1 = .ok () :=
        congrArg (Except.mapError (Interrupt.failing ∘ Failure.refused)) (accepts _ _ _)
      rw [report] at accepted
      cases accepted
    · obtain rfl : n = k := Nat.succ.inj spawns.fuel
      exact ih t inner m' (spawns.listener ▸ accepts) inside

/-! ### What the journal tells -/

/-- The listener writes whatever it is told into the journal. -/
def Journals (journal : S → List (Checkpoint kinds)) (listener : Listener kinds S) : Prop :=
  ∀ host c stage,
    journal ((listener.react host c).run.run stage).2.own = journal stage.own ++ [c]

theorem journals_journaled (listener : Listener kinds S) : Journals Prod.snd listener.journaled :=
  fun _ _ _ => rfl

theorem Journals.report {journal : S → List (Checkpoint kinds)} {s : Surroundings S}
    (keeps : Journals journal s.listener) {site : Site kinds} {moment : Moment Value}
    {values : List Value} {m m' : Machine S} {r : Except Interrupt Unit}
    (run : (s.report site moment values).run.run m = (r, m')) :
    journal m'.stage.own = journal m.stage.own ++ [⟨site, s.frame, moment⟩] := by
  obtain rfl : ((s.report site moment values).run.run m).2 = m' := congrArg Prod.snd run
  exact keeps _ _ _

/-- Each enter among the checkpoints `told`, which follow those `before`, has been told when the
    evaluator came to a situation with tagged code. -/
def Owned (journal : S → List (Checkpoint kinds)) (root : Situation S)
    (before told : List (Checkpoint kinds)) : Prop :=
  ∀ earlier c later, told = earlier ++ c :: later → c.moment = .enter → ∃ tagged : Situation S,
    Within root tagged ∧ tagged.Opens c ∧ journal tagged.machine.stage.own = before ++ earlier

/-- What has been told between two machines, on the way through a situation. -/
def Delivery (journal : S → List (Checkpoint kinds)) (root : Situation S) {α : Type}
    (r : Except Interrupt α) (m m' : Machine S) : Prop :=
  ∃ told, journal m'.stage.own = journal m.stage.own ++ told ∧ (Unbroken r → Bracketed told) ∧
    Owned journal root (journal m.stage.own) told

section

variable {journal : S → List (Checkpoint kinds)} {root child : Situation S}
  {before told more : List (Checkpoint kinds)}

theorem Owned.nil : Owned journal root before [] := fun earlier c later split =>
  absurd split (by simp)

theorem Owned.append (h : Owned journal root before told)
    (h' : Owned journal root (before ++ told) more) : Owned journal root before (told ++ more) := by
  intro earlier c later split opens
  rcases List.append_eq_append_iff.mp split with ⟨others, rfl, rest⟩ | ⟨others, rfl, rest⟩
  · obtain ⟨tagged, within, opened, past⟩ := h' others c later rest opens
    exact ⟨tagged, within, opened, by rw [past, List.append_assoc]⟩
  · cases others with
    | nil =>
      obtain ⟨tagged, within, opened, past⟩ := h' [] c later rest.symm opens
      refine ⟨tagged, within, opened, ?_⟩
      rw [past, List.append_nil, List.append_nil]
    | cons other others =>
      obtain ⟨rfl, -⟩ := List.cons.inj rest
      exact h earlier c others rfl opens

theorem Owned.of_part (spawns : Spawns root child) (h : Owned journal child before told) :
    Owned journal root before told := by
  intro earlier c later split opens
  obtain ⟨tagged, within, rest⟩ := h earlier c later split opens
  exact ⟨tagged, (Within.start.later spawns).trans within, rest⟩

/-- A checkpoint that enters nothing. -/
theorem Owned.closing {c : Checkpoint kinds} (closes : c.moment ≠ .enter) :
    Owned journal root before [c] := by
  intro earlier other later split opens
  cases earlier with
  | nil =>
    cases split
    exact absurd opens closes
  | cons _ tail => exact absurd (List.cons.inj split).2 (by simp)

theorem Owned.opening {c : Checkpoint kinds} (opens : root.Opens c) :
    Owned journal root (journal root.machine.stage.own) [c] := by
  intro earlier other later split _
  cases earlier with
  | nil =>
    cases split
    exact ⟨root, .start, opens, (List.append_nil _).symm⟩
  | cons _ tail => exact absurd (List.cons.inj split).2 (by simp)

variable {α β : Type} {r : Except Interrupt α} {m m' m'' : Machine S}

/-- Nothing is told. -/
theorem Delivery.same (h : m'.stage.own = m.stage.own) : Delivery journal root r m m' :=
  ⟨[], by rw [h, List.append_nil], fun _ => .nil, .nil⟩

theorem Delivery.congr {r' : Except Interrupt β} (h : Delivery journal root r m m')
    (unbroken : Unbroken r' → Unbroken r) (start : m''.stage.own = m.stage.own) {m₁ : Machine S}
    (finish : m₁.stage.own = m'.stage.own) : Delivery journal root r' m'' m₁ := by
  obtain ⟨told, after, bracketed, owned⟩ := h
  refine ⟨told, ?_, bracketed ∘ unbroken, ?_⟩
  · rw [start, finish, after]
  · rw [start]
    exact owned

theorem Delivery.trans {r' : Except Interrupt β} (h : Delivery journal root r m m')
    (h' : Delivery journal root r' m' m'') (unbroken : Unbroken r) :
    Delivery journal root r' m m'' := by
  obtain ⟨told, after, bracketed, owned⟩ := h
  obtain ⟨more, after', bracketed', owned'⟩ := h'
  refine ⟨told ++ more, ?_, fun unbroken' => (bracketed unbroken).append (bracketed' unbroken'), ?_⟩
  · rw [after', after, List.append_assoc]
  · rw [after] at owned'
    exact owned.append owned'

theorem Delivery.of_part (spawns : Spawns root child) (h : Delivery journal child r m m') :
    Delivery journal root r m m' := by
  obtain ⟨told, after, bracketed, owned⟩ := h
  exact ⟨told, after, bracketed, owned.of_part spawns⟩

/-- The evaluator tells what its parts tell. -/
theorem Goes.delivery {work : EvalM S α}
    (parts : ∀ child, Spawns root child →
      Delivery journal child child.ended.1 child.machine child.ended.2)
    (goes : Goes root work m) :
    Delivery journal root (work.run.run m).1 m (work.run.run m).2 := by
  induction goes with
  | value a m => exact .same rfl
  | quiet change m stage frames => exact .same (congrArg Stage.own stage)
  | raise raises => exact .same rfl
  | @part child spawns => exact (parts child spawns).of_part spawns
  | @callee child m work calls ran =>
    have inner := (parts child calls.spawns).of_part calls.spawns
    rw [ran]
    exact inner.congr id calls.own.symm rfl
  | look _ ih => exact ih
  | @bind _ _ work next m _ _ first later =>
    rw [run_bind]
    rcases ran : work.run.run m with ⟨e | a, m₁⟩
    · rw [ran] at first
      exact first.congr (fun unbroken e' same => unbroken e' (by cases same; rfl)) rfl rfl
    · rw [ran] at first
      exact first.trans (later a m₁ ran) (unbroken_ok a)

/-- Around what the code tells, `opening` and `closing` are told. -/
theorem Delivery.enclosed {r' : Except Interrupt β} {m₁ m₂ : Machine S}
    {opening closing : Checkpoint kinds} (h : Delivery journal root r m₁ m₂) (unbroken : Unbroken r)
    (opens : root.Opens opening) (begins : root.machine = m)
    (entered : journal m₁.stage.own = journal m.stage.own ++ [opening])
    (left : journal m'.stage.own = journal m₂.stage.own ++ [closing])
    (closes : closing.moment ≠ .enter) (site : closing.site = opening.site)
    (frame : closing.frame = opening.frame) : Delivery journal root r' m m' := by
  obtain ⟨told, after, bracketed, owned⟩ := h
  refine ⟨opening :: (told ++ [closing]), ?_, fun _ => ?_, ?_⟩
  · rw [left, after, entered]
    simp
  · have enter : opening.moment = .enter := by cases opens; rfl
    exact .pair enter closes site frame (bracketed unbroken) .nil
  · rw [entered] at owned
    subst begins
    exact (Owned.opening opens).append (owned.append (.closing closes))

end

section

variable {journal : S → List (Checkpoint kinds)} {n : Nat} {s : Surroundings S} {m : Machine S}

/-- A body tells what its statements tell. -/
theorem delivery_body {root : Situation S} {statements : List Code}
    (inner : Delivery journal root ((evalBody n s .nil statements).run.run m).1 m
      ((evalBody n s .nil statements).run.run m).2) :
    Delivery journal root ((eval (n + 1) s (.body statements)).run.run m).1 m
      ((eval (n + 1) s (.body statements)).run.run m).2 := by
  rw [run_body]
  generalize (evalBody n s .nil statements).run.run m = ran at inner ⊢
  rcases ran with ⟨(v | failure | _) | v, m'⟩
  · exact inner.congr (fun _ => unbroken_returning v) rfl rfl
  · exact inner
  · exact inner
  · exact inner

/-- Tagged code tells that it is entered, what the code inside tells, and, unless it is broken, how it
    is left. -/
theorem delivery_tagged {site : Site kinds} {code : Code} (keeps : Journals journal s.listener)
    (inside : ∀ m', (s.report site .enter []).run.run m = (.ok (), m') →
      Delivery journal ⟨n + 1, s, .code (.tagged site code), m⟩ ((eval n s code).run.run m').1 m'
        ((eval n s code).run.run m').2) :
    Delivery journal ⟨n + 1, s, .code (.tagged site code), m⟩
      ((eval (n + 1) s (.tagged site code)).run.run m).1 m
      ((eval (n + 1) s (.tagged site code)).run.run m).2 := by
  rcases entered : (s.report site .enter []).run.run m with ⟨e | ⟨⟩, m'⟩
  · rw [run_tagged_of_refused entered]
    exact ⟨_, keeps.report entered, fun unbroken => absurd unbroken (report_not_unbroken entered),
      .opening .intro⟩
  · have left := leaving n code entered
    have inner := inside m' entered
    generalize (eval n s code).run.run m' = ran, (eval (n + 1) s _).run.run m = ran' at left inner ⊢
    cases left with
    | value left =>
      exact inner.enclosed (unbroken_ok _) .intro rfl (keeps.report entered)
        (keeps.report left) nofun rfl rfl
    | returned left =>
      exact inner.enclosed (unbroken_returning _) .intro rfl (keeps.report entered)
        (keeps.report left) nofun rfl rfl
    | interrupted other =>
      obtain ⟨told, after, -, owned⟩ := inner
      refine ⟨⟨site, s.frame, .enter⟩ :: told, ?_,
        fun unbroken => absurd unbroken (not_unbroken other), ?_⟩
      · rw [after, keeps.report entered, List.append_assoc]
        rfl
      · rw [keeps.report entered] at owned
        exact (Owned.opening .intro).append owned

end

/-- Every situation tells what is bracketed, up to the point where it is broken. -/
theorem delivery {journal : S → List (Checkpoint kinds)} {sit : Situation S}
    (keeps : Journals journal sit.surroundings.listener) :
    Delivery journal sit sit.ended.1 sit.machine sit.ended.2 := by
  obtain ⟨n, s, task, m⟩ := sit
  induction n generalizing s task m with
  | zero =>
    rw [Situation.ended_zero]
    exact .same rfl
  | succ n ih =>
    have part : ∀ next, Spawns ⟨n + 1, s, task, m⟩ next →
        Delivery journal next next.ended.1 next.machine next.ended.2 := by
      rintro ⟨k, t, inner, m'⟩ spawns
      obtain rfl : n = k := Nat.succ.inj spawns.fuel
      exact ih t inner m' (spawns.listener ▸ keeps)
    rcases task.plain_or with plain | ⟨statements, rfl⟩ | ⟨site, code, rfl⟩
    · exact (goes plain).delivery part
    · exact delivery_body ((part _ .body).of_part .body)
    · exact delivery_tagged keeps fun m' entered =>
        (part _ (.tagged entered)).of_part (.tagged entered)

/-! ### The checkpoints of tagged code -/

/-- The stream tells of the tagged code that it is entered, then all that it tells `inside`, and then
    how it is left: by an exception just if a `return` is run inside. -/
structure Encloses (journal : S → List (Checkpoint kinds)) (tagged : Situation S)
    (stream : List (Checkpoint kinds)) (opening : Checkpoint kinds)
    (inside : List (Checkpoint kinds)) (closing : Checkpoint kinds) : Prop where
  opens : tagged.Opens opening
  place : ∃ later,
    stream = journal tagged.machine.stage.own ++ opening :: (inside ++ closing :: later)
  bracketed : Bracketed inside
  site : closing.site = opening.site
  frame : closing.frame = opening.frame
  closes : closing.moment ≠ .enter
  unwinds : ∀ text, closing.moment = .unwind text ↔ ∃ v, text = returnText v ∧ Returning tagged v

theorem Encloses.mono {journal : S → List (Checkpoint kinds)} {tagged : Situation S}
    {stream stream' inside : List (Checkpoint kinds)} {opening closing : Checkpoint kinds}
    (h : Encloses journal tagged stream opening inside closing) (more : stream <+: stream') :
    Encloses journal tagged stream' opening inside closing := by
  obtain ⟨later, rfl⟩ := h.place
  obtain ⟨rest, rfl⟩ := more
  exact ⟨h.opens, ⟨later ++ rest, by simp⟩, h.bracketed, h.site, h.frame, h.closes, h.unwinds⟩

variable {journal : S → List (Checkpoint kinds)}

theorem Situation.Opens.encloses {tagged : Situation S} {opening : Checkpoint kinds}
    (opens : tagged.Opens opening) (keeps : Journals journal tagged.surroundings.listener)
    (welltagged : tagged.surroundings.program.WellTagged) (unbroken : Unbroken tagged.ended.1) :
    ∃ inside closing,
      Encloses journal tagged (journal tagged.ended.2.stage.own) opening inside closing := by
  -- what the outcome says of a `return` inside
  have returns : ∀ v, tagged.ended.1 = .error (.returning v) ↔ Returning tagged v := fun v =>
    ⟨returning_of_ended welltagged, fun returning => returning.ended unbroken⟩
  cases opens with
  | @intro n s m site code =>
    change Unbroken ((eval (n + 1) s (.tagged site code)).run.run m).1 at unbroken
    rcases entered : (s.report site .enter []).run.run m with ⟨e | ⟨⟩, m'⟩
    · rw [run_tagged_of_refused entered] at unbroken
      exact absurd unbroken (report_not_unbroken entered)
    · have left := leaving n code entered
      have inner : Delivery journal _ ((eval n s code).run.run m').1 m'
          ((eval n s code).run.run m').2 := @delivery _ _ ⟨n, s, .code code, m'⟩ keeps
      change ∀ v, ((eval (n + 1) s (.tagged site code)).run.run m).1 = _ ↔ _ at returns
      change ∃ inside closing, Encloses journal _
        (journal ((eval (n + 1) s (.tagged site code)).run.run m).2.stage.own) _ inside closing
      generalize (eval n s code).run.run m' = ran, (eval (n + 1) s (.tagged site code)).run.run m
        = ran' at left inner unbroken returns ⊢
      obtain ⟨told, after, bracketed, -⟩ := inner
      have place : ∀ {moment : Moment Value} {values r m₃},
          (s.report site moment values).run.run ran.2 = (r, m₃) → journal m₃.stage.own =
            journal m.stage.own ++ ⟨site, s.frame, .enter⟩ :: (told ++ [⟨site, s.frame, moment⟩]) := by
        intro moment values r m₃ report
        rw [keeps.report report, after, keeps.report entered]
        simp
      cases left with
      | @value v m₂ r m₃ left =>
        rcases r with e | ⟨⟩
        · exact absurd unbroken (report_not_unbroken left)
        refine ⟨told, ⟨site, s.frame, .leave v⟩, .intro, ⟨[], place left⟩, bracketed (unbroken_ok v),
          rfl, rfl, nofun, fun text => ⟨nofun, ?_⟩⟩
        rintro ⟨w, -, returning⟩
        cases (returns w).mpr returning
      | @returned v m₂ r m₃ left =>
        rcases r with e | ⟨⟩
        · exact absurd unbroken (report_not_unbroken left)
        refine ⟨told, ⟨site, s.frame, .unwind (returnText v)⟩, .intro, ⟨[], place left⟩,
          bracketed (unbroken_returning v), rfl, rfl, nofun, fun text => ⟨?_, ?_⟩⟩
        · rintro ⟨⟩
          exact ⟨v, rfl, (returns v).mp rfl⟩
        · rintro ⟨w, rfl, returning⟩
          cases (returns w).mpr returning
          rfl
      | interrupted other => exact absurd unbroken (not_unbroken other)

/-- What a part has told is never taken back. -/
theorem Spawns.grows {root child : Situation S} (spawns : Spawns root child)
    (keeps : Journals journal root.surroundings.listener) :
    journal child.ended.2.stage.own <+: journal root.ended.2.stage.own := by
  have parts : ∀ next, Spawns root next →
      Delivery journal next next.ended.1 next.machine next.ended.2 :=
    fun next spawns => delivery (spawns.listener ▸ keeps)
  rcases root.task.plain_or with plain | ⟨statements, body⟩ | ⟨site, code, tagged⟩
  · obtain ⟨interrupted, goesOn⟩ := spawns.resumes plain
    rcases ended : child.ended with ⟨e | a, m'⟩
    · rw [ended] at interrupted
      exact (interrupted e rfl).2 ▸ List.prefix_rfl
    · obtain ⟨rest, m'', same, goes, stage⟩ := goesOn a m' ended
      obtain ⟨told, after, -⟩ := goes.delivery parts
      rw [stage, after, same]
      exact List.prefix_append _ _
  · cases spawns with
    | @body n s m statements =>
      change journal ((evalBody n s .nil statements).run.run m).2.stage.own <+:
        journal ((eval (n + 1) s (.body statements)).run.run m).2.stage.own
      rw [run_body]
      rcases (evalBody n s .nil statements).run.run m with ⟨(v | failure | _) | v, m'⟩ <;>
        exact List.prefix_rfl
    | _ => cases body
  · cases spawns with
    | @tagged n s m site code m' entered =>
      have left := leaving n code entered
      change journal ((eval n s code).run.run m').2.stage.own <+:
        journal ((eval (n + 1) s (.tagged site code)).run.run m).2.stage.own
      generalize (eval n s code).run.run m' = ran, (eval (n + 1) s _).run.run m = ran' at left ⊢
      cases left with
      | value left => exact keeps.report left ▸ List.prefix_append _ _
      | returned left => exact keeps.report left ▸ List.prefix_append _ _
      | interrupted => exact List.prefix_rfl
    | _ => cases tagged

/-- Everything within a situation has the program and the listener of it. -/
theorem Within.surroundings {start sit : Situation S} (within : Within start sit) :
    sit.surroundings.program = start.surroundings.program ∧
      sit.surroundings.listener = start.surroundings.listener := by
  induction within with
  | start => exact ⟨rfl, rfl⟩
  | later _ spawns ih => exact ⟨spawns.program.trans ih.1, spawns.listener.trans ih.2⟩

theorem Within.grows {start sit : Situation S} (within : Within start sit)
    (keeps : Journals journal start.surroundings.listener) :
    journal sit.ended.2.stage.own <+: journal start.ended.2.stage.own := by
  induction within with
  | start => exact List.prefix_rfl
  | later within spawns ih => exact (spawns.grows (within.surroundings.2 ▸ keeps)).trans ih

/-- The stream tells of each piece of tagged code that is not broken when it is entered and when it is
    left. -/
theorem Within.encloses {start tagged : Situation S} (within : Within start tagged)
    {opening : Checkpoint kinds} (opens : tagged.Opens opening)
    (keeps : Journals journal start.surroundings.listener)
    (welltagged : start.surroundings.program.WellTagged) (unbroken : Unbroken tagged.ended.1) :
    ∃ inside closing,
      Encloses journal tagged (journal start.ended.2.stage.own) opening inside closing := by
  obtain ⟨program, listener⟩ := within.surroundings
  obtain ⟨inside, closing, encloses⟩ :=
    opens.encloses (listener ▸ keeps) (program ▸ welltagged) unbroken
  exact ⟨inside, closing, encloses.mono (within.grows keeps)⟩

/-! ### Runs that come to a value -/

/-- The stream is that of the tagged code within the situation: it is well bracketed, it tells of all
    tagged code when it is entered and when it is left, and there is nothing else in it. -/
structure Nested (journal : S → List (Checkpoint kinds)) (start : Situation S)
    (stream : List (Checkpoint kinds)) : Prop where
  bracketed : Bracketed stream
  encloses : ∀ tagged opening, Within start tagged → tagged.Opens opening →
    ∃ inside closing, Encloses journal tagged stream opening inside closing
  only : ∀ earlier c later, stream = earlier ++ c :: later → ∃ tagged opening inside closing,
    Within start tagged ∧ Encloses journal tagged stream opening inside closing ∧
    (c = opening ∧ earlier = journal tagged.machine.stage.own ∨
      c = closing ∧ earlier = journal tagged.machine.stage.own ++ opening :: inside)

theorem nested {start : Situation S} (keeps : Journals journal start.surroundings.listener)
    (welltagged : start.surroundings.program.WellTagged)
    (empty : journal start.machine.stage.own = []) (unbroken : Unbroken start.ended.1) :
    Nested journal start (journal start.ended.2.stage.own) := by
  obtain ⟨told, after, bracketed, owned⟩ := delivery keeps
  rw [empty] at after owned
  have encloses : ∀ tagged opening, Within start tagged → tagged.Opens opening →
      ∃ inside closing,
        Encloses journal tagged (journal start.ended.2.stage.own) opening inside closing :=
    fun tagged opening within opens =>
      within.encloses opens keeps welltagged (within.unbroken unbroken)
  rw [after] at encloses ⊢
  rw [List.nil_append] at encloses ⊢
  refine ⟨bracketed unbroken, encloses, fun earlier c later split => ?_⟩
  by_cases enters : c.moment = .enter
  · obtain ⟨tagged, within, opens, past⟩ := owned earlier c later split enters
    obtain ⟨inside, closing, enclosed⟩ := encloses tagged c within opens
    exact ⟨tagged, c, inside, closing, within, enclosed, .inl ⟨rfl, past.symm⟩⟩
  · -- `c` closes the last enter that is not closed yet, which tells of the tagged code
    obtain ⟨before, opening, inner, rfl, opened, -, -, closed⟩ :=
      (split ▸ bracketed unbroken : Bracketed _).opening enters
    obtain ⟨tagged, within, opens, past⟩ := owned before opening (inner ++ c :: later)
      (by rw [split]; simp) opened
    obtain ⟨inside, closing, enclosed⟩ := encloses tagged opening within opens
    obtain ⟨rest, place⟩ := enclosed.place
    rw [past, List.nil_append, split, List.append_assoc] at place
    have tails := List.append_cancel_left place
    obtain ⟨rfl, rfl, -⟩ :=
      closed.unique enclosed.bracketed enters enclosed.closes (List.cons.inj tails).2
    refine ⟨tagged, opening, inner, c, within, enclosed, .inr ⟨rfl, ?_⟩⟩
    rw [past, List.nil_append]

/-! ### Runs that fail -/

/-- On its way through the first situation the evaluator is at the last one, inside of this tagged
    code, the outermost first. -/
inductive Amid : Situation S → List (Situation S) → Situation S → Prop
  | here (sit : Situation S) : Amid sit [] sit
  | untagged {sit next last active} (spawns : Spawns sit next) (unopened : ∀ c, ¬ sit.Opens c)
      (h : Amid next active last) : Amid sit active last
  | tagged {sit next last active c} (spawns : Spawns sit next) (opens : sit.Opens c)
      (h : Amid next active last) : Amid sit (sit :: active) last

/-- The stream breaks off: the enters that are not closed are those of the tagged code `active`. -/
inductive CutShort : List (Situation S) → List (Checkpoint kinds) → Prop
  | closed {told} (bracketed : Bracketed told) : CutShort [] told
  | unclosed {before opening rest tagged active} (bracketed : Bracketed before)
      (opens : Situation.Opens tagged opening) (h : CutShort active rest) :
      CutShort (tagged :: active) (before ++ opening :: rest)

theorem CutShort.after {active : List (Situation S)} {before told : List (Checkpoint kinds)}
    (h : CutShort active told) (bracketed : Bracketed before) : CutShort active (before ++ told) := by
  cases h with
  | closed closed => exact .closed (bracketed.append closed)
  | unclosed first opens rest =>
    rw [← List.append_assoc]
    exact .unclosed (bracketed.append first) opens rest

/-- Where a situation is broken other than by a refusal, the stream ends. -/
theorem cutShort {sit : Situation S} (keeps : Journals journal sit.surroundings.listener)
    {e : Interrupt} (ended : sit.ended.1 = .error e) (other : ∀ v, e ≠ .returning v)
    (unrefused : ∀ fault, e ≠ .failing (.refused fault)) :
    ∃ active last m told, Amid sit active last ∧ Raises last e m ∧
      m.stage = sit.ended.2.stage ∧
      journal m.stage.own = journal sit.machine.stage.own ++ told ∧ CutShort active told := by
  obtain ⟨n, s, task, m⟩ := sit
  induction n generalizing s task m with
  | zero =>
    rw [Situation.ended_zero] at ended ⊢
    cases ended
    exact ⟨[], _, m, [], .here _, .outOfFuel, rfl, (List.append_nil _).symm, .closed .nil⟩
  | succ n ih =>
    have kept : ∀ child a, Spawns ⟨n + 1, s, task, m⟩ child → child.ended.1 = .ok a →
        (∃ told, journal child.machine.stage.own = journal m.stage.own ++ told ∧ Bracketed told) →
        ∃ told, journal child.ended.2.stage.own = journal m.stage.own ++ told ∧ Bracketed told := by
      rintro child a spawns value ⟨told, before, bracketed⟩
      have keeps : Journals journal child.surroundings.listener := spawns.listener ▸ keeps
      obtain ⟨more, after, bracketed', -⟩ := delivery keeps
      refine ⟨told ++ more, ?_, bracketed.append (bracketed' (value ▸ unbroken_ok a))⟩
      rw [after, before, List.append_assoc]
    rcases breaks (P := fun own => ∃ told, journal own = journal m.stage.own ++ told ∧ Bracketed told)
      kept ⟨[], (List.append_nil _).symm, .nil⟩ ended other with
      ⟨raises, told, before, bracketed⟩ | ⟨site, moment, values, m', m'', report⟩ |
      ⟨⟨k, t, inner, m'⟩, spawns, before, inside, stage⟩
    · exact ⟨[], _, _, told, .here _, raises, rfl, before, .closed bracketed⟩
    · obtain ⟨fault, same⟩ := report_error report
      exact absurd same (unrefused fault)
    · obtain rfl : n = k := Nat.succ.inj spawns.fuel
      obtain ⟨active, last, m₁, told, amid, raises, same, after, short⟩ :=
        ih t inner m' (spawns.listener ▸ keeps) inside
      by_cases opens : ∃ c, Situation.Opens ⟨n + 1, s, task, m⟩ c
      · obtain ⟨c, opens⟩ := opens
        refine ⟨_ :: active, last, m₁, c :: told, .tagged spawns opens amid, raises,
          same.trans stage, ?_, .unclosed .nil opens short⟩
        cases opens
        cases spawns with
        | tagged entered =>
          rw [after, keeps.report entered, List.append_assoc]
          rfl
      · have unopened : ∀ c, ¬ Situation.Opens ⟨n + 1, s, task, m⟩ c :=
          fun c opened => opens ⟨c, opened⟩
        obtain ⟨earlier, begins, bracketed⟩ := before unopened
        refine ⟨active, last, m₁, earlier ++ told, .untagged spawns unopened amid, raises,
          same.trans stage, ?_, short.after bracketed⟩
        rw [after, begins, List.append_assoc]

/-! ### Whole runs -/

theorem Outcome.unbroken_of_finished {frame : FrameId} {r : Except Interrupt Value} {run : Run}
    (h : Outcome.of frame r = .finished run) : Unbroken r := by
  rcases r with (v | failure | _) | v
  · exact unbroken_returning v
  · cases h
  · cases h
  · exact unbroken_ok v

theorem Outcome.error_of_failed {frame : FrameId} {r : Except Interrupt Value} {failure : Failure}
    (h : Outcome.of frame r = .failed failure) : r = .error (.failing failure) := by
  rcases r with (v | other | _) | v <;> cases h
  rfl

/-- The stream of a run is well bracketed. A listener with a journal leaves the run as it is, and the
    journal is the stream: in a run that ends with a value it is that of all the tagged code, which a
    `return` leaves by an exception up to the body of its function; where the program fails the stream
    breaks off inside of the tagged code at work and nothing is told any more. This goes for any
    listener, as long as it refuses nothing. -/
theorem Program.stream_bracketed {source : Source} {scope : ScopeId} {p : Program}
    (compiled : source.compile scope = some p) (fuel : Nat) (listener : Listener kinds S)
    (owned : List Entity) (world : World) (stage : Stage kinds S) :
    let start := p.situation fuel listener.journaled owned world stage.journaled
    let told := p.run fuel listener.journaled owned world stage.journaled
    let outcome := (p.run fuel listener owned world stage).1
    let stream := p.stream fuel listener owned world stage
    (p.run fuel listener owned world stage = (told.1, told.2.1, told.2.2.bare) ∧
      stream = told.2.2.own.2) ∧
    (∀ run, outcome = .finished run → Nested Prod.snd start stream) ∧
    (∀ failure, outcome = .failed failure → (∀ fault, failure ≠ .refused fault) →
      (∃ active last m, Amid start active last ∧ Raises last (.failing failure) m ∧
        m.stage.own.2 = stream ∧ CutShort active stream) ∧
      ∀ tagged opening, Within start tagged → tagged.Opens opening → Unbroken tagged.ended.1 →
        ∃ inside closing, Encloses Prod.snd tagged stream opening inside closing) ∧
    (AcceptsAll listener → ∀ fault, outcome ≠ .failed (.refused fault)) := by
  intro start told outcome stream
  have welltagged : p.WellTagged := (Source.wellTagged_of_compile compiled).1
  have keeps : Journals Prod.snd start.surroundings.listener := journals_journaled listener
  have same := p.run_journaled fuel listener owned world stage
  have came : outcome = .of ⟨world.frames.size⟩ start.ended.1 := congrArg Prod.fst same
  refine ⟨⟨same, rfl⟩, ?_, ?_, ?_⟩
  · intro run finished
    have unbroken : Unbroken start.ended.1 := Outcome.unbroken_of_finished (came.symm.trans finished)
    exact nested keeps welltagged rfl unbroken
  · intro failure failed unrefused
    have ended : start.ended.1 = .error (.failing failure) :=
      Outcome.error_of_failed (came.symm.trans failed)
    obtain ⟨active, last, m, rest, amid, raises, stopped, after, short⟩ :=
      cutShort keeps ended nofun fun fault refused => unrefused fault (by cases refused; rfl)
    have whole : m.stage.own.2 = stream := congrArg (fun stage => stage.own.2) stopped
    refine ⟨⟨active, last, m, amid, raises, whole, ?_⟩, ?_⟩
    · rw [← whole, after]
      exact short
    · exact fun tagged opening within opens => within.encloses opens keeps welltagged
  · intro accepts fault refused
    have accepting : AcceptsAll (p.situation fuel listener owned world stage).surroundings.listener :=
      accepts
    exact never_refused accepting fault (Outcome.error_of_failed refused)

/-- A traced function is left by its `return`, and the main part by a value. -/
theorem Program.stream_bracketed_calling :
    callingSource.compile ⟨0⟩ = some callingProgram ∧
      (callingProgram.run 20 .checkpointLog [] callingWorld callingStage).1 =
        .finished ⟨⟨1⟩, .int 3⟩ ∧
      Nested Prod.snd
        (callingProgram.situation 20 (Listener.journaled .checkpointLog) [] callingWorld
          callingStage.journaled)
        (callingProgram.stream 20 .checkpointLog [] callingWorld callingStage) := by
  have compiled : callingSource.compile ⟨0⟩ = some callingProgram := rfl
  have finished : (callingProgram.run 20 .checkpointLog [] callingWorld callingStage).1 =
      .finished ⟨⟨1⟩, .int 3⟩ := by decide +kernel
  have bracketed :=
    Program.stream_bracketed compiled 20 .checkpointLog [] callingWorld callingStage
  exact ⟨compiled, finished, bracketed.2.1 _ finished⟩

end Lineage.Toy
