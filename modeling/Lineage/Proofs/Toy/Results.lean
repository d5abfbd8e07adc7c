import Lineage.Proofs.Footprint
import Lineage.Proofs.Toy.Arguments
import Lineage.Proofs.Toy.Frames

/-!
# Results and values

The record of an invocation has a result once a `return` has been left, and with the `return` all is
left that is around it in the body. So whatever comes to a value keeps the result of its frame. This is
because only the body of a function catches a `return`: there are no bodies inside others.
-/

namespace Lineage

/-- The result of a frame is set where a `return` is left, and nowhere else. -/
theorem Tracer.result_react {K : Kinds} {tracer : Tracer} {host : Host K} {c : Checkpoint K}
    {s : Shadow K} (sane : s.Unpoisoned) (inside : .functionBoundary ∉ c.site.categories.toList)
    (stays : c.moment.kind ≠ .unwind) :
    Ends (tracer.react host c) s fun _ t =>
      (t.recordOf c.frame).result = (s.recordOf c.frame).result := by
  have confined : Ends (c.site.categories.toList.forM fun category =>
      ExceptT.adapt (·.atSite c.site.id) (tracer.rule host c category)) (noted s c) fun _ t =>
        Shadow.Confined host c.frame ⟨fun _ => True, False⟩ (noted s c).nextSeq (noted s c) [] t [] :=
    confined_rules ((sameState_noted s c).unpoisoned sane) (Nat.le_refl _)
      (fun boundary => absurd boundary inside) (fun _ _ _ _ => trivial)
      fun unwinds => absurd unwinds stays
  rw [Ends, run_react]
  have kept := Shadow.Confined.result confined id
  rwa [Shadow.recordOf_noted] at kept

namespace Toy

open Shadow

variable {S : Type} {tracer : Tracer} {seen : Stage kinds S → List (Node Value) → Prop}
  {n : Nat} {s : Surroundings S} {m m' : Machine S} {site : Site kinds} {code : Code} {v : Value}

/-! ### Bodies are outermost -/

namespace Code

mutual

/-- There is no body in the code. -/
def bodiless : Code → Bool
  | .body _ => false
  | .setLocal _ value | .setGlobal _ value | .setClassVariable _ value | .ret value => value.bodiless
  | .getProperty receiver _ => receiver.bodiless
  | .add left right => left.bodiless && right.bodiless
  | .setProperty receiver _ value => value.bodiless && receiver.bodiless
  | .call _ args => bodilessAll args
  | .tagged _ code => code.bodiless
  | .int _ | .str _ | .nil | .new _ | .getLocal _ | .arg _ | .getGlobal _ | .getClassVariable _ => true

def bodilessAll : List Code → Bool
  | [] => true
  | code :: rest => code.bodiless && bodilessAll rest

end

/-- If the code has a body, this is all of the code, its tags left out. -/
def flat : Code → Bool
  | .body statements => bodilessAll statements
  | .tagged _ code => code.flat
  | code => code.bodiless

theorem flat_of_bodiless (code : Code) (h : code.bodiless = true) : code.flat = true := by
  cases code with
  | body => cases h
  | tagged site code => exact flat_of_bodiless code h
  | _ => exact h

end Code

namespace Compile

theorem bodiless_tag {traced : Bool} {traits : List (Site.Trait kinds)} {code : Compile Code}
    (label : String) (inner : ∀ n, (code.run n).1.bodiless = true) (n : Nat) :
    ((tag traced label traits code).run n).1.bodiless = true := by
  cases traced with
  | false => exact inner n
  | true => exact inner (n + 1)

mutual

theorem bodiless_expr (scope : ScopeId) (traced : Bool) (e : Expr) (n : Nat) :
    ((expr scope traced e).run n).1.bodiless = true := by
  cases e with
  | int | str | nil | new | getLocal | arg | getGlobal | getClassVariable =>
    exact bodiless_tag _ (fun _ => rfl) n
  | setLocal name value | setGlobal name value | setClassVariable name value | ret value =>
    refine bodiless_tag _ (fun k => ?_) n
    exact bodiless_expr scope traced value k
  | getProperty receiver name =>
    refine bodiless_tag _ (fun k => ?_) n
    exact bodiless_expr scope traced receiver k
  | add left right =>
    refine bodiless_tag _ (fun k => ?_) n
    exact Bool.and_eq_true_iff.mpr
      ⟨bodiless_expr scope traced left k, bodiless_expr scope traced right _⟩
  | setProperty receiver name value =>
    refine bodiless_tag _ (fun k => ?_) n
    exact Bool.and_eq_true_iff.mpr
      ⟨bodiless_expr scope traced value k, bodiless_expr scope traced receiver _⟩
  | call name args =>
    refine bodiless_tag _ (fun k => ?_) n
    exact bodilessAll_exprs scope traced args k

theorem bodilessAll_exprs (scope : ScopeId) (traced : Bool) (es : List Expr) (n : Nat) :
    Code.bodilessAll ((exprs scope traced es).run n).1 = true := by
  cases es with
  | nil => rfl
  | cons e rest =>
    exact Bool.and_eq_true_iff.mpr
      ⟨bodiless_expr scope traced e n, bodilessAll_exprs scope traced rest _⟩

end

theorem flat_definition (scope : ScopeId) (d : Definition) (n : Nat) :
    ((definition scope d).run n).1.flat = true := by
  unfold definition
  cases d.traced with
  | false => exact bodilessAll_exprs scope false _ n
  | true => exact bodilessAll_exprs scope true _ _

end Compile

/-- The program has no bodies besides those of its functions. -/
structure Program.Flat (p : Program) : Prop where
  main : p.main.flat = true
  functions : ∀ name code, p.functions.get? name = some code → code.flat = true

theorem Source.flat_of_compile {source : Source} {scope : ScopeId} {p : Program}
    (compiled : source.compile scope = some p) : p.Flat := by
  obtain ⟨main, -, rfl⟩ := Option.map_eq_some_iff.mp compiled
  refine ⟨Compile.flat_definition scope main 0, ?_⟩
  exact Compile.functions_forall (Compile.flat_definition scope) source.functions {}
    (fun _ _ found => nomatch found) _

namespace Task

/-- There is no body in the task. -/
def Bodiless : Task → Prop
  | .code c => c.bodiless = true
  | .args codes | .body _ codes => Code.bodilessAll codes = true

def Flat : Task → Prop
  | .code c => c.flat = true
  | .args codes | .body _ codes => Code.bodilessAll codes = true

theorem flat_of_bodiless {task : Task} (h : task.Bodiless) : task.Flat := by
  cases task with
  | code c => exact Code.flat_of_bodiless c h
  | args | body => exact h

end Task

/-- The parts of a plain task are without bodies. -/
theorem Spawns.bodiless {sit next : Situation S} (spawns : Spawns sit next) (plain : sit.task.Plain)
    (inside : ∀ m, ¬ Calls sit m next) (flat : sit.task.Flat) : next.task.Bodiless := by
  cases spawns with
  | body => exact plain.elim
  | tagged => exact plain.elim
  | callFunction ran found => exact absurd (.intro ran found) (inside _)
  | setLocal | callArgs | getProperty | setGlobal | setClassVariable | ret => exact flat
  | addLeft | setPropertyValue | arg | statement => exact (Bool.and_eq_true_iff.mp flat).1
  | addRight | setPropertyReceiver | laterArgs | laterStatements =>
    exact (Bool.and_eq_true_iff.mp flat).2

theorem Within.flat {start sit : Situation S} (within : Within start sit)
    (program : start.surroundings.program.Flat) (begins : start.task.Flat) : sit.task.Flat := by
  induction within with
  | start => exact begins
  | @later sit next within spawns ih =>
    have functions := (within.surroundings.1.symm ▸ program :
      sit.surroundings.program.Flat).functions
    by_cases called : ∃ m, Calls sit m next
    · obtain ⟨m, calls⟩ := called
      cases calls with
      | intro ran found => exact functions _ _ found
    · rcases sit.task.plain_or with plain | ⟨statements, body⟩ | ⟨site, code, tagged⟩
      · refine Task.flat_of_bodiless (spawns.bodiless plain (fun m calls => called ⟨m, calls⟩) ih)
      · cases spawns with
        | body => exact ih
        | _ => cases body
      · cases spawns with
        | tagged => exact ih
        | _ => cases tagged

/-! ### Checkpoints on the way -/

/-- What the tracer does at a checkpoint is what the run does to the shadow state. -/
theorem Watches.report (watches : Watches tracer s.listener seen) {moment : Moment Value}
    {values : List Value} {r : Except Interrupt Unit}
    (run : (s.report site moment values).run.run m = (r, m')) {P : Shadow kinds → Prop}
    (reacts : Ends (tracer.react (s.place m values).host ⟨site, s.frame, moment⟩) m.stage.shadow
      fun _ u => P u) : P m'.stage.shadow := by
  obtain rfl : ((s.report site moment values).run.run m).2 = m' := congrArg Prod.snd run
  have shadow := watches.shadow (s.place m values).host ⟨site, s.frame, moment⟩ m.stage
  change P ((s.listener.react (s.place m values).host ⟨site, s.frame, moment⟩).run.run
    m.stage).2.shadow
  rw [shadow]
  exact reacts

/-- Tagged code that comes to a value has been entered, has come to the value inside, and has been
    left. -/
theorem run_tagged_value (run : (eval (n + 1) s (.tagged site code)).run.run m = (.ok v, m')) :
    ∃ m₁ m₂, (s.report site .enter []).run.run m = (.ok (), m₁) ∧
      (eval n s code).run.run m₁ = (.ok v, m₂) ∧
      (s.report site (.leave v) [v]).run.run m₂ = (.ok (), m') := by
  rcases entered : (s.report site .enter []).run.run m with ⟨e | ⟨⟩, m₁⟩
  · rw [run_tagged_of_refused entered] at run
    cases run
  · have left := leaving n code entered
    rw [run] at left
    generalize inner : (eval n s code).run.run m₁ = ran at left
    obtain ⟨outcome, ended⟩ : ∃ r, r = ((.ok v, m') : Except Interrupt Value × Machine S) := ⟨_, rfl⟩
    rw [← ended] at left
    cases left with
    | @value w m₂ r m₃ left =>
      cases r with
      | error e => cases ended
      | ok =>
        cases ended
        exact ⟨m₁, m₂, rfl, inner, left⟩
    | @returned w m₂ r m₃ left => cases r <;> cases ended
    | interrupted => cases ended

/-- A situation in which the frame has a record belongs to a traced definition. -/
theorem Sound.formed {sit : Situation S} (sound : Sound tracer seen sit)
    (recorded : sit.machine.stage.shadow.record? sit.surroundings.frame ≠ none) :
    Formed true sit := by
  cases sound with
  | code _ h shaped => exact .code (h.recorded_iff.mp recorded ▸ shaped)
  | piece _ h piece => exact .piece (h.recorded_iff.mp recorded ▸ piece)
  | args _ h shaped => exact .args (h.recorded_iff.mp recorded ▸ shaped)
  | body _ h shaped => exact .body (h.recorded_iff.mp recorded ▸ shaped)
  | function begun =>
    obtain ⟨_, _, _, h, _⟩ := begun
    cases h.recorded_iff.mp recorded

/-- A piece of a traced function between its checkpoints, and what is known of the machine before and
    after the first of them. -/
structure Inside (tracer : Tracer) (seen : Stage kinds S → List (Node Value) → Prop)
    (s : Surroundings S) (site : Site kinds) (code : Code) (m m' : Machine S) (a : Activation)
    (id : SiteId) (label : String) (l l' : Ledger) : Prop where
  fit : Fit tracer seen s
  site : site = siteOf s.program.scope id label code
  piece : code.Piece s.program.scope true
  traced : a.traced = true
  before : Follows False seen s a [] m l
  after : Follows False seen s (a.inside id code l.operands) [] m' l'
  empty : l'.operands = []

theorem Follows.entered {a : Activation} {l : Ledger} {id : SiteId} {label : String}
    (fit : Fit tracer seen s) (h : Follows False seen s a [] m l) (traced : a.traced = true)
    (piece : code.Piece s.program.scope true) (enter : (s.report
      (siteOf s.program.scope id label code) .enter []).run.run m = (.ok (), m')) :
    ∃ l', Inside tracer seen s (siteOf s.program.scope id label code) code m m' a id label l l' := by
  have sim : Sim False seen _ _ m l _ fun _ _ _ => False :=
    .enter id label h fit.watches traced piece
  obtain ⟨l', -, -, empty, inside⟩ := Ends.at_run sim enter
  exact ⟨l', fit, rfl, piece, traced, h, inside, empty⟩

theorem Sound.entered (sound : Sound tracer seen ⟨n + 1, s, .code (.tagged site code), m⟩)
    (recorded : m.stage.shadow.record? s.frame ≠ none)
    (enter : (s.report site .enter []).run.run m = (.ok (), m')) :
    ∃ a id label l l', Inside tracer seen s site code m m' a id label l l' := by
  rcases sound.tagged with
    ⟨a, l, id, label, traced, rfl, fit, h, piece⟩ | ⟨_, _, _, h, _⟩
  · obtain ⟨l', inside⟩ := h.entered fit traced piece enter
    exact ⟨a, id, label, l, l', inside⟩
  · cases h.recorded_iff.mp recorded

namespace Inside

variable {a : Activation} {id : SiteId} {label : String} {l l' : Ledger} {m₂ : Machine S}

theorem shaped (inside : Inside tracer seen s site code m m' a id label l l') :
    (Code.tagged site code).Shaped s.program.scope a.traced := by
  rw [inside.site, inside.traced]
  exact .tagged id label inside.piece

/-- The machine still agrees with a ledger once the piece has come to a value, or has been left by a
    `return` of it. -/
theorem ran (inside : Inside tracer seen s site code m m' a id label l l')
    {r : Except Interrupt Value} (run : (eval n s code).run.run m' = (r, m₂))
    (ended : r = .ok v ∨ r = .error (.returning v)) :
    ∃ l₂, Follows False seen s (a.inside id code l.operands) [v] m₂ l₂ := by
  have sim := (good tracer False seen n).piece s _ m' l' code inside.fit inside.after
    (by rw [Activation.inside, inside.traced]; exact inside.piece) inside.empty
  replace sim := Ends.at_run sim run
  rcases ended with rfl | rfl
  · obtain ⟨l₂, -, done⟩ := sim
    exact ⟨l₂, done.follows⟩
  · obtain ⟨l₂, -, -, done⟩ := sim
    exact ⟨l₂, done.follows⟩

theorem noBoundary (inside : Inside tracer seen s site code m m' a id label l l') :
    .functionBoundary ∉ site.categories.toList := by
  have other := notBoundary_of_piece inside.piece
  rw [inside.site]
  rcases categories_siteOf inside.piece id label with only | both
  · rw [only]
    exact fun mem => other (List.mem_singleton.mp mem).symm
  · rw [both]
    intro mem
    rcases List.mem_cons.mp mem with same | mem
    · exact other same.symm
    · cases List.mem_singleton.mp mem

end Inside

/-! ### What comes to a value keeps the result -/

/-- The frame has a record with this result. -/
def HasResult (frame : FrameId) (result : Option (Node Value)) (t : Shadow kinds) : Prop :=
  ∃ r, t.record? frame = some r ∧ r.result = result

theorem HasResult.recorded {frame : FrameId} {result : Option (Node Value)} {t : Shadow kinds}
    (h : HasResult frame result t) : t.record? frame ≠ none := by
  obtain ⟨r, found, -⟩ := h
  rw [found]
  exact Option.some_ne_none r

variable {result : Option (Node Value)}

/-- A checkpoint of a piece that is no `return`, or has come to a value. -/
theorem HasResult.report (h : HasResult s.frame result m.stage.shadow)
    (watches : Watches tracer s.listener seen) (sane : m.stage.shadow.Unpoisoned)
    (inside : .functionBoundary ∉ site.categories.toList) {moment : Moment Value}
    (stays : moment.kind ≠ .unwind) {values : List Value} {r : Except Interrupt Unit}
    (run : (s.report site moment values).run.run m = (r, m'))
    (recorded : m'.stage.shadow.record? s.frame ≠ none) :
    HasResult s.frame result m'.stage.shadow := by
  obtain ⟨before, found, rfl⟩ := h
  obtain ⟨after, found'⟩ := Option.ne_none_iff_exists'.mp recorded
  have same := watches.report run (P := fun u =>
    (u.recordOf s.frame).result = (m.stage.shadow.recordOf s.frame).result)
    (Tracer.result_react sane inside stays)
  rw [recordOf_eq found, recordOf_eq found'] at same
  exact ⟨after, found', same⟩

/-- What a function hands to its caller is nothing to its own result. -/
theorem HasResult.handed {p : Place} {t u : Shadow kinds} {node : Node Value}
    (h : HasResult p.frame result t) (handed : Handed p node t u)
    (apart : p.host.callerOf p.frame ≠ some p.frame) : HasResult p.frame result u := by
  obtain ⟨r, found, rfl⟩ := h
  cases handed with
  | kept alone same => exact ⟨r, (same.record?_eq _).trans found, rfl⟩
  | given caller record callerRecord mid called own known took gave =>
    obtain rfl : r = record := Option.some.inj (found.symm.trans own)
    have ne : p.frame ≠ caller := fun same => apart (same ▸ called)
    exact ⟨_, ((gave.frames.others _ ne).content?_eq id).trans took.record?, rfl⟩

/-- A function that is called leaves the result of its caller as it is. -/
theorem Begun.keeps_result {name : String} {values : List Value}
    (begun : Begun tracer seen (s.callee m) (s.calling m name values) code)
    (made : m.world.Made (.frame s.frame))
    (run : (eval n (s.callee m) code).run.run (s.calling m name values) = (.ok v, m'))
    (h : HasResult s.frame result m.stage.shadow) : HasResult s.frame result m'.stage.shadow := by
  obtain ⟨arguments, l, fit, follows, fresh, defined⟩ := begun
  have sim := (good tracer False seen n).function _ arguments _ l code fit follows fresh defined
  obtain ⟨l', -, done⟩ := Ends.at_run sim run
  obtain ⟨stage, came, delivered⟩ := done.delivered made
  have isCaller : (s.callee m).caller? (s.calling m name values) = some s.frame :=
    congrArg (·.bind (·.caller)) (World.frame?_addFrame m.world (s.invocation name values))
  obtain ⟨r, found, rfl⟩ := h
  have kept : stage.shadow.record? s.frame = some r :=
    (came.since.caller_kept follows.called isCaller).trans found
  have after := delivered.caller
  rw [kept] at after
  exact ⟨_, after, rfl⟩

/-- Whatever comes to a value in a frame that has a record keeps the result of the record. -/
theorem Sound.keeps_result {sit : Situation S} (sound : Sound tracer seen sit)
    (bodiless : sit.task.Bodiless)
    (h : HasResult sit.surroundings.frame result sit.machine.stage.shadow) {a : sit.task.Result}
    (ended : sit.ended.1 = .ok a) :
    HasResult sit.surroundings.frame result sit.ended.2.stage.shadow := by
  obtain ⟨n, s, task, m⟩ := sit
  induction n generalizing s task m with
  | zero =>
    rw [Situation.ended_zero] at ended
    cases ended
  | succ n ih =>
    rcases task.plain_or with plain | ⟨statements, rfl⟩ | ⟨site, code, rfl⟩
    · have run : (Situation.work ⟨n + 1, s, task, m⟩).run.run m = (.ok a, _) := Prod.ext ended rfl
      refine Goes.value_holds (P := fun stage => HasResult s.frame result stage.shadow) ?_ ?_
        (goes plain) run h
      · rintro ⟨k, t, inner, m'⟩ b spawns inside came holds
        obtain rfl : n = k := Nat.succ.inj spawns.fuel
        have frame := ((sound.formed h.recorded).part plain spawns inside).2
        rw [← show t.frame = s.frame from frame] at holds ⊢
        exact ih t inner m' (sound.spawns spawns)
          (spawns.bodiless plain inside (Task.flat_of_bodiless bodiless)) holds came
      · intro m' child b calls came holds
        cases calls with
        | intro ran found =>
          obtain ⟨_, _, fit, follows, piece, -⟩ := sound.untagged rfl
          cases piece with
          | call _ shaped =>
            obtain ⟨_, done⟩ := follows.ranArgs fit shaped ran
            exact (sound.begun ran found).keeps_result done.follows.called.made (Prod.ext came rfl)
              holds
    · cases bodiless
    · -- neither of the two checkpoints sets the result, and the piece between them keeps it
      obtain ⟨m₁, m₂, enter, inner, leave⟩ := run_tagged_value (Prod.ext ended rfl)
      obtain ⟨b, id, label, l, l', inside⟩ := sound.entered h.recorded enter
      have opened := h.report inside.fit.watches inside.before.mirrors.sane inside.noBoundary
        (fun unwinds => by cases unwinds) enter (inside.after.recorded_iff.mpr inside.traced)
      have came : HasResult s.frame result ((eval n s code).run.run m₁).2.stage.shadow :=
        ih s (.code code) m₁ (sound.inside enter) bodiless opened (congrArg Prod.fst inner)
      rw [inner] at came
      obtain ⟨l₂, done⟩ := inside.ran inner (.inl rfl)
      obtain ⟨l₃, whole⟩ := inside.before.ran inside.fit inside.shaped (Prod.ext ended rfl)
      exact came.report inside.fit.watches done.mirrors.sane inside.noBoundary
        (fun unwinds => by cases unwinds) leave
        (whole.follows.recorded_iff.mpr inside.traced)

end Toy

end Lineage
