import Lineage.Proofs.History
import Lineage.Proofs.Toy.Simulation

/-!
# The situations of a run

A run of a program is made of evaluations inside evaluations. `Spawns` tells, form by form, what the
evaluator runs on its way, and `Within` gathers all that is ever evaluated in a run. Each of these
situations is one of which the simulation can speak (`Sound`).
-/

namespace Lineage.Toy

open Shadow

variable {S : Type}

/-- What the evaluator may be asked to run. -/
inductive Task where
  | code (code : Code)
  | args (args : List Code)
  /-- Statements that follow one of the given value. -/
  | body (last : Value) (statements : List Code)

/-- A moment at which the evaluator begins with a task. -/
structure Situation (S : Type) where
  fuel : Nat
  surroundings : Surroundings S
  task : Task
  machine : Machine S

/-- The machine with which the code of a called function begins. -/
def Surroundings.calling (s : Surroundings S) (m : Machine S) (name : String)
    (values : List Value) : Machine S :=
  let world := (m.world.addFrame (s.invocation name values)).2
  { ((noteCall name values.length).run.run { m with world }).2 with locals := {} }

/-- On the way through the first situation the evaluator comes to the second. -/
inductive Spawns : Situation S → Situation S → Prop
  | setLocal {n s m name value} :
      Spawns ⟨n + 1, s, .code (.setLocal name value), m⟩ ⟨n, s, .code value, m⟩
  | addLeft {n s m left right} :
      Spawns ⟨n + 1, s, .code (.add left right), m⟩ ⟨n, s, .code left, m⟩
  | addRight {n s m left right v m'} (first : (eval n s left).run.run m = (.ok v, m')) :
      Spawns ⟨n + 1, s, .code (.add left right), m⟩ ⟨n, s.hold [v], .code right, m'⟩
  | callArgs {n s m name args} :
      Spawns ⟨n + 1, s, .code (.call name args), m⟩ ⟨n, s, .args args, m⟩
  | callFunction {n s m name args values m' function}
      (first : (evalArgs n s args).run.run m = (.ok values, m'))
      (found : s.program.functions.get? name = some function) :
      Spawns ⟨n + 1, s, .code (.call name args), m⟩
        ⟨n, s.callee m', .code function, s.calling m' name values⟩
  | getProperty {n s m receiver name} :
      Spawns ⟨n + 1, s, .code (.getProperty receiver name), m⟩ ⟨n, s, .code receiver, m⟩
  | setPropertyValue {n s m receiver name value} :
      Spawns ⟨n + 1, s, .code (.setProperty receiver name value), m⟩ ⟨n, s, .code value, m⟩
  | setPropertyReceiver {n s m receiver name value v m'}
      (first : (eval n s value).run.run m = (.ok v, m')) :
      Spawns ⟨n + 1, s, .code (.setProperty receiver name value), m⟩
        ⟨n, s.hold [v], .code receiver, m'⟩
  | setGlobal {n s m name value} :
      Spawns ⟨n + 1, s, .code (.setGlobal name value), m⟩ ⟨n, s, .code value, m⟩
  | setClassVariable {n s m name value} :
      Spawns ⟨n + 1, s, .code (.setClassVariable name value), m⟩ ⟨n, s, .code value, m⟩
  | ret {n s m value} : Spawns ⟨n + 1, s, .code (.ret value), m⟩ ⟨n, s, .code value, m⟩
  | body {n s m statements} :
      Spawns ⟨n + 1, s, .code (.body statements), m⟩ ⟨n, s, .body .nil statements, m⟩
  | tagged {n s m site code m'} (entered : (s.report site .enter []).run.run m = (.ok (), m')) :
      Spawns ⟨n + 1, s, .code (.tagged site code), m⟩ ⟨n, s, .code code, m'⟩
  | arg {n s m code rest} : Spawns ⟨n + 1, s, .args (code :: rest), m⟩ ⟨n, s, .code code, m⟩
  | laterArgs {n s m code rest v m'} (first : (eval n s code).run.run m = (.ok v, m')) :
      Spawns ⟨n + 1, s, .args (code :: rest), m⟩ ⟨n, s.hold [v], .args rest, m'⟩
  | statement {n s m last code rest} :
      Spawns ⟨n + 1, s, .body last (code :: rest), m⟩ ⟨n, s.hold [last], .code code, m⟩
  | laterStatements {n s m last code rest v m'}
      (first : (eval n (s.hold [last]) code).run.run m = (.ok v, m')) :
      Spawns ⟨n + 1, s, .body last (code :: rest), m⟩ ⟨n, s, .body v rest, m'⟩

/-- The evaluator comes to a situation at some time on its way through another. -/
inductive Within (start : Situation S) : Situation S → Prop
  | start : Within start start
  | later {sit next : Situation S} (h : Within start sit) (spawns : Spawns sit next) :
      Within start next

namespace Program

/-- The surroundings of the main part of a program. -/
def surroundings (p : Program) (listener : Listener kinds S) (owned : List Entity) (world : World) :
    Surroundings S where
  program := p
  listener
  owned
  frame := ⟨world.frames.size⟩

/-- The machine with which the main part of a program begins. -/
def machine (world : World) (stage : Stage kinds S) : Machine S :=
  let world := (world.addFrame { name := "main", caller := none, args := [] }).2
  ((noteCall "main" 0).run.run { world, stage }).2

/-- The situation with which the run of a program begins. -/
def situation (p : Program) (fuel : Nat) (listener : Listener kinds S) (owned : List Entity)
    (world : World) (stage : Stage kinds S) : Situation S where
  fuel
  surroundings := p.surroundings listener owned world
  task := .code p.main
  machine := machine world stage

end Program

/-- What the end of the main part is as the end of a run. -/
def Outcome.of (frame : FrameId) : Except Interrupt Value → Outcome
  | .ok value | .error (.returning value) => .finished ⟨frame, value⟩
  | .error (.failing failure) => .failed failure
  | .error .outOfFuel => .outOfFuel

theorem Program.run_eq (p : Program) (fuel : Nat) (listener : Listener kinds S)
    (owned : List Entity) (world : World) (stage : Stage kinds S) :
    p.run fuel listener owned world stage =
      let ended := (eval fuel (p.surroundings listener owned world) p.main).run.run
        (machine world stage)
      (.of ⟨world.frames.size⟩ ended.1, ended.2.world, ended.2.stage) := rfl

/-! ### What holds in every situation -/

variable {tracer : Tracer} {seen : Stage kinds S → List (Node Value) → Prop}

/-- The code of a function begins: the function has no record yet, and a ledger without any locals
    agrees with the machine. -/
def Begun (tracer : Tracer) (seen : Stage kinds S → List (Node Value) → Prop) (s : Surroundings S)
    (m : Machine S) (code : Code) : Prop :=
  ∃ arguments l, Fit tracer seen s ∧ Follows False seen s { traced := false, arguments } [] m l ∧
    l.localNodes = {} ∧ code.Defined s.program.scope

/-- No `return` gets out of a function. -/
theorem Begun.never_returns {s : Surroundings S} {m : Machine S} {code : Code}
    (begun : Begun tracer seen s m code) (n : Nat) (v : Value) (m' : Machine S) :
    (eval n s code).run.run m ≠ (.error (.returning v), m') := by
  obtain ⟨arguments, l, fit, h, fresh, defined⟩ := begun
  have sim := (good tracer False seen n).function s arguments m l code fit h fresh defined
  intro run
  obtain ⟨l', -, never⟩ := Ends.at_run sim run
  exact never

/-- A situation in which the machine agrees with a ledger and the code has the form that the compiler
    gives it. -/
inductive Sound (tracer : Tracer) (seen : Stage kinds S → List (Node Value) → Prop) :
    Situation S → Prop
  | code {n s a m l code} (fit : Fit tracer seen s) (follows : Follows False seen s a [] m l)
      (shaped : code.Shaped s.program.scope a.traced) : Sound tracer seen ⟨n, s, .code code, m⟩
  | piece {n s a m l code} (fit : Fit tracer seen s) (follows : Follows False seen s a [] m l)
      (piece : code.Piece s.program.scope a.traced) (empty : l.operands = []) :
      Sound tracer seen ⟨n, s, .code code, m⟩
  | function {n s m code} (begun : Begun tracer seen s m code) :
      Sound tracer seen ⟨n, s, .code code, m⟩
  | args {n s a m l args} (fit : Fit tracer seen s) (follows : Follows False seen s a [] m l)
      (shaped : ∀ c ∈ args, c.Shaped s.program.scope a.traced) :
      Sound tracer seen ⟨n, s, .args args, m⟩
  | body {n s a m l last statements} (fit : Fit tracer seen s)
      (follows : Follows False seen s a [last] m l)
      (shaped : ∀ c ∈ statements, c.Shaped s.program.scope a.traced) :
      Sound tracer seen ⟨n, s, .body last statements, m⟩

section

variable {n : Nat} {s : Surroundings S} {a : Activation} {m m' : Machine S} {l : Ledger}
  {code : Code} {v : Value}

/-- Code without a tag runs on operands of its own. -/
theorem Sound.untagged (sound : Sound tracer seen ⟨n, s, .code code, m⟩)
    (untagged : code.isTagged = false) : ∃ a l, Fit tracer seen s ∧
      Follows False seen s a [] m l ∧ code.Piece s.program.scope a.traced ∧ l.operands = [] := by
  cases sound with
  | @code _ _ a _ l _ fit h shaped =>
    generalize traced : a.traced = isTraced at shaped
    cases shaped with
    | plain piece => exact ⟨a, l, fit, h, traced ▸ piece, (h.mirrors.untraced traced).2⟩
    | tagged => cases untagged
  | piece fit h piece empty => exact ⟨_, _, fit, h, piece, empty⟩
  | function begun =>
    obtain ⟨arguments, l, fit, h, -, defined⟩ := begun
    cases defined with
    | plain shaped => exact ⟨_, _, fit, h, .body shaped, (h.mirrors.untraced rfl).2⟩
    | traced => cases untagged

/-- Tagged code is an expression of a traced definition, unless a function begins with it. -/
theorem Sound.tagged {site : Site kinds}
    (sound : Sound tracer seen ⟨n, s, .code (.tagged site code), m⟩) :
    (∃ a l id label, a.traced = true ∧ site = siteOf s.program.scope id label code ∧
      Fit tracer seen s ∧ Follows False seen s a [] m l ∧ code.Piece s.program.scope true) ∨
      Begun tracer seen s m (.tagged site code) := by
  cases sound with
  | @code _ _ a _ l _ fit h shaped =>
    generalize traced : a.traced = isTraced at shaped
    cases shaped with
    | plain piece => cases piece
    | tagged id label piece => exact .inl ⟨a, l, id, label, traced, rfl, fit, h, piece⟩
  | piece _ _ piece _ => cases piece
  | function begun => exact .inr begun

/-- What is known once code has come to a value. -/
theorem Follows.ran (fit : Fit tracer seen s) (h : Follows False seen s a [] m l)
    (shaped : code.Shaped s.program.scope a.traced) (run : (eval n s code).run.run m = (.ok v, m')) :
    ∃ l', CameTo False seen s a code m l v m' l' := by
  have sim := (good tracer False seen n).code s a m l code fit h shaped
  exact (Ends.at_run sim run).imp fun _ => And.right

theorem Follows.ranArgs {args : List Code} {values : List Value} (fit : Fit tracer seen s)
    (h : Follows False seen s a [] m l) (shaped : ∀ c ∈ args, c.Shaped s.program.scope a.traced)
    (run : (evalArgs n s args).run.run m = (.ok values, m')) :
    ∃ l', ArgsDone False seen s a m l values m' l' := by
  have sim := (good tracer False seen n).args s a m l args fit h shaped
  exact (Ends.at_run sim run).imp fun _ => And.right

/-- What comes next holds the value that has been computed. -/
theorem Follows.held (h : Follows False seen s a [v] m l) :
    Follows False seen (s.hold [v]) a [] m l := Follows.hold_iff.mpr h

/-- Arguments leave at least as many operands as there are values. -/
theorem ArgsDone.enough {exact : Prop} {values : List Value} {l' : Ledger}
    (done : ArgsDone exact seen s a m l values m' l') (traced : a.traced = true) :
    values.length ≤ l'.operands.length := by
  obtain ⟨nodes, operands, inOrder⟩ := done.pushed traced
  have length := congrArg List.length inOrder
  simp only [List.length_map, List.length_reverse] at length
  rw [operands, List.length_append, length]
  exact Nat.le_add_right _ _

/-- A function that is called begins with a ledger of its own. -/
theorem Follows.calling {exact : Prop} {values : List Value} (fit : Fit tracer seen s)
    (h : Follows exact seen s a values m l) (name : String)
    (enough : a.traced = true → values.length ≤ l.operands.length) :
    Follows exact seen (s.callee m) (a.called l values.length) [] (s.calling m name values)
      { l with
        world := (l.world.addFrame (s.invocation name values)).2
        locals := {}, localNodes := {}, operands := [] } := by
  have begun := h.call name enough
  let log := m.stage.shadow.log.add .trace "toy call"
    [("function", name), ("args", toString values.length)]
  let stage : Stage kinds S := { m.stage with shadow := { m.stage.shadow with log } }
  have same : SameState m.stage.shadow stage.shadow := ⟨rfl, rfl⟩
  exact begun.note fit.watches same rfl

/-- The code of a function that is called begins. -/
theorem Follows.begun {values : List Value} {name : String} (fit : Fit tracer seen s)
    (h : Follows False seen s a values m l)
    (enough : a.traced = true → values.length ≤ l.operands.length) {function : Code}
    (found : s.program.functions.get? name = some function) :
    Begun tracer seen (s.callee m) (s.calling m name values) function :=
  ⟨_, _, ⟨fit.tagged, fit.watches⟩, h.calling fit name enough, rfl,
    fit.tagged.functions name function found⟩

/-- Whatever calls a function in a sound situation, the code of the function begins. -/
theorem Sound.begun {name : String} {args : List Code} {values : List Value} {function : Code}
    (sound : Sound tracer seen ⟨n + 1, s, .code (.call name args), m⟩)
    (ran : (evalArgs n s args).run.run m = (.ok values, m'))
    (found : s.program.functions.get? name = some function) :
    Begun tracer seen (s.callee m') (s.calling m' name values) function := by
  obtain ⟨a, l, fit, h, piece, -⟩ := sound.untagged rfl
  cases piece with
  | call _ shaped =>
    obtain ⟨l', done⟩ := h.ranArgs fit shaped ran
    exact done.follows.begun fit done.enough found

/-- Between the checkpoints of its tag a piece runs on operands of its own. -/
theorem Sound.inside {site : Site kinds}
    (sound : Sound tracer seen ⟨n + 1, s, .code (.tagged site code), m⟩)
    (entered : (s.report site .enter []).run.run m = (.ok (), m')) :
    Sound tracer seen ⟨n, s, .code code, m'⟩ := by
  rcases sound.tagged with
    ⟨a, l, id, label, traced, rfl, fit, h, piece⟩ | ⟨arguments, l, fit, h, fresh, defined⟩
  · have sim : Sim False seen _ _ m l _ fun _ _ _ => False :=
      .enter id label h fit.watches traced piece
    obtain ⟨l', -, -, empty, inside⟩ := Ends.at_run sim entered
    exact .piece fit inside (by rw [Activation.inside, traced]; exact piece) empty
  · cases defined with
    | traced boundary label id bodyLabel shaped =>
      obtain ⟨stage, run, -, inside⟩ := h.enterFunction boundary label fit.watches fresh
      rw [run] at entered
      cases entered
      exact .code fit inside (.tagged id bodyLabel (.body shaped))

end

theorem Sound.spawns {sit next : Situation S} (sound : Sound tracer seen sit)
    (spawns : Spawns sit next) : Sound tracer seen next := by
  cases spawns with
  | setLocal =>
    obtain ⟨a, l, fit, h, piece, -⟩ := sound.untagged rfl
    cases piece with
    | setLocal _ shaped => exact .code fit h shaped
  | addLeft =>
    obtain ⟨a, l, fit, h, piece, -⟩ := sound.untagged rfl
    cases piece with
    | add left _ => exact .code fit h left
  | addRight first =>
    obtain ⟨a, l, fit, h, piece, -⟩ := sound.untagged rfl
    cases piece with
    | add left right =>
      obtain ⟨l', done⟩ := h.ran fit left first
      exact .code (fit.hold _) done.follows.held right
  | callArgs =>
    obtain ⟨a, l, fit, h, piece, -⟩ := sound.untagged rfl
    cases piece with
    | call _ shaped => exact .args fit h shaped
  | callFunction first found => exact .function (sound.begun first found)
  | getProperty =>
    obtain ⟨a, l, fit, h, piece, -⟩ := sound.untagged rfl
    cases piece with
    | getProperty _ shaped => exact .code fit h shaped
  | setPropertyValue =>
    obtain ⟨a, l, fit, h, piece, -⟩ := sound.untagged rfl
    cases piece with
    | setProperty _ value _ => exact .code fit h value
  | setPropertyReceiver first =>
    obtain ⟨a, l, fit, h, piece, -⟩ := sound.untagged rfl
    cases piece with
    | setProperty _ value receiver =>
      obtain ⟨l', done⟩ := h.ran fit value first
      exact .code (fit.hold _) done.follows.held receiver
  | setGlobal =>
    obtain ⟨a, l, fit, h, piece, -⟩ := sound.untagged rfl
    cases piece with
    | setGlobal _ shaped => exact .code fit h shaped
  | setClassVariable =>
    obtain ⟨a, l, fit, h, piece, -⟩ := sound.untagged rfl
    cases piece with
    | setClassVariable _ shaped => exact .code fit h shaped
  | ret =>
    obtain ⟨a, l, fit, h, piece, -⟩ := sound.untagged rfl
    cases piece with
    | ret shaped => exact .code fit h shaped
  | body =>
    obtain ⟨a, l, fit, h, piece, -⟩ := sound.untagged rfl
    cases piece with
    | body shaped =>
      refine .body fit (h.holding fun v mem => ?_) shaped
      rw [List.mem_singleton.mp mem]
      exact World.holdsValue_nil
  | tagged entered => exact sound.inside entered
  | arg =>
    cases sound with
    | args fit h shaped => exact .code fit h (shaped _ List.mem_cons_self)
  | laterArgs first =>
    cases sound with
    | args fit h shaped =>
      obtain ⟨l', done⟩ := h.ran fit (shaped _ List.mem_cons_self) first
      exact .args (fit.hold _) done.follows.held fun c mem => shaped c (List.mem_cons_of_mem _ mem)
  | statement =>
    cases sound with
    | body fit h shaped =>
      exact .code (fit.hold _) h.held (shaped _ List.mem_cons_self)
  | laterStatements first =>
    cases sound with
    | body fit h shaped =>
      obtain ⟨l', done⟩ := h.held.ran (fit.hold _) (shaped _ List.mem_cons_self) first
      exact .body fit (done.toCame.of_hold.follows.forget (List.subset_append_left _ _))
        fun c mem => shaped c (List.mem_cons_of_mem _ mem)

/-- Every situation within a sound one is sound. -/
theorem Sound.within {start sit : Situation S} (sound : Sound tracer seen start)
    (within : Within start sit) : Sound tracer seen sit := by
  induction within with
  | start => exact sound
  | later _ spawns ih => exact ih.spawns spawns

/-! ### The beginning of a run -/

/-- A run begins next to any ledger that has the numbers and slots of the shadow state, if this knows
    only frames that have been made. -/
theorem Program.follows_machine {exact : Prop} {l : Ledger} (p : Program)
    (listener : Listener kinds S) (owned : List Entity) (world : World) (stage : Stage kinds S)
    (sane : stage.shadow.Unpoisoned)
    (known : ∀ f, stage.shadow.record? f ≠ none → world.Made (.frame f))
    (begins : l = { world := (machine world stage).world, next := stage.shadow.nextSeq
                    propertyNodes := l.propertyNodes, classNodes := l.classNodes
                    globalNodes := l.globalNodes, made := l.made })
    (stored : exact → Stored ((p.surroundings listener owned world).place (machine world stage) [])
      stage.shadow l)
    (graph : exact → stage.shadow.WellFormed)
    (hseen : exact → seen (machine world stage).stage l.made) :
    Follows exact seen (p.surroundings listener owned world) { traced := false } []
      (machine world stage) l := by
  let main : Frame := { name := "main", caller := none, args := [] }
  have here : (machine world stage).world.frame? ⟨world.frames.size⟩ = some main :=
    World.frame?_addFrame world main
  have unmade : ¬ world.Made (.frame ⟨world.frames.size⟩) := Nat.lt_irrefl _
  have absent : stage.shadow.record? ⟨world.frames.size⟩ = none := by
    cases there : stage.shadow.record? ⟨world.frames.size⟩ with
    | none => rfl
    | some r => exact absurd (known _ (there ▸ Option.some_ne_none r)) unmade
  have same : SameState stage.shadow (machine world stage).stage.shadow := ⟨rfl, rfl⟩
  constructor
  · rw [begins]
  · rw [begins]
    rfl
  · rw [begins]
    rfl
  · exact ⟨main, here, nofun⟩
  · refine Mirrors.same ?_ same
    constructor
    · rw [begins]
    · exact sane
    · exact fun f there => (World.grows_addFrame world main).made (known f there)
    · intro frame found
      obtain rfl := Option.some.inj (here.symm.trans found)
      exact ⟨rfl, nofun⟩
    · exact nofun
    · intro _
      exact ⟨absent, by rw [begins]⟩
    · exact stored
  · exact fun hexact => (graph hexact).of_same same
  · exact hseen

/-- What a tracer has been through before a run: any checkpoints, accepted or refused, of frames that
    have been made, any sweeps and any releases of frames. -/
def Past (tracer : Tracer) (world : World) (shadow : Shadow kinds) : Prop :=
  ∃ interval nextSeq log acts,
    shadow = (⟨.ofInterval interval, nextSeq, log⟩ : Shadow kinds).afterAll tracer acts ∧
    ∀ host c, .checkpoint host c ∈ acts → world.Made (.frame c.frame)

theorem Past.unpoisoned {world : World} {shadow : Shadow kinds} (past : Past tracer world shadow) :
    shadow.Unpoisoned := by
  obtain ⟨interval, nextSeq, log, acts, rfl, -⟩ := past
  exact (afterAll_keeps acts (unpoisoned_ofInterval interval nextSeq log)).1

theorem Past.known {world : World} {shadow : Shadow kinds} (past : Past tracer world shadow)
    (f : FrameId) (there : shadow.record? f ≠ none) : world.Made (.frame f) := by
  obtain ⟨interval, nextSeq, log, acts, rfl, made⟩ := past
  rcases (afterAll_keeps acts (unpoisoned_ofInterval interval nextSeq log)).2 f there with
    absent | ⟨host, c, mem, rfl⟩
  · exact absurd (record?_ofInterval interval nextSeq log f) absent
  · exact made host c mem

/-- The code of the main part of a program begins. -/
theorem Program.begun {p : Program} (tagged : p.WellTagged) {listener : Listener kinds S}
    (watches : Watches tracer listener seen) (owned : List Entity) {world : World}
    {stage : Stage kinds S} (past : Past tracer world stage.shadow) :
    Begun tracer seen (p.surroundings listener owned world) (machine world stage) p.main :=
  ⟨_, { world := (machine world stage).world, next := stage.shadow.nextSeq }, ⟨tagged, watches⟩,
    p.follows_machine listener owned world stage past.unpoisoned past.known rfl nofun nofun nofun, rfl,
    tagged.main⟩

/-! ### A run with a past -/

/-- A traced main part that calls a traced function, which returns a sum. -/
def callingSource : Source where
  functions := [{
    name := "f", params := ["x"], body := [.ret (.add (.getLocal "x") (.int 2)), .nil] }]
  main := some { name := "main", body := [.call "f" [.int 1]] }

def callingProgram : Program := (callingSource.compile ⟨0⟩).get rfl

/-- A world in which an earlier invocation has been given up. -/
def callingWorld : World where
  frames := #[{ name := "main", caller := none, args := [] }]
  scopes := #[{}]

/-- The tracer has been told of the beginning of the earlier invocation. -/
def callingStage : Stage kinds Unit where
  shadow := (⟨.ofInterval 64, 1, {}⟩ : Shadow kinds).afterAll {}
    [.checkpoint (callingWorld.host [] []) ⟨boundaryOf ⟨1⟩ "main", ⟨0⟩, .enter⟩]
  own := ()

theorem calling_past : Past {} callingWorld callingStage.shadow := by
  refine ⟨64, 1, {}, _, rfl, ?_⟩
  rintro host c mem
  cases List.mem_singleton.mp mem
  exact Nat.zero_lt_one

end Lineage.Toy
