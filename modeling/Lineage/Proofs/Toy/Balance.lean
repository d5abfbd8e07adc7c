import Lineage.Proofs.Toy.Collector
import Lineage.Proofs.Toy.Waiting

/-!
# Situations with the books in order

In every situation of the first run of a traced program the run agrees exactly with a ledger, and the
books of that ledger are in order. `Sound` knows of the shadow state only what the rules need;
`Balanced` knows all that the ledger does.
-/

namespace Lineage.Toy

open Shadow

variable {S : Type} {tracer : Tracer} {seen : Stage kinds S → List (Node Value) → Prop}
  {p : Program} {start : Nat}

/-- Where a run and its ledger have come to the same end, both are known to be as they should. -/
theorem Sim.kept {α : Type} {work : EvalM S α} {ledger : LedgerM α} {m m' : Machine S} {l : Ledger}
    {ok : α → Machine S → Ledger → Prop} {ret : Value → Machine S → Ledger → Prop}
    {ok' : α → Ledger → Prop} {ret' : Value → Ledger → Prop} {r : Except Interrupt α}
    (sim : Sim True seen work ledger m l ok ret) (keeps : Keeps p start ledger l ok' ret')
    (run : work.run.run m = (r, m')) :
    ∃ l', (∀ a, r = .ok a → ok a m' l' ∧ ok' a l') ∧
      ∀ v, r = .error (.returning v) → ret v m' l' ∧ ret' v l' := by
  obtain ⟨l', ran, post⟩ := Ends.at_run sim run
  replace keeps := Ends.at_run keeps (ran trivial)
  refine ⟨l', ?_, ?_⟩
  · rintro a rfl
    exact ⟨post, keeps⟩
  · rintro v rfl
    exact ⟨post, keeps⟩

/-- A run that agrees with a ledger on everything agrees with it on what the rules need. -/
theorem Follows.inexact {s : Surroundings S} {a : Activation} {values : List Value} {m : Machine S}
    {l : Ledger} (h : Follows True seen s a values m l) : Follows False seen s a values m l where
  world := h.world
  globals := h.globals
  locals := h.locals
  called := h.called
  mirrors := { h.mirrors with stored := False.elim }
  graph := False.elim
  seen := False.elim

/-- The run agrees with a ledger on everything, and the books of the ledger are in order. -/
structure Booked (tracer : Tracer) (seen : Stage kinds S → List (Node Value) → Prop) (p : Program)
    (start : Nat) (s : Surroundings S) (a : Activation) (values : List Value) (m : Machine S)
    (l : Ledger) : Prop where
  fit : Fit tracer seen s
  traced : p.Traced
  follows : Follows True seen s a values m l
  ordered : Ordered p start (s.setting { a with traced := true }) l
  owned : ∀ f, .frame f ∈ s.owned → m.world.Made (.frame f)

namespace Booked

variable {s : Surroundings S} {a : Activation} {m m' : Machine S} {l l' : Ledger} {n : Nat}
  {values values' : List Value} {v : Value} {code : Code}

theorem program (h : Booked tracer seen p start s a values m l) : s.program = p := h.ordered.program

theorem keeping (h : Booked tracer seen p start s a values m l) (n : Nat) : Keeping p start n :=
  Toy.keeping (h.program ▸ h.fit.tagged) h.traced start n

/-- Code has come to some values, and the ledger has come with it. -/
theorem after (h : Booked tracer seen p start s a values m l)
    (came : Came True seen s a m values' m' l') (kept : Kept p start l l') :
    Booked tracer seen p start s a values' m' l' where
  fit := h.fit
  traced := h.traced
  follows := came.follows
  ordered := h.ordered.after kept
  owned f mem := came.since.grows.made (h.owned f mem)

/-- What comes next holds the value that has been computed. -/
theorem held (h : Booked tracer seen p start s a [v] m l) :
    Booked tracer seen p start (s.hold [v]) a [] m l where
  fit := h.fit.hold [v]
  traced := h.traced
  follows := Follows.hold_iff.mpr h.follows
  ordered := h.ordered
  owned := h.owned

/-- Statements begin with no value. -/
theorem holdsNil (h : Booked tracer seen p start s a [] m l) :
    Booked tracer seen p start s a [.nil] m l where
  fit := h.fit
  traced := h.traced
  follows := h.follows.holding fun v mem => by
    rw [List.mem_singleton.mp mem]
    exact World.holdsValue_nil
  ordered := h.ordered
  owned := h.owned

/-- What the surroundings hold besides may be forgotten. -/
theorem of_hold {more : List Value} (h : Booked tracer seen p start (s.hold more) a values m l) :
    Booked tracer seen p start s a values m l where
  fit := ⟨h.fit.tagged, h.fit.watches⟩
  traced := h.traced
  follows := (Follows.hold_iff.mp h.follows).forget (List.subset_append_left _ _)
  ordered := h.ordered
  owned := h.owned

/-- Code runs in a function that has been entered. -/
theorem setting (traced : a.traced = true) : s.setting { a with traced := true } = s.setting a := by
  rw [← traced]

/-- Code has come to a value, or has been left by a `return`. -/
theorem ran {r : Except Interrupt Value} (h : Booked tracer seen p start s a [] m l)
    (traced : a.traced = true) (shaped : code.Shaped p.scope true)
    (tags : ∀ tag ∈ code.tags, p.Tags tag.1 tag.2) (run : (eval n s code).run.run m = (r, m')) :
    ∃ l', (∀ v, r = .ok v → CameTo True seen s a code m l v m' l' ∧ Yields p start l code v l') ∧
      ∀ v, r = .error (.returning v) →
        Returned True seen s a m l True v m' l' ∧ Escapes p start l v l' := by
  have sim := (good tracer True seen n).sim s a m l code h.fit h.follows
    (by rw [traced, h.program]; exact shaped)
  rw [← setting traced] at sim
  exact sim.kept ((h.keeping n).code _ l code h.ordered shaped tags) run

theorem toValue (h : Booked tracer seen p start s a [] m l)
    (traced : a.traced = true) (shaped : code.Shaped p.scope true)
    (tags : ∀ tag ∈ code.tags, p.Tags tag.1 tag.2) (run : (eval n s code).run.run m = (.ok v, m')) :
    ∃ l', CameTo True seen s a code m l v m' l' ∧ Booked tracer seen p start s a [v] m' l' := by
  obtain ⟨l', came, -⟩ := h.ran traced shaped tags run
  obtain ⟨came, yields⟩ := came v rfl
  exact ⟨l', came, h.after came.toCame yields.kept⟩

theorem toValues {args : List Code} (h : Booked tracer seen p start s a [] m l)
    (traced : a.traced = true) (shaped : ∀ c ∈ args, c.Shaped p.scope true)
    (tags : ∀ tag ∈ Code.tagsAll args, p.Tags tag.1 tag.2)
    (run : (evalArgs n s args).run.run m = (.ok values, m')) :
    ∃ l', ArgsDone True seen s a m l values m' l' ∧ Supplies p start l args values l' ∧
      Booked tracer seen p start s a values m' l' := by
  have sim := (good tracer True seen n).args s a m l args h.fit h.follows
    (by rw [traced, h.program]; exact shaped)
  rw [← setting traced] at sim
  obtain ⟨l', came, -⟩ := sim.kept ((h.keeping n).args _ l args h.ordered shaped tags) run
  obtain ⟨came, supplies⟩ := came values rfl
  exact ⟨l', came, supplies, h.after came.toCame supplies.1⟩

/-- A function that is called begins with its books in order. -/
theorem calling {nodes : List (Node Value)} (h : Booked tracer seen p start s a values m l)
    (traced : a.traced = true) (operands : l.operands = nodes.reverse)
    (inOrder : nodes.map (·.value) = values.map some) (name : String) :
    Booked tracer seen p start (s.callee m) (a.called l values.length) [] (s.calling m name values)
      { l with
        world := (l.world.addFrame (s.invocation name values)).2
        locals := {}, localNodes := {}, operands := [] } where
  fit := ⟨h.fit.tagged, h.fit.watches⟩
  traced := h.traced
  follows := h.follows.calling h.fit name fun _ => by
    rw [operands, List.length_reverse]
    exact Nat.le_of_eq (by simpa using congrArg List.length inOrder.symm)
  ordered := by
    have called := h.ordered.call operands inOrder name
    rw [h.follows.world] at called ⊢
    unfold Activation.called
    rw [if_pos traced]
    exact h.program ▸ called
  owned f mem := (World.grows_addFrame _ _).made (h.owned f mem)

/-- A piece of tagged code has been entered. -/
theorem enter (h : Booked tracer seen p start s a [] m l) (traced : a.traced = true) (id : SiteId)
    (label : String) (piece : code.Piece p.scope true)
    (entered : (s.report (siteOf p.scope id label code) .enter []).run.run m = (.ok (), m')) :
    Since s m m' ∧ Booked tracer seen p start s (a.inside id code l.operands) [] m'
      { l with operands := [] } := by
  obtain rfl := h.program
  have sim : Sim True seen _ _ m l _ fun _ _ _ => False :=
    .enter id label h.follows h.fit.watches traced piece
  obtain ⟨l', ran, since, -, follows⟩ := Ends.at_run sim entered
  cases ran trivial
  exact ⟨since, h.fit, h.traced, follows,
    ⟨rfl, rfl, h.ordered.books.withOperands nofun, h.ordered.supplied⟩,
    fun f mem => since.grows.made (h.owned f mem)⟩

/-- A traced function has been entered. -/
theorem enterFunction {arguments : Option (List (Node Value))} (boundary : SiteId) (label : String)
    (h : Booked tracer seen p start s { traced := false, arguments } [] m l)
    (fresh : l.localNodes = {})
    (entered : (s.report (boundaryOf boundary label) .enter []).run.run m = (.ok (), m')) :
    Since s m m' ∧ Booked tracer seen p start s { traced := true, arguments } [] m' l := by
  obtain ⟨stage, run, since, inside⟩ := h.follows.enterFunction boundary label h.fit.watches fresh
  rw [run] at entered
  cases entered
  exact ⟨since, h.fit, h.traced, inside, h.ordered, h.owned⟩

end Booked

/-- A situation in which the books are in order. -/
inductive Balanced (tracer : Tracer) (seen : Stage kinds S → List (Node Value) → Prop) (p : Program)
    (start : Nat) : Situation S → Prop
  | code {n s a m l code} (booked : Booked tracer seen p start s a [] m l) (traced : a.traced = true)
      (shaped : code.Shaped p.scope true) (tags : ∀ tag ∈ code.tags, p.Tags tag.1 tag.2) :
      Balanced tracer seen p start ⟨n, s, .code code, m⟩
  | piece {n s a m l code} (booked : Booked tracer seen p start s a [] m l) (traced : a.traced = true)
      (piece : code.Piece p.scope true) (tags : ∀ tag ∈ code.tags, p.Tags tag.1 tag.2)
      (empty : l.operands = []) : Balanced tracer seen p start ⟨n, s, .code code, m⟩
  | function {n s arguments m l code}
      (booked : Booked tracer seen p start s { traced := false, arguments } [] m l)
      (fresh : l.localNodes = {}) (defined : code.Defined p.scope) (isTagged : code.isTagged = true)
      (tags : ∀ tag ∈ code.tags, p.Tags tag.1 tag.2) :
      Balanced tracer seen p start ⟨n, s, .code code, m⟩
  | args {n s a m l args} (booked : Booked tracer seen p start s a [] m l) (traced : a.traced = true)
      (shaped : ∀ c ∈ args, c.Shaped p.scope true)
      (tags : ∀ tag ∈ Code.tagsAll args, p.Tags tag.1 tag.2) :
      Balanced tracer seen p start ⟨n, s, .args args, m⟩
  | body {n s a m l last statements} (booked : Booked tracer seen p start s a [last] m l)
      (traced : a.traced = true) (shaped : ∀ c ∈ statements, c.Shaped p.scope true)
      (tags : ∀ tag ∈ Code.tagsAll statements, p.Tags tag.1 tag.2) :
      Balanced tracer seen p start ⟨n, s, .body last statements, m⟩

namespace Balanced

variable {n : Nat} {s : Surroundings S} {m m' : Machine S} {code : Code}

/-- Code without a tag is a piece that runs on operands of its own. -/
theorem untagged (h : Balanced tracer seen p start ⟨n, s, .code code, m⟩)
    (untagged : code.isTagged = false) : ∃ a l, Booked tracer seen p start s a [] m l ∧
      a.traced = true ∧ code.Piece p.scope true ∧ (∀ tag ∈ code.tags, p.Tags tag.1 tag.2) ∧
      l.operands = [] := by
  cases h with
  | code booked traced shaped tags =>
    cases shaped with
    | tagged => cases untagged
  | piece booked traced piece tags empty => exact ⟨_, _, booked, traced, piece, tags, empty⟩
  | function _ _ _ isTagged => cases untagged.symm.trans isTagged

/-- The part of a piece with one part is code of its own. -/
theorem part {value : Code} (h : Balanced tracer seen p start ⟨n + 1, s, .code code, m⟩)
    (untagged : code.isTagged = false) (tags : value.tags ⊆ code.tags)
    (shaped : code.Piece p.scope true → value.Shaped p.scope true) :
    Balanced tracer seen p start ⟨n, s, .code value, m⟩ := by
  obtain ⟨a, l, booked, traced, piece, all, -⟩ := h.untagged untagged
  exact .code booked traced (shaped piece) fun tag mem => all tag (tags mem)

/-- Between its checkpoints tagged code runs on operands of its own. -/
theorem inside {site : Site kinds}
    (h : Balanced tracer seen p start ⟨n + 1, s, .code (.tagged site code), m⟩)
    (entered : (s.report site .enter []).run.run m = (.ok (), m')) :
    Balanced tracer seen p start ⟨n, s, .code code, m'⟩ := by
  cases h with
  | code booked traced shaped tags =>
    cases shaped with
    | tagged id label piece =>
      exact .piece (booked.enter traced id label piece entered).2 traced piece
        (fun tag mem => tags tag (List.mem_cons_of_mem _ mem)) rfl
  | piece _ _ piece => cases piece
  | function booked fresh defined _ tags =>
    cases defined with
    | traced boundary label id bodyLabel shaped =>
      exact .code (booked.enterFunction boundary label fresh entered).2 rfl
        (.tagged id bodyLabel (.body shaped)) fun tag mem => tags tag (List.mem_cons_of_mem _ mem)

/-- What the books know of the arguments of a call. -/
theorem arguments {name : String} {args : List Code} {values : List Value}
    (h : Balanced tracer seen p start ⟨n + 1, s, .code (.call name args), m⟩)
    (ran : (evalArgs n s args).run.run m = (.ok values, m')) :
    ∃ a l nodes, a.traced = true ∧ Since s m m' ∧ Booked tracer seen p start s a values m' l ∧
      l.operands = List.reverse nodes ∧ nodes.map (·.value) = values.map some := by
  obtain ⟨a, l, booked, traced, piece, tags, empty⟩ := h.untagged rfl
  cases piece with
  | call _ shaped =>
    obtain ⟨l', done, ⟨-, nodes, operands, -, inOrder⟩, after⟩ := booked.toValues traced shaped tags ran
    rw [empty, List.append_nil] at operands
    exact ⟨a, l', nodes, traced, done.since, after, operands, inOrder⟩

theorem spawns {sit next : Situation S} (h : Balanced tracer seen p start sit)
    (spawns : Spawns sit next) : Balanced tracer seen p start next := by
  cases spawns with
  | setLocal | setGlobal | setClassVariable | ret | getProperty =>
    refine h.part rfl (fun _ => id) fun piece => ?_
    cases piece
    assumption
  | addLeft =>
    refine h.part rfl (List.subset_append_left _ _) fun piece => ?_
    cases piece
    assumption
  | setPropertyValue =>
    refine h.part rfl (List.subset_append_left _ _) fun piece => ?_
    cases piece
    assumption
  | addRight first =>
    obtain ⟨a, l, booked, traced, piece, tags, -⟩ := h.untagged rfl
    cases piece with
    | add left right =>
      obtain ⟨l', -, after⟩ := booked.toValue traced left
        (fun tag mem => tags tag (List.mem_append_left _ mem)) first
      exact .code after.held traced right
        fun tag mem => tags tag (List.mem_append_right _ mem)
  | callArgs =>
    obtain ⟨a, l, booked, traced, piece, tags, -⟩ := h.untagged rfl
    cases piece with
    | call _ shaped => exact .args booked traced shaped tags
  | @callFunction _ _ _ name _ _ _ function ran found =>
    obtain ⟨a, l, nodes, traced, -, booked, operands, inOrder⟩ := h.arguments ran
    have own := booked.program
    refine .function (booked.calling traced operands inOrder name) rfl ?_ ?_ fun tag mem => ?_
    · exact own ▸ booked.fit.tagged.functions name function found
    · exact booked.traced.functions name function (own ▸ found)
    · exact .inr ⟨name, function, own ▸ found, mem⟩
  | setPropertyReceiver first =>
    obtain ⟨a, l, booked, traced, piece, tags, -⟩ := h.untagged rfl
    cases piece with
    | setProperty _ value receiver =>
      obtain ⟨l', -, after⟩ := booked.toValue traced value
        (fun tag mem => tags tag (List.mem_append_left _ mem)) first
      exact .code after.held traced receiver fun tag mem => tags tag (List.mem_append_right _ mem)
  | body =>
    obtain ⟨a, l, booked, traced, piece, tags, -⟩ := h.untagged rfl
    cases piece with
    | body shaped => exact .body booked.holdsNil traced shaped tags
  | tagged entered => exact h.inside entered
  | arg =>
    cases h with
    | args booked traced shaped tags =>
      exact .code booked traced (shaped _ List.mem_cons_self)
        fun tag mem => tags tag (List.mem_append_left _ mem)
  | laterArgs first =>
    cases h with
    | args booked traced shaped tags =>
      obtain ⟨l', -, after⟩ := booked.toValue traced (shaped _ List.mem_cons_self)
        (fun tag mem => tags tag (List.mem_append_left _ mem)) first
      exact .args after.held traced (fun c mem => shaped c (List.mem_cons_of_mem _ mem))
        fun tag mem => tags tag (List.mem_append_right _ mem)
  | statement =>
    cases h with
    | body booked traced shaped tags =>
      exact .code booked.held traced (shaped _ List.mem_cons_self)
        fun tag mem => tags tag (List.mem_append_left _ mem)
  | laterStatements first =>
    cases h with
    | body booked traced shaped tags =>
      obtain ⟨l', -, after⟩ := booked.held.toValue traced (shaped _ List.mem_cons_self)
        (fun tag mem => tags tag (List.mem_append_left _ mem)) first
      exact .body after.of_hold traced (fun c mem => shaped c (List.mem_cons_of_mem _ mem))
        fun tag mem => tags tag (List.mem_append_right _ mem)

theorem sound {sit : Situation S} (h : Balanced tracer seen p start sit) : Sound tracer seen sit := by
  cases h with
  | code booked traced shaped =>
    exact .code booked.fit booked.follows.inexact (by rw [booked.program, traced]; exact shaped)
  | piece booked traced piece _ empty =>
    exact .piece booked.fit booked.follows.inexact (by rw [booked.program, traced]; exact piece) empty
  | function booked fresh defined =>
    exact .function ⟨_, _, booked.fit, booked.follows.inexact, fresh, booked.program ▸ defined⟩
  | args booked traced shaped =>
    exact .args booked.fit booked.follows.inexact (by rw [booked.program, traced]; exact shaped)
  | body booked traced shaped =>
    exact .body booked.fit booked.follows.inexact (by rw [booked.program, traced]; exact shaped)

/-- The books are in order in every situation that comes after one in which they are. -/
theorem within {sit next : Situation S} (h : Balanced tracer seen p start sit)
    (within : Within sit next) : Balanced tracer seen p start next := by
  induction within with
  | start => exact h
  | later _ spawns ih => exact ih.spawns spawns

end Balanced

/-- The books are in order where the first run of a traced program begins. -/
theorem Program.balanced (tagged : p.WellTagged) (traced : p.Traced) {listener : Listener kinds S}
    {world : World} {owned : List Entity} (fresh : world.Fresh p.scope owned)
    (watches : Watches tracer listener seen) (interval nextSeq : Nat) (log : Log) (own : S)
    (fuel : Nat)
    (begins : seen (machine world ⟨⟨.ofInterval interval, nextSeq, log⟩, own⟩).stage []) :
    Balanced tracer seen p nextSeq
      (p.situation fuel listener owned world ⟨⟨.ofInterval interval, nextSeq, log⟩, own⟩) :=
  .function ⟨⟨tagged, watches⟩, traced, fresh.follows listener interval nextSeq log own begins,
    fresh.ordered nextSeq, fun _ mem => World.made_addFrame (fresh.owned _ mem) _⟩ rfl tagged.main
    traced.main fun _ mem => .inl mem

end Lineage.Toy
