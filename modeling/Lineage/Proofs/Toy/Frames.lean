import Lineage.Proofs.Register
import Lineage.Proofs.Toy.Stream

/-!
# The frames of a run

Every invocation has a frame of its own. Those of traced functions are the ones in which a listener is
told that a function is entered, each of them once and in the order in which they are made; no checkpoint
is about any other frame. Where a listener is told that a piece of traced code is left, the evaluator has
come through that piece with this value: `Account`.
-/

namespace Lineage.Toy

variable {S : Type}

namespace World

variable {w before middle after : World}

/-- Every frame has been made after its caller. -/
def CallersFirst (w : World) : Prop :=
  ∀ id frame caller, w.frame? id = some frame → frame.caller = some caller →
    caller.number < id.number

theorem Grows.of_frames (same : after.frames = before.frames) : before.Grows after := by
  intro id frame found
  unfold frame? at found ⊢
  rw [same, found]

theorem Grows.size_le (grows : before.Grows after) : before.frames.size ≤ after.frames.size := by
  rcases Nat.lt_or_ge after.frames.size before.frames.size with fewer | enough
  · have made : before.Made (.frame ⟨after.frames.size⟩) := fewer
    exact absurd (grows.made made) (Nat.lt_irrefl _)
  · exact enough

theorem CallersFirst.of_frames (same : after.frames = before.frames) (h : before.CallersFirst) :
    after.CallersFirst := by
  intro id frame caller found
  apply h id frame caller
  unfold frame? at found ⊢
  rw [← same, found]

theorem CallersFirst.addFrame {frame : Frame} (h : w.CallersFirst)
    (made : ∀ caller, frame.caller = some caller → w.Made (.frame caller)) :
    (w.addFrame frame).2.CallersFirst := by
  intro id other caller found called
  simp only [frame?, World.addFrame, Array.getElem?_push] at found
  split at found
  · next last =>
    cases found
    have earlier : caller.number < w.frames.size := made caller called
    omega
  · exact h id other caller found called

/-- The frames that have been made in between. -/
def framesSince (before after : World) : List FrameId :=
  (List.range' before.frames.size (after.frames.size - before.frames.size)).map FrameId.mk

theorem framesSince_self (same : after.frames = before.frames) : framesSince before after = [] := by
  unfold framesSince
  rw [same, Nat.sub_self]
  rfl

theorem framesSince_trans (first : before.Grows middle) (second : middle.Grows after) :
    framesSince before after = framesSince before middle ++ framesSince middle after := by
  obtain ⟨made, sizeMiddle⟩ := Nat.exists_eq_add_of_le first.size_le
  obtain ⟨more, sizeAfter⟩ := Nat.exists_eq_add_of_le second.size_le
  unfold framesSince
  rw [sizeAfter, sizeMiddle, Nat.add_assoc, Nat.add_sub_cancel_left, Nat.add_sub_cancel_left,
    ← Nat.add_assoc, Nat.add_sub_cancel_left, ← List.map_append, List.range'_append_1]

theorem framesSince_addFrame (w : World) (frame : Frame) :
    framesSince w (w.addFrame frame).2 = [(w.addFrame frame).1] := by
  unfold framesSince World.addFrame
  rw [Array.size_push, Nat.add_sub_cancel_left]
  rfl

theorem mem_framesSince {id : FrameId} :
    id ∈ framesSince before after ↔
      before.frames.size ≤ id.number ∧ after.Made (.frame id) := by
  unfold framesSince Made
  rw [List.mem_map]
  constructor
  · rintro ⟨number, mem, rfl⟩
    rw [List.mem_range'_1] at mem
    dsimp only
    omega
  · rintro ⟨since, made⟩
    refine ⟨id.number, ?_, rfl⟩
    rw [List.mem_range'_1]
    omega

theorem nodup_framesSince (before after : World) : (framesSince before after).Nodup :=
  .map (fun _ _ => FrameId.mk.inj) List.nodup_range'

end World

/-! ### Frames of traced functions -/

namespace Program

variable (p : Program) {before middle after : World}

/-- The code that runs in the frame; only the main part has no caller. -/
def codeOf (frame : Frame) : Option Code :=
  if frame.caller.isNone then some p.main else p.functions.get? frame.name

/-- The frame belongs to an invocation of a traced function, or to a traced main part. -/
def traces (frame : Frame) : Bool := (p.codeOf frame).any Code.isTagged

/-- The frames of the traced functions that have been invoked in between. -/
def invocations (before after : World) : List FrameId :=
  (World.framesSince before after).filter fun id => (after.frame? id).any p.traces

theorem invocations_self (same : after.frames = before.frames) : p.invocations before after = [] := by
  unfold invocations
  rw [World.framesSince_self same]
  rfl

theorem invocations_trans (first : before.Grows middle) (second : middle.Grows after) :
    p.invocations before after = p.invocations before middle ++ p.invocations middle after := by
  unfold invocations
  rw [World.framesSince_trans first second, List.filter_append]
  congr 1
  apply List.filter_congr
  intro id mem
  obtain ⟨frame, found⟩ := World.made_frame.mp (World.mem_framesSince.mp mem).2
  rw [found, second id frame found]

theorem invocations_addFrame (w : World) (frame : Frame) :
    p.invocations w (w.addFrame frame).2 = if p.traces frame then [(w.addFrame frame).1] else [] := by
  unfold invocations
  rw [World.framesSince_addFrame, List.filter_cons, World.frame?_addFrame]
  rfl

theorem mem_invocations {id : FrameId} :
    id ∈ p.invocations before after ↔ before.frames.size ≤ id.number ∧
      ∃ frame, after.frame? id = some frame ∧ p.traces frame = true := by
  unfold invocations
  rw [List.mem_filter, World.mem_framesSince, Option.any_eq_true]
  constructor
  · exact fun ⟨⟨since, _⟩, frame⟩ => ⟨since, frame⟩
  · exact fun ⟨since, frame, found, traced⟩ =>
      ⟨⟨since, World.made_frame.mpr ⟨frame, found⟩⟩, frame, found, traced⟩

theorem nodup_invocations (before after : World) : (p.invocations before after).Nodup :=
  (World.nodup_framesSince before after).filter _

end Program

/-! ### Situations in the code of one definition -/

/-- Code as the compiler gives it, for a definition that is traced or not. -/
def Task.Shaped (scope : ScopeId) (traced : Bool) : Task → Prop
  | .code c => c.Shaped scope traced
  | .args codes | .body _ codes => ∀ c ∈ codes, c.Shaped scope traced

/-- The code of the situation belongs to a definition that is traced, or not, as a whole. -/
inductive Formed (traced : Bool) : Situation S → Prop
  | code {n s m code} (shaped : code.Shaped s.program.scope traced) :
      Formed traced ⟨n, s, .code code, m⟩
  | piece {n s m code} (piece : code.Piece s.program.scope traced) :
      Formed traced ⟨n, s, .code code, m⟩
  | args {n s m args} (shaped : ∀ c ∈ args, c.Shaped s.program.scope traced) :
      Formed traced ⟨n, s, .args args, m⟩
  | body {n s m last statements} (shaped : ∀ c ∈ statements, c.Shaped s.program.scope traced) :
      Formed traced ⟨n, s, .body last statements, m⟩

namespace Formed

variable {traced : Bool} {n : Nat} {s : Surroundings S} {m : Machine S} {code : Code}

theorem untagged (formed : Formed traced ⟨n, s, .code code, m⟩) (untagged : code.isTagged = false) :
    code.Piece s.program.scope traced := by
  cases formed with
  | code shaped =>
    cases shaped with
    | plain piece => exact piece
    | tagged => cases untagged
  | piece piece => exact piece

theorem tagged {site : Site kinds} (formed : Formed traced ⟨n, s, .code (.tagged site code), m⟩) :
    traced = true ∧ code.Piece s.program.scope true ∧
      ∃ id label, site = siteOf s.program.scope id label code := by
  cases formed with
  | code shaped =>
    cases shaped with
    | plain piece => cases piece
    | tagged id label piece => exact ⟨rfl, piece, id, label, rfl⟩
  | piece piece => cases piece

theorem of_shaped {sit : Situation S}
    (shaped : sit.task.Shaped sit.surroundings.program.scope traced) : Formed traced sit := by
  obtain ⟨n, s, task, m⟩ := sit
  cases task with
  | code code => exact .code shaped
  | args args => exact .args shaped
  | body last statements => exact .body shaped

/-- The parts of a plain task are code as the compiler gives it, and run in the same frame. -/
theorem part {root child : Situation S} (formed : Formed traced root) (plain : root.task.Plain)
    (spawns : Spawns root child) (inside : ∀ m, ¬ Calls root m child) :
    child.task.Shaped child.surroundings.program.scope traced ∧
      child.surroundings.frame = root.surroundings.frame := by
  cases spawns with
  | body => exact plain.elim
  | tagged => exact plain.elim
  | callFunction ran found => exact absurd (.intro ran found) (inside _)
  | setLocal =>
    cases formed.untagged rfl with
    | setLocal _ shaped => exact ⟨shaped, rfl⟩
  | addLeft =>
    cases formed.untagged rfl with
    | add left right => exact ⟨left, rfl⟩
  | addRight first =>
    cases formed.untagged rfl with
    | add left right => exact ⟨right, rfl⟩
  | callArgs =>
    cases formed.untagged rfl with
    | call _ shaped => exact ⟨shaped, rfl⟩
  | getProperty =>
    cases formed.untagged rfl with
    | getProperty _ shaped => exact ⟨shaped, rfl⟩
  | setPropertyValue =>
    cases formed.untagged rfl with
    | setProperty _ value receiver => exact ⟨value, rfl⟩
  | setPropertyReceiver first =>
    cases formed.untagged rfl with
    | setProperty _ value receiver => exact ⟨receiver, rfl⟩
  | setGlobal =>
    cases formed.untagged rfl with
    | setGlobal _ shaped => exact ⟨shaped, rfl⟩
  | setClassVariable =>
    cases formed.untagged rfl with
    | setClassVariable _ shaped => exact ⟨shaped, rfl⟩
  | ret =>
    cases formed.untagged rfl with
    | ret shaped => exact ⟨shaped, rfl⟩
  | arg =>
    cases formed with
    | args shaped => exact ⟨shaped _ List.mem_cons_self, rfl⟩
  | laterArgs first =>
    cases formed with
    | args shaped => exact ⟨fun c mem => shaped c (List.mem_cons_of_mem _ mem), rfl⟩
  | statement =>
    cases formed with
    | body shaped => exact ⟨shaped _ List.mem_cons_self, rfl⟩
  | laterStatements first =>
    cases formed with
    | body shaped => exact ⟨fun c mem => shaped c (List.mem_cons_of_mem _ mem), rfl⟩

/-- Parts that are not called belong to the same definition, and run in the same frame. -/
theorem spawns {root child : Situation S} (formed : Formed traced root) (spawns : Spawns root child)
    (inside : ∀ m, ¬ Calls root m child) :
    Formed traced child ∧ child.surroundings.frame = root.surroundings.frame := by
  rcases root.task.plain_or with plain | ⟨statements, body⟩ | ⟨site, code, tag⟩
  · obtain ⟨shaped, frame⟩ := formed.part plain spawns inside
    exact ⟨.of_shaped shaped, frame⟩
  · cases spawns with
    | body =>
      cases formed.untagged rfl with
      | body shaped => exact ⟨.body shaped, rfl⟩
    | _ => cases body
  · cases spawns with
    | tagged entered =>
      obtain ⟨rfl, piece, -⟩ := formed.tagged
      exact ⟨.piece piece, rfl⟩
    | _ => cases tag

end Formed

/-- The code of the situation is that of a definition, or belongs to one. -/
inductive OfDefinition : Situation S → Prop
  | inside {traced sit} (formed : Formed traced sit) : OfDefinition sit
  | function {n s code m} (defined : code.Defined s.program.scope) :
      OfDefinition ⟨n, s, .code code, m⟩

theorem OfDefinition.spawns {root child : Situation S} (h : OfDefinition root)
    (welltagged : root.surroundings.program.WellTagged) (spawns : Spawns root child) :
    OfDefinition child := by
  by_cases called : ∃ m, Calls root m child
  · obtain ⟨m, calls⟩ := called
    cases calls with
    | intro ran found => exact .function (welltagged.functions _ _ found)
  have inside : ∀ m, ¬ Calls root m child := fun m calls => called ⟨m, calls⟩
  cases h with
  | inside formed => exact .inside (formed.spawns spawns inside).1
  | function defined =>
    cases defined with
    | plain shaped => exact .inside ((Formed.piece (.body shaped)).spawns spawns inside).1
    | traced boundary label id bodyLabel shaped =>
      cases spawns with
      | tagged entered => exact .inside (.code (.tagged id bodyLabel (.body shaped)))

/-- The tag of a piece of code is its site; only functions as a whole have another one. -/
theorem OfDefinition.tagged {n : Nat} {s : Surroundings S} {m : Machine S} {site : Site kinds}
    {code : Code} (h : OfDefinition ⟨n, s, .code (.tagged site code), m⟩) :
    (∃ id label, site = siteOf s.program.scope id label code) ∨
      code.isTagged = true ∧ ∃ id label, site = boundaryOf id label := by
  cases h with
  | inside formed => exact .inl formed.tagged.2.2
  | function defined =>
    cases defined with
    | traced boundary label => exact .inr ⟨rfl, boundary, label, rfl⟩

theorem Within.ofDefinition {start sit : Situation S} (h : Within start sit)
    (welltagged : start.surroundings.program.WellTagged) (begins : OfDefinition start) :
    OfDefinition sit := by
  induction h with
  | start => exact begins
  | later within spawns ih => exact ih.spawns (within.surroundings.1 ▸ welltagged) spawns

/-! ### What is told and what is made -/

/-- The situation begins with tagged code that comes to a value, with which this checkpoint tells that
    it is left. -/
inductive Completes : Situation S → Checkpoint kinds → Prop
  | intro {n s m site code v}
      (came : ((eval (n + 1) s (.tagged site code)).run.run m).1 = .ok v) :
      Completes ⟨n + 1, s, .code (.tagged site code), m⟩ ⟨site, s.frame, .leave v⟩

/-- On the way through a situation a listener has been told these checkpoints and these frames have been
    made. `own` are the frames made before in which functions are entered now; checkpoints about other
    frames made before are about that of the situation, if it is `traced`. -/
structure Account (journal : S → List (Checkpoint kinds)) (root : Situation S) (traced : Bool)
    (own : List FrameId) (m m' : Machine S) (told : List (Checkpoint kinds)) : Prop where
  after : journal m'.stage.own = journal m.stage.own ++ told
  grows : m.world.Grows m'.world
  callers : m.world.CallersFirst → m'.world.CallersFirst
  entered : told.filterMap Checkpoint.entered? =
    own ++ root.surroundings.program.invocations m.world m'.world
  frames : ∀ c ∈ told, traced = true ∧ c.frame = root.surroundings.frame ∨
    c.frame ∈ root.surroundings.program.invocations m.world m'.world
  left : ∀ c ∈ told, ∀ v, c.moment = .leave v → ∃ tagged, Within root tagged ∧ Completes tagged c

/-- There is an account, unless the evaluator has run out of steps or been refused something. -/
def Accountable (journal : S → List (Checkpoint kinds)) (root : Situation S) (traced : Bool)
    (own : List FrameId) {α : Type} (r : Except Interrupt α) (m m' : Machine S) : Prop :=
  Settled r → ∃ told, Account journal root traced own m m' told

section

variable {journal : S → List (Checkpoint kinds)} {root child : Situation S} {traced : Bool}
  {own : List FrameId} {m m' m'' : Machine S} {told more : List (Checkpoint kinds)}

namespace Account

/-- Nothing is told, and no frame is made. -/
theorem same (own : m'.stage.own = m.stage.own) (frames : m'.world.frames = m.world.frames) :
    Account journal root traced [] m m' [] where
  after := by rw [own, List.append_nil]
  grows := .of_frames frames
  callers := .of_frames frames
  entered := (root.surroundings.program.invocations_self frames).symm
  frames := List.forall_mem_nil _
  left := List.forall_mem_nil _

/-- One checkpoint. -/
theorem single {c : Checkpoint kinds} (after : journal m'.stage.own = journal m.stage.own ++ [c])
    (world : m'.world = m.world) (frame : c.frame = root.surroundings.frame)
    (left : ∀ v, c.moment = .leave v → Completes root c) :
    Account journal root true c.entered?.toList m m' [c] where
  after := after
  grows := .of_frames (congrArg World.frames world)
  callers := .of_frames (congrArg World.frames world)
  entered := by
    rw [root.surroundings.program.invocations_self (congrArg World.frames world), List.append_nil]
    cases entered : c.entered? with
    | none => exact List.filterMap_cons_none entered
    | some frame => exact List.filterMap_cons_some entered
  frames := by
    intro other mem
    rw [List.mem_singleton.mp mem]
    exact .inl ⟨rfl, frame⟩
  left := by
    intro other mem
    rw [List.mem_singleton.mp mem]
    exact fun v leaves => ⟨root, .start, left v leaves⟩

theorem trans (h : Account journal root traced own m m' told)
    (h' : Account journal root traced [] m' m'' more) :
    Account journal root traced own m m'' (told ++ more) where
  after := by rw [h'.after, h.after, List.append_assoc]
  grows := h.grows.trans h'.grows
  callers := h'.callers ∘ h.callers
  entered := by
    rw [List.filterMap_append, h.entered, h'.entered, List.nil_append, List.append_assoc,
      ← root.surroundings.program.invocations_trans h.grows h'.grows]
  frames := by
    rw [root.surroundings.program.invocations_trans h.grows h'.grows]
    intro c mem
    rcases List.mem_append.mp mem with mem | mem
    · exact (h.frames c mem).imp_right (List.mem_append_left _)
    · exact (h'.frames c mem).imp_right (List.mem_append_right _)
  left := by
    intro c mem
    rcases List.mem_append.mp mem with mem | mem
    · exact h.left c mem
    · exact h'.left c mem

/-- What a part accounts for, the situation does. -/
theorem of_part (h : Account journal child traced own m m' told) (spawns : Spawns root child)
    (frame : child.surroundings.frame = root.surroundings.frame) :
    Account journal root traced own m m' told := by
  obtain ⟨after, grows, callers, entered, frames, left⟩ := h
  rw [spawns.program] at entered frames
  rw [frame] at frames
  refine ⟨after, grows, callers, entered, frames, fun c mem v leaves => ?_⟩
  obtain ⟨tagged, within, completes⟩ := left c mem v leaves
  exact ⟨tagged, (Within.start.later spawns).trans within, completes⟩

theorem congr (h : Account journal root traced own m m' told) (stage : m''.stage = m'.stage)
    (world : m''.world = m'.world) : Account journal root traced own m m'' told := by
  obtain ⟨after, grows, callers, entered, frames, left⟩ := h
  rw [← stage] at after
  rw [← world] at grows callers entered frames
  exact ⟨after, grows, callers, entered, frames, left⟩

/-- A callee has a frame of its own, in which a function is entered if it is traced. -/
theorem of_callee {n : Nat} {s : Surroundings S} {m₀ : Machine S} {name : String} {args : List Code}
    {values : List Value} {function : Code}
    (ran : (evalArgs n s args).run.run m₀ = (.ok values, m))
    (found : s.program.functions.get? name = some function) (made : m.world.Made (.frame s.frame))
    (h : Account journal ⟨n, s.callee m, .code function, s.calling m name values⟩ function.isTagged
      (if function.isTagged then [(s.callee m).frame] else []) (s.calling m name values) m' told) :
    Account journal ⟨n + 1, s, .code (.call name args), m₀⟩ traced [] m m' told := by
  obtain ⟨after, grows, callers, entered, frames, left⟩ := h
  have begun : m.world.Grows (s.calling m name values).world := World.grows_addFrame _ _
  have traces : s.program.traces (s.invocation name values) = function.isTagged := by
    unfold Program.traces Program.codeOf
    change (if false = true then _ else s.program.functions.get? name).any Code.isTagged = _
    rw [if_neg Bool.false_ne_true, found]
    rfl
  have invoked : s.program.invocations m.world m'.world =
      (if function.isTagged then [(s.callee m).frame] else []) ++
        s.program.invocations (s.calling m name values).world m'.world := by
    rw [s.program.invocations_trans begun grows, ← traces]
    exact congrArg (· ++ _) (s.program.invocations_addFrame m.world (s.invocation name values))
  refine ⟨after, begun.trans grows, ?_, ?_, ?_, ?_⟩
  · intro ordered
    apply callers
    apply ordered.addFrame
    rintro caller ⟨⟩
    exact made
  · exact entered.trans invoked.symm
  · intro c mem
    right
    change c.frame ∈ s.program.invocations m.world m'.world
    rw [invoked]
    rcases frames c mem with ⟨tagged, here⟩ | there
    · rw [tagged, here]
      exact List.mem_cons_self
    · exact List.mem_append_right _ there
  · intro c mem v leaves
    obtain ⟨tagged, within, completes⟩ := left c mem v leaves
    exact ⟨tagged, (Within.start.later (.callFunction ran found)).trans within, completes⟩

end Account

/-- The evaluator accounts for what its parts and callees account for. -/
theorem Goes.accounted {α : Type} {work : EvalM S α}
    (parts : ∀ child, Spawns root child → (∀ m, ¬ Calls root m child) →
      child.machine.world.Made (.frame root.surroundings.frame) →
      Accountable journal root traced [] child.ended.1 child.machine child.ended.2)
    (callees : ∀ m child, Calls root m child → m.world.Made (.frame root.surroundings.frame) →
      Accountable journal root traced [] child.ended.1 m child.ended.2)
    (goes : Goes root work m) (made : m.world.Made (.frame root.surroundings.frame)) :
    Accountable journal root traced [] (work.run.run m).1 m (work.run.run m).2 := by
  induction goes with
  | value a m => exact fun _ => ⟨[], .same rfl rfl⟩
  | quiet change m stage frames => exact fun _ => ⟨[], .same (congrArg Stage.own stage) frames⟩
  | raise raises => exact fun _ => ⟨[], .same rfl rfl⟩
  | @part child spawns inside => exact parts child spawns inside made
  | @callee child m work calls ran =>
    rw [ran]
    intro settled
    obtain ⟨told, account⟩ := callees m child calls made settled
    exact ⟨told, account.congr rfl rfl⟩
  | look _ ih => exact ih made
  | @bind _ _ work next m _ _ first later =>
    rw [run_bind]
    rcases ran : work.run.run m with ⟨e | a, m₁⟩
    · rw [ran] at first
      exact fun settled => first made settled.error
    · rw [ran] at first
      intro settled
      obtain ⟨told, account⟩ := first made ⟨nofun, nofun⟩
      obtain ⟨more, account'⟩ := later a m₁ ran (account.grows.made made) settled
      exact ⟨told ++ more, account.trans account'⟩

end

section

variable {journal : S → List (Checkpoint kinds)} {n : Nat} {s : Surroundings S} {m : Machine S}

theorem report_not_settled {α : Type} {site : Site kinds} {moment : Moment Value}
    {values : List Value} {m' : Machine S} {e : Interrupt}
    (run : (s.report site moment values).run.run m = (.error e, m')) :
    ¬ Settled (.error e : Except Interrupt α) := by
  obtain ⟨fault, rfl⟩ := report_error run
  exact fun settled => settled.2 fault rfl

theorem world_report {site : Site kinds} {moment : Moment Value} {values : List Value}
    {m' : Machine S} {r : Except Interrupt Unit}
    (run : (s.report site moment values).run.run m = (r, m')) : m'.world = m.world := by
  obtain rfl : ((s.report site moment values).run.run m).2 = m' := congrArg Prod.snd run
  rfl

/-- Tagged code is entered and left; in between it accounts for the code inside. -/
theorem accounted_tagged {site : Site kinds} {code : Code} (keeps : Journals journal s.listener)
    (inside : ∀ m', (s.report site .enter []).run.run m = (.ok (), m') →
      Accountable journal ⟨n + 1, s, .code (.tagged site code), m⟩ true []
        ((eval n s code).run.run m').1 m' ((eval n s code).run.run m').2) :
    Accountable journal ⟨n + 1, s, .code (.tagged site code), m⟩ true
      (Checkpoint.entered? ⟨site, s.frame, .enter⟩).toList
      ((eval (n + 1) s (.tagged site code)).run.run m).1 m
      ((eval (n + 1) s (.tagged site code)).run.run m).2 := by
  intro settled
  rcases entered : (s.report site .enter []).run.run m with ⟨e | ⟨⟩, m'⟩
  · rw [run_tagged_of_refused entered] at settled
    exact absurd settled (report_not_settled entered)
  have opening : Account journal ⟨n + 1, s, .code (.tagged site code), m⟩ true
      (Checkpoint.entered? ⟨site, s.frame, .enter⟩).toList m m' [⟨site, s.frame, .enter⟩] :=
    .single (keeps.report entered) (world_report entered) rfl nofun
  have inner := inside m' entered
  have left := leaving n code entered
  generalize ran : (eval n s code).run.run m' = between, whole :
    (eval (n + 1) s (.tagged site code)).run.run m = ended at left inner settled ⊢
  cases left with
  | @value v m₂ r m₃ left =>
    rcases r with e | ⟨⟩
    · exact absurd settled (report_not_settled left)
    obtain ⟨told, account⟩ := inner ⟨nofun, nofun⟩
    have closing : Account journal ⟨n + 1, s, .code (.tagged site code), m⟩ true [] m₂ m₃
        [⟨site, s.frame, .leave v⟩] :=
      .single (keeps.report left) (world_report left) rfl fun w same => by
        cases same
        exact .intro (congrArg Prod.fst whole)
    exact ⟨_, (opening.trans account).trans closing⟩
  | @returned v m₂ r m₃ left =>
    rcases r with e | ⟨⟩
    · exact absurd settled (report_not_settled left)
    obtain ⟨told, account⟩ := inner (settled_returning v)
    have closing : Account journal ⟨n + 1, s, .code (.tagged site code), m⟩ true [] m₂ m₃
        [⟨site, s.frame, .unwind (returnText v)⟩] :=
      .single (keeps.report left) (world_report left) rfl nofun
    exact ⟨_, (opening.trans account).trans closing⟩
  | interrupted other =>
    obtain ⟨told, account⟩ := inner settled
    exact ⟨_, opening.trans account⟩

/-- A body accounts for its statements. -/
theorem accounted_body {root : Situation S} {traced : Bool} {statements : List Code}
    (inner : Accountable journal root traced [] ((evalBody n s .nil statements).run.run m).1 m
      ((evalBody n s .nil statements).run.run m).2) :
    Accountable journal root traced [] ((eval (n + 1) s (.body statements)).run.run m).1 m
      ((eval (n + 1) s (.body statements)).run.run m).2 := by
  rw [run_body]
  generalize (evalBody n s .nil statements).run.run m = ran at inner ⊢
  rcases ran with ⟨(v | failure | _) | v, m'⟩
  · exact fun _ => inner (settled_returning v)
  · exact inner
  · exact inner
  · exact inner

end

/-! ### The account of a run -/

/-- The evaluator comes to the situation in a program of the compiler's, next to a listener that writes
    a journal; the frame of the situation has been made. -/
structure Underway (journal : S → List (Checkpoint kinds)) (sit : Situation S) : Prop where
  keeps : Journals journal sit.surroundings.listener
  welltagged : sit.surroundings.program.WellTagged
  made : sit.machine.world.Made (.frame sit.surroundings.frame)

theorem Underway.spawns {journal : S → List (Checkpoint kinds)} {root child : Situation S}
    (h : Underway journal root) (spawns : Spawns root child)
    (made : child.machine.world.Made (.frame child.surroundings.frame)) : Underway journal child where
  keeps := spawns.listener ▸ h.keeps
  welltagged := spawns.program ▸ h.welltagged
  made := made

/-- The frames in which functions are entered at the beginning of the code. -/
def ownFrames (frame : FrameId) (code : Code) : List FrameId := if code.isTagged then [frame] else []

/-- For so many steps there is an account of what the evaluator does. -/
structure Accounts (S : Type) (n : Nat) : Prop where
  inside : ∀ (journal : S → List (Checkpoint kinds)) traced s task m,
    Formed traced ⟨n, s, task, m⟩ → Underway journal ⟨n, s, task, m⟩ →
    Accountable journal ⟨n, s, task, m⟩ traced [] (Situation.ended ⟨n, s, task, m⟩).1 m
      (Situation.ended ⟨n, s, task, m⟩).2
  function : ∀ (journal : S → List (Checkpoint kinds)) s code m, code.Defined s.program.scope →
    Underway journal ⟨n, s, .code code, m⟩ →
    Accountable journal ⟨n, s, .code code, m⟩ code.isTagged (ownFrames s.frame code)
      ((eval n s code).run.run m).1 m ((eval n s code).run.run m).2

theorem entered?_siteOf {scope : ScopeId} {code : Code} (piece : code.Piece scope true) (id : SiteId)
    (label : String) (frame : FrameId) :
    Checkpoint.entered? (K := kinds) ⟨siteOf scope id label code, frame, .enter⟩ = none := by
  cases piece <;> rfl

section

variable {journal : S → List (Checkpoint kinds)} {n : Nat} {traced : Bool} {s : Surroundings S}
  {task : Task} {m : Machine S} {code : Code}

theorem Accounts.part (ih : Accounts S n) (formed : Formed traced ⟨n + 1, s, task, m⟩)
    (underway : Underway journal ⟨n + 1, s, task, m⟩) {child : Situation S}
    (spawns : Spawns ⟨n + 1, s, task, m⟩ child) (inside : ∀ m', ¬ Calls ⟨n + 1, s, task, m⟩ m' child)
    (made : child.machine.world.Made (.frame s.frame)) :
    Accountable journal ⟨n + 1, s, task, m⟩ traced [] child.ended.1 child.machine child.ended.2 := by
  obtain ⟨formed, frame⟩ := formed.spawns spawns inside
  obtain ⟨k, t, inner, m'⟩ := child
  obtain rfl : n = k := Nat.succ.inj spawns.fuel
  intro settled
  have underway := underway.spawns spawns (by rw [frame]; exact made)
  obtain ⟨told, account⟩ := ih.inside journal traced t inner m' formed underway settled
  exact ⟨told, account.of_part spawns frame⟩

theorem Accounts.callee (ih : Accounts S n) (underway : Underway journal ⟨n + 1, s, task, m⟩)
    {m' : Machine S} {child : Situation S} (calls : Calls ⟨n + 1, s, task, m⟩ m' child)
    (made : m'.world.Made (.frame s.frame)) :
    Accountable journal ⟨n + 1, s, task, m⟩ traced [] child.ended.1 m' child.ended.2 := by
  cases calls with
  | intro ran found =>
    intro settled
    have underway := underway.spawns (.callFunction ran found)
      (World.made_frame.mpr ⟨_, World.frame?_addFrame _ _⟩)
    obtain ⟨told, account⟩ := ih.function journal _ _ _ (underway.welltagged.functions _ _ found)
      underway settled
    exact ⟨told, account.of_callee ran found made⟩

theorem Accounts.inside_succ (ih : Accounts S n) (formed : Formed traced ⟨n + 1, s, task, m⟩)
    (underway : Underway journal ⟨n + 1, s, task, m⟩) :
    Accountable journal ⟨n + 1, s, task, m⟩ traced [] (Situation.ended ⟨n + 1, s, task, m⟩).1 m
      (Situation.ended ⟨n + 1, s, task, m⟩).2 := by
  rcases task.plain_or with plain | ⟨statements, rfl⟩ | ⟨site, code, rfl⟩
  · exact (goes plain).accounted (fun child => ih.part formed underway)
      (fun m' child => ih.callee underway) underway.made
  · exact accounted_body (ih.part formed underway .body nofun underway.made)
  · obtain ⟨rfl, piece, id, label, rfl⟩ := formed.tagged
    have account := accounted_tagged underway.keeps fun m' entered =>
      ih.part formed underway (.tagged entered) nofun (world_report entered ▸ underway.made)
    rw [entered?_siteOf piece] at account
    exact account

theorem Accounts.function_succ (ih : Accounts S n) (defined : code.Defined s.program.scope)
    (underway : Underway journal ⟨n + 1, s, .code code, m⟩) :
    Accountable journal ⟨n + 1, s, .code code, m⟩ code.isTagged (ownFrames s.frame code)
      ((eval (n + 1) s code).run.run m).1 m ((eval (n + 1) s code).run.run m).2 := by
  cases defined with
  | plain shaped => exact ih.inside_succ (.piece (.body shaped)) underway
  | traced boundary label id bodyLabel shaped =>
    apply accounted_tagged underway.keeps
    intro m' entered settled
    have made := world_report entered ▸ underway.made
    obtain ⟨told, account⟩ := ih.inside journal true s _ m' (.code (.tagged id bodyLabel (.body shaped)))
      (underway.spawns (.tagged entered) made) settled
    exact ⟨told, account.of_part (.tagged entered) rfl⟩

end

theorem accounts (S : Type) (n : Nat) : Accounts S n := by
  have spent : ∀ {α : Type}, ¬ Settled (.error .outOfFuel : Except Interrupt α) :=
    fun settled => settled.1 rfl
  induction n with
  | zero =>
    constructor
    · intro journal traced s task m _ _
      rw [Situation.ended_zero]
      exact fun settled => absurd settled spent
    · intro journal s code m _ _
      rw [eval_zero]
      exact fun settled => absurd settled spent
  | succ n ih =>
    exact ⟨fun _ _ _ _ _ => ih.inside_succ, fun _ _ _ _ => ih.function_succ⟩

end Lineage.Toy
