import Lineage.Proofs.Sweep
import Lineage.Proofs.Toy.Frames

/-!
# What a session sums up

Frames own their callers and nothing else owns a frame. Once its result is given up, no frame that a run
has made has an owner, whatever nodes are kept; so the last sweep of a session drops the records of all
the traced functions that were invoked, and what is left are the globals.
-/

namespace Lineage

namespace Toy

/-! ### Frames without an owner -/

namespace World

variable {w : World} {held : List Entity}

/-- The frames have the first places. -/
theorem eq_frame_of_place {id : FrameId} {e : Entity} (made : w.Made (.frame id))
    (same : w.place e = w.place (.frame id)) : e = .frame id := by
  rcases e with ⟨⟨i⟩⟩ | ⟨⟨i⟩⟩ | ⟨⟨i⟩⟩ <;> obtain ⟨j⟩ := id
  all_goals simp only [Made, place, Entity.frame.injEq, FrameId.mk.injEq, reduceCtorEq] at made same ⊢
  all_goals omega

/-- Where only earlier frames are held, later frames have no owner. -/
theorem frame_not_living (ordered : w.CallersFirst) {since : Nat}
    (old : ∀ id, Entity.frame id ∈ held → id.number < since) {id : FrameId} (made : w.Made (.frame id))
    (new : since ≤ id.number) : ((w.living held).cell? (w.place (.frame id))).isSome = false := by
  -- callees come later, so that the last frame is looked at first
  induction left : w.frames.size - id.number using Nat.strong_induction_on generalizing id with
  | _ n ih =>
    by_contra living
    rw [Bool.not_eq_false] at living
    rcases owner_of_living living with
      ⟨e, mem, same⟩ | ⟨owner, ownerMade, alive, owned, mem, same⟩
    · have early := old id (eq_frame_of_place made same ▸ mem)
      omega
    · rw [eq_frame_of_place made same] at mem
      obtain ⟨callee, frame, rfl, found, called⟩ := frame_mem_sharesOf mem
      have later := ordered callee frame id found called
      have bound : callee.number < w.frames.size := ownerMade
      have dead := ih (w.frames.size - callee.number) (by omega) ownerMade (by omega) rfl
      exact Bool.false_ne_true (dead.symm.trans alive)

theorem frame_not_mem_nodeShares {id : FrameId} (nodes : List (Node Value)) :
    Entity.frame id ∉ nodeShares nodes := by
  simp [nodeShares, frame_not_mem_ofValue]

/-- A node keeps no frame. -/
theorem frame_dead (ordered : w.CallersFirst) {since : Nat}
    (old : ∀ id, Entity.frame id ∈ held → id.number < since) {id : FrameId} (made : w.Made (.frame id))
    (new : since ≤ id.number) (nodes kept : List (Node Value)) :
    ((w.host held nodes).survivors kept).frame id = false := by
  apply frame_not_living ordered _ made new
  intro other mem
  rcases List.mem_append.mp mem with mem | mem
  · exact old other mem
  · exact absurd mem (frame_not_mem_nodeShares _)

end World

/-! ### Globals that are used -/

/-- Traced code that reads or writes the global comes to a value. -/
inductive Situation.UsesGlobal {S : Type} : Situation S → String → Prop
  | read {n s site name m v}
      (came : ((eval (n + 1) s (.tagged site (.getGlobal name))).run.run m).1 = .ok v) :
      UsesGlobal ⟨n + 1, s, .code (.tagged site (.getGlobal name)), m⟩ name
  | written {n s site name value m v}
      (came : ((eval (n + 1) s (.tagged site (.setGlobal name value))).run.run m).1 = .ok v) :
      UsesGlobal ⟨n + 1, s, .code (.tagged site (.setGlobal name value)), m⟩ name

section

variable {S : Type} {start sit : Situation S} {c : Checkpoint kinds} {name : String}

theorem accessed?_siteOf (scope : ScopeId) (id : SiteId) (label : String) (frame : FrameId)
    (code : Code) (v : Value) :
    Checkpoint.accessed? (K := kinds) ⟨siteOf scope id label code, frame, .leave v⟩ =
      match code with
      | .getGlobal name | .setGlobal name _ => some name
      | _ => none := by
  cases code <;> rfl

/-- The checkpoint with which a global access is left names the global. -/
theorem usesGlobal_of_completes (h : OfDefinition sit) (completes : Completes sit c)
    (accessed : c.accessed? = some name) : sit.UsesGlobal name := by
  cases completes with
  | @intro n s m site code v came =>
    rcases h.tagged with ⟨id, label, rfl⟩ | ⟨-, id, label, rfl⟩
    · rw [accessed?_siteOf] at accessed
      cases code with
      | getGlobal other =>
        cases accessed
        exact .read came
      | setGlobal other value =>
        cases accessed
        exact .written came
      | _ => cases accessed
    · cases accessed

/-- The listener has been told that the access is left. -/
theorem accessed_of_usesGlobal {journal : S → List (Checkpoint kinds)}
    (keeps : Journals journal start.surroundings.listener)
    (welltagged : start.surroundings.program.WellTagged) (begins : OfDefinition start)
    (within : Within start sit) (uses : sit.UsesGlobal name) :
    ∃ c ∈ journal start.ended.2.stage.own, c.accessed? = some name := by
  have told : ∀ {n s m site code v}, Within start ⟨n + 1, s, .code (.tagged site code), m⟩ →
      ((eval (n + 1) s (.tagged site code)).run.run m).1 = .ok v →
      ∃ w, (⟨site, s.frame, .leave w⟩ : Checkpoint kinds) ∈ journal start.ended.2.stage.own := by
    intro n s m site code v within came
    have unbroken : Unbroken (Situation.ended ⟨n + 1, s, .code (.tagged site code), m⟩).1 := by
      intro e failed
      cases came.symm.trans failed
    obtain ⟨inside, ⟨site', frame', moment⟩, encloses⟩ :=
      within.encloses .intro keeps welltagged unbroken
    obtain ⟨later, place⟩ := encloses.place
    cases encloses.site
    cases encloses.frame
    cases moment with
    | enter => exact absurd rfl encloses.closes
    | leave w =>
      refine ⟨w, ?_⟩
      rw [place]
      simp
    | unwind text =>
      obtain ⟨w, -, returning⟩ := (encloses.unwinds text).mp rfl
      cases came.symm.trans (returning.ended unbroken)
  have formed := within.ofDefinition welltagged begins
  cases uses with
  | read came =>
    obtain ⟨w, mem⟩ := told within came
    rcases formed.tagged with ⟨id, label, rfl⟩ | ⟨tagged, -⟩
    · exact ⟨_, mem, accessed?_siteOf ..⟩
    · cases tagged
  | written came =>
    obtain ⟨w, mem⟩ := told within came
    rcases formed.tagged with ⟨id, label, rfl⟩ | ⟨tagged, -⟩
    · exact ⟨_, mem, accessed?_siteOf ..⟩
    · cases tagged

end

/-! ### A whole run -/

/-- The run has come to a value or to a failure of the program. -/
def Outcome.Settled (outcome : Outcome) : Prop :=
  outcome ≠ .outOfFuel ∧ ∀ fault, outcome ≠ .failed (.refused fault)

theorem Outcome.settled_of {frame : FrameId} {r : Except Interrupt Value}
    (h : (Outcome.of frame r).Settled) : Toy.Settled r := by
  obtain ⟨fuel, accepted⟩ := h
  constructor
  · rintro rfl
    exact fuel rfl
  · rintro fault rfl
    exact accepted fault rfl

namespace Program

variable {S : Type} {p : Program} {fuel : Nat} {listener : Listener kinds S} {owned : List Entity}
  {world : World} {stage : Stage kinds S}

/-- The stream of a run accounts for the frames of the run. -/
theorem account (welltagged : p.WellTagged)
    (settled : (p.run fuel listener owned world stage).1.Settled) :
    Account Prod.snd (p.situation fuel listener.journaled owned world stage.journaled)
      p.main.isTagged (ownFrames ⟨world.frames.size⟩ p.main) (machine world stage.journaled)
      (p.situation fuel listener.journaled owned world stage.journaled).ended.2
      (p.stream fuel listener owned world stage) := by
  have underway : Underway Prod.snd
      (p.situation fuel listener.journaled owned world stage.journaled) :=
    ⟨journals_journaled listener, welltagged, World.made_frame.mpr ⟨_, World.frame?_addFrame _ _⟩⟩
  rw [p.run_journaled] at settled
  obtain ⟨told, account⟩ :=
    (accounts _ fuel).function Prod.snd _ _ _ welltagged.main underway (Outcome.settled_of settled)
  have whole : p.stream fuel listener owned world stage = told := account.after
  rw [whole]
  exact account

/-- The frames in which functions are entered are those of the traced functions that are invoked, and
    no checkpoint is about another one. -/
theorem entered_eq_invocations (welltagged : p.WellTagged)
    (settled : (p.run fuel listener owned world stage).1.Settled) :
    let after := (p.run fuel listener owned world stage).2.1
    let stream := p.stream fuel listener owned world stage
    stream.filterMap Checkpoint.entered? = p.invocations world after ∧
      (∀ c ∈ stream, c.frame ∈ p.invocations world after) ∧
      (world.CallersFirst → after.CallersFirst) := by
  intro after stream
  have account := account welltagged settled
  have same : (p.situation fuel listener.journaled owned world stage.journaled).ended.2.world = after :=
    (congrArg (·.2.1) (p.run_journaled fuel listener owned world stage)).symm
  obtain ⟨-, grows, callers, entered, frames, -⟩ := account
  rw [same] at grows callers entered frames
  let frame : Frame := { name := "main", caller := none, args := [] }
  have begun : world.Grows (machine world stage.journaled).world := World.grows_addFrame world frame
  have invoked : p.invocations world after = ownFrames ⟨world.frames.size⟩ p.main ++
      p.invocations (machine world stage.journaled).world after := by
    rw [p.invocations_trans begun grows]
    exact congrArg (· ++ _) (p.invocations_addFrame world frame)
  refine ⟨entered.trans invoked.symm, ?_, ?_⟩
  · intro c mem
    rw [invoked]
    rcases frames c mem with ⟨tagged, here⟩ | there
    · rw [ownFrames, if_pos tagged, here]
      exact List.mem_cons_self
    · exact List.mem_append_right _ there
  · intro ordered
    apply callers
    exact ordered.addFrame nofun

/-- After a run next to a session that never sweeps, its tables know the checkpoints of the run. -/
theorem registered (p : Program) (fuel : Nat) (id : SessionId) {settings : Settings}
    (never : settings.sweepInterval = 0) (logCheckpoints : Bool) {listeners : List (Listener kinds S)}
    (ofProgram : ∀ l ∈ listeners, l.OfProgram) (shadow : Shadow kinds) (own : S) (owned : List Entity)
    (world : World) :
    let session := Session.ofListeners id settings logCheckpoints ⟨listeners⟩
    let stage : Stage kinds S := ⟨session.start shadow, own⟩
    let ran := p.run fuel session.asListener owned world stage
    let stream := p.stream fuel session.asListener owned world stage
    (∀ fault, ran.1 ≠ .failed (.refused fault)) → Registered stream stream ran.2.2.shadow := by
  intro session stage ran stream accepted
  have same := p.run_journaled fuel session.asListener owned world stage
  rw [congrArg Prod.fst same] at accepted
  rw [congrArg (·.2.2) same]
  apply p.run_keeps fuel (P := fun stage : Stage kinds (Journaled S) =>
    Registered stage.own.2 stage.own.2 stage.shadow) ?_ ?_ owned world ?_ accepted
  · intro host c stage registered done
    have bare : Registered stage.own.2 stage.own.2 stage.bare.shadow := registered
    exact Session.registers id settings logCheckpoints ofProgram host c bare done
  · exact fun _ _ _ stage registered => registered.congr rfl rfl
  · exact Registered.start _ (congrArg Store.ofInterval never)

/-- The globals that are known are those that traced code has read or written. -/
theorem globals_used (welltagged : p.WellTagged)
    (settled : (p.run fuel listener owned world stage).1.Settled) {shadow : Shadow kinds}
    (register : Registered (p.stream fuel listener owned world stage)
      (p.stream fuel listener owned world stage) shadow) :
    {name | ∃ sit, Within (p.situation fuel listener.journaled owned world stage.journaled) sit ∧
        sit.UsesGlobal name} =
      {name | shadow.store.globals.get? name ≠ none} := by
  ext name
  rw [Set.mem_ofPred_eq, Set.mem_ofPred_eq, ← Dict.mem_keys_iff]
  constructor
  · rintro ⟨sit, within, uses⟩
    obtain ⟨c, told, accessed⟩ := accessed_of_usesGlobal (journals_journaled _) welltagged
      (.function welltagged.main) within uses
    exact register.accessed c told name accessed
  · intro bound
    obtain ⟨c, told, accessed⟩ := register.access name bound
    obtain ⟨⟨value, leaves⟩, -⟩ := Checkpoint.accessed?_eq_some_iff.mp accessed
    obtain ⟨tagged, within, completes⟩ := (account welltagged settled).left c told value leaves
    exact ⟨tagged, within, usesGlobal_of_completes
      (within.ofDefinition welltagged (.function welltagged.main)) completes accessed⟩

end Program

end Toy

/-- The frames are swept if they are all dead; the globals stay for good. -/
theorem Session.finish_of_dead {K : Kinds} {S : Type} (session : Session K S) {host : Host K}
    {shadow shadow' : Shadow K} {summary : SessionSummary}
    (dead : ∀ frame ∈ shadow.store.frames.bindings.keys, ∀ kept,
      (host.survivors kept).frame frame = false)
    (finished : session.finish host shadow = (summary, shadow')) :
    summary.swept.frames = shadow.store.frames.bindings.keys.length ∧ summary.stats.frames = 0 ∧
      summary.stats.globals = shadow.store.globals.size := by
  obtain rfl : (session.finish host shadow).1 = summary := congrArg Prod.fst finished
  have swept : shadow.store.frames.sweep (shadow.store.sweepingFrames host []) = _ :=
    Table.sweep_of_dead fun frame bound _ => dead frame bound _
  refine ⟨?_, ?_, rfl⟩
  · change (shadow.store.frames.sweep (shadow.store.sweepingFrames host [])).1 = _
    rw [swept, Dict.keys, List.length_map]
    rfl
  · change (Dict.filterKeys
      (shadow.store.frames.sweep (shadow.store.sweepingFrames host [])).2.bindings _).size = 0
    rw [swept]
    rfl

namespace Toy

/-- A session counts exactly. Let a program run once next to a fresh session that never sweeps of its own
    accord, and come to a value or to a failure of its own. When nothing but nodes holds a frame of the
    run any more, the last sweep drops one record for each traced function that was invoked, the main
    part included; these are the frames in which functions were entered, no other frame has a record,
    and none is left. As many globals are left as there are names of globals that traced code has read
    or written. -/
theorem Program.session_counts {S : Type} {source : Source} {scope : ScopeId} {p : Program}
    (compiled : source.compile scope = some p) (fuel : Nat) (id : SessionId) {settings : Settings}
    (never : settings.sweepInterval = 0) (logCheckpoints : Bool) {listeners : List (Listener kinds S)}
    (ofProgram : ∀ l ∈ listeners, l.OfProgram) (shadow : Shadow kinds) (own : S) (owned : List Entity)
    {world : World} (ordered : world.CallersFirst) {held : List Entity}
    (old : ∀ frame, Entity.frame frame ∈ held → frame.number < world.frames.size)
    (nodes : List (Node Value)) :
    let session := Session.ofListeners id settings logCheckpoints ⟨listeners⟩
    let stage : Stage kinds S := ⟨session.start shadow, own⟩
    let start := p.situation fuel session.asListener.journaled owned world stage.journaled
    let stream := p.stream fuel session.asListener owned world stage
    ∀ outcome after last summary shadow',
      p.run fuel session.asListener owned world stage = (outcome, after, last) → outcome.Settled →
      session.finish (after.host held nodes) last.shadow = (summary, shadow') →
      let invoked := p.invocations world after
      stream.filterMap Checkpoint.entered? = invoked ∧
      (∀ frame, last.shadow.store.frames.find? frame ≠ none ↔ frame ∈ invoked) ∧
      summary.swept.frames = invoked.length ∧ summary.stats.frames = 0 ∧
      {name | ∃ sit, Within start sit ∧ sit.UsesGlobal name}.encard = summary.stats.globals := by
  intro session stage start stream outcome after last summary shadow' run settled finished invoked
  have welltagged : p.WellTagged := (Source.wellTagged_of_compile compiled).1
  have register := p.registered fuel id never logCheckpoints ofProgram shadow own owned world
  have settled' : (p.run fuel session.asListener owned world stage).1.Settled := run ▸ settled
  have register : Registered stream stream (p.run fuel session.asListener owned world stage).2.2.shadow :=
    register settled'.2
  obtain ⟨entered, about, callers⟩ := entered_eq_invocations welltagged settled'
  rw [run] at register entered about callers
  have keys : ∀ frame, frame ∈ last.shadow.store.frames.bindings.keys ↔ frame ∈ invoked := by
    intro frame
    rw [← entered] at about
    rw [register.mem_keys_iff about, entered]
  have dead : ∀ frame ∈ last.shadow.store.frames.bindings.keys, ∀ kept,
      ((after.host held nodes).survivors kept).frame frame = false := by
    intro frame bound kept
    obtain ⟨new, description, found, -⟩ := p.mem_invocations.mp ((keys frame).mp bound)
    exact World.frame_dead (callers ordered) old (World.made_frame.mpr ⟨_, found⟩) new _ kept
  obtain ⟨swept, none', globals⟩ := session.finish_of_dead dead finished
  refine ⟨entered, ?_, ?_, none', ?_⟩
  · intro frame
    rw [← keys, Dict.mem_keys_iff]
    rfl
  · have perm : last.shadow.store.frames.bindings.keys.Perm invoked :=
      (List.perm_ext_iff_of_nodup register.keeping.nodup (p.nodup_invocations _ _)).mpr keys
    exact swept.trans perm.length_eq
  · rw [Program.globals_used welltagged settled' register, Dict.encard_bound register.nodup, globals]

/-! A traced main part calls an untraced function, which calls a traced one twice; then it fails. -/

namespace Mixed

def source : Source where
  functions := [
    { name := "leaf", body := [.setGlobal "a" (.int 1)] },
    { name := "middle", body := [.call "leaf" [], .call "leaf" [], .getGlobal "b"], traced := false }]
  main := some { name := "main", body := [.call "middle" [], .getGlobal "c", .add (.int 1) .nil] }

def program : Program := (source.compile ⟨0⟩).get rfl

def world : World := { scopes := #[{}] }

theorem session_counts_mixed :
    let session : Session kinds Unit := .ofListeners ⟨0⟩ { sweepInterval := 0 } false ⟨[]⟩
    let stage : Stage kinds Unit := ⟨session.start {}, ()⟩
    let start := program.situation 20 session.asListener.journaled [] world stage.journaled
    source.compile ⟨0⟩ = some program ∧ world.CallersFirst ∧ ∃ after last summary shadow',
      program.run 20 session.asListener [] world stage =
        (.failed (.cannotAdd (.int 1) .nil), after, last) ∧
      session.finish (after.host [] []) last.shadow = (summary, shadow') ∧
      program.invocations world after = [⟨0⟩, ⟨2⟩, ⟨3⟩] ∧
      summary.swept.frames = 3 ∧ summary.stats.frames = 0 ∧
      {name | ∃ sit, Within start sit ∧ sit.UsesGlobal name}.encard = 2 := by
  intro session stage start
  have compiled : source.compile ⟨0⟩ = some program := rfl
  have ordered : world.CallersFirst := fun id frame caller found => by cases found
  have failed : (program.run 20 session.asListener [] world stage).1 =
      .failed (.cannotAdd (.int 1) .nil) := by decide +kernel
  have invoked : program.invocations world (program.run 20 session.asListener [] world stage).2.1 =
      [⟨0⟩, ⟨2⟩, ⟨3⟩] := by decide +kernel
  have globals : (program.run 20 session.asListener [] world stage).2.2.shadow.store.globals.size = 2 := by
    decide +kernel
  have never : ({ sweepInterval := 0 } : Settings).sweepInterval = 0 := rfl
  have ofProgram : ∀ l ∈ ([] : List (Listener kinds Unit)), l.OfProgram := nofun
  have old : ∀ frame, Entity.frame frame ∈ [] → frame.number < world.frames.size := nofun
  rcases run : program.run 20 session.asListener [] world stage with ⟨outcome, after, last⟩
  rcases finished : session.finish (after.host [] []) last.shadow with ⟨summary, shadow'⟩
  rw [run] at failed invoked globals
  obtain rfl : outcome = _ := failed
  obtain ⟨-, -, swept, none', used⟩ := Program.session_counts compiled 20 ⟨0⟩ never false ofProgram {}
    () [] ordered old [] _ after last summary shadow' run ⟨nofun, nofun⟩ finished
  refine ⟨compiled, ordered, after, last, summary, shadow', rfl, finished, invoked, ?_, none', ?_⟩
  · exact swept.trans (congrArg List.length invoked)
  · have count : summary.stats.globals = 2 :=
      (congrArg (·.1.stats.globals) finished).symm.trans globals
    rw [used, count]
    rfl

end Mixed

end Toy

end Lineage
