import Lineage.Proofs.History
import Lineage.Proofs.LogBlind
import Lineage.Recorder
import Lineage.Session

/-!
# Listeners beside the tracer

In a session the tracer stands in front of the listeners of the embedding program, which work on a
state of their own. Whatever they do and refuse, the shadow state is that of a tracer that is told of
the same checkpoints alone; and a session answers with the first refusal, the tracer being asked first
and every listener after the refusal not being told.
-/

namespace Lineage

open Shadow

variable {K : Kinds} {S : Type} {host : Host K} {c : Checkpoint K}

/-- A listener as an embedding program can make it: it works on a state of its own, or logs
    checkpoints, or is a pipeline of such listeners. -/
inductive Listener.OfProgram : Listener K S → Prop
  | own (name : String) (react : Checkpoint K → ExceptT Fault (StateM S) Unit) :
      OfProgram (.own name react)
  | checkpointLog : OfProgram .checkpointLog
  | pipeline (p : Pipeline K S) (each : ∀ l ∈ p.listeners, OfProgram l) : OfProgram p.asListener

namespace Listener

/-- What a listener answers at a checkpoint, and the program's state after that, where there is no
    tracer at all. -/
def answer (l : Listener K S) (host : Host K) (c : Checkpoint K) (own : S) :
    Except Fault Unit × S :=
  let (result, stage) := (l.react host c).run.run ⟨{}, own⟩
  (result, stage.own)

/-- The answers of some listeners one after the other, up to the first refusal. -/
def answers (host : Host K) (c : Checkpoint K) : List (Listener K S) → S → Except Fault Unit × S
  | [], own => (.ok (), own)
  | l :: rest, own =>
      match l.answer host c own with
      | (.ok _, own) => answers host c rest own
      | (.error fault, own) => (.error fault, own)

/-- All of the listeners accept the checkpoint, one after the other. -/
def Accept (host : Host K) (c : Checkpoint K) : List (Listener K S) → S → S → Prop
  | [], own, after => after = own
  | l :: rest, own, after => ∃ mid, l.answer host c own = (.ok (), mid) ∧ Accept host c rest mid after

theorem answers_eq_ok_iff {listeners : List (Listener K S)} {own after : S} :
    answers host c listeners own = (.ok (), after) ↔ Accept host c listeners own after := by
  induction listeners generalizing own with
  | nil => exact ⟨fun h => (Prod.mk.inj h).2.symm, fun h => congrArg _ h.symm⟩
  | cons l rest ih =>
    unfold answers Accept
    rcases l.answer host c own with ⟨fault | _, mid⟩
    · exact ⟨nofun, nofun⟩
    · dsimp only
      rw [ih]
      exact ⟨fun h => ⟨mid, rfl, h⟩, fun ⟨_, same, h⟩ => (Prod.mk.inj same).2 ▸ h⟩

/-- A refusal is that of the first listener that does not accept. -/
theorem answers_eq_error_iff {listeners : List (Listener K S)} {own after : S} {fault : Fault} :
    answers host c listeners own = (.error fault, after) ↔
      ∃ earlier l later mid, listeners = earlier ++ l :: later ∧ Accept host c earlier own mid ∧
        l.answer host c mid = (.error fault, after) := by
  induction listeners generalizing own with
  | nil => exact ⟨nofun, fun ⟨earlier, l, later, _, split, _⟩ => by cases earlier <;> cases split⟩
  | cons l rest ih =>
    unfold answers
    constructor
    · rcases told : l.answer host c own with ⟨refused | _, mid⟩
      · rintro ⟨⟩
        exact ⟨[], l, rest, own, rfl, rfl, told⟩
      · intro h
        obtain ⟨earlier, last, later, mid', rfl, accepted, refused⟩ := ih.mp h
        exact ⟨l :: earlier, last, later, mid', rfl, ⟨mid, told, accepted⟩, refused⟩
    · rintro ⟨earlier, last, later, mid, split, accepted, refused⟩
      cases earlier with
      | nil =>
        obtain ⟨rfl, rfl⟩ := List.cons.inj split
        obtain rfl : mid = own := accepted
        rw [refused]
      | cons first earlier =>
        obtain ⟨rfl, rfl⟩ := List.cons.inj split
        obtain ⟨own', told, accepted⟩ := accepted
        rw [told]
        exact ih.mpr ⟨earlier, last, later, mid, rfl, accepted, refused⟩

/-- The listener leaves the store alone, and answers as it would without a tracer. -/
def Apart (l : Listener K S) : Prop :=
  ∀ host c stage, Ends (l.react host c) stage fun r after =>
    SameState stage.shadow after.shadow ∧ (r, after.own) = l.answer host c stage.own

end Listener

open Listener

theorem Shadow.SameState.trans {s t u : Shadow K} (h : SameState s t) (h' : SameState t u) :
    SameState s u := ⟨h'.1.trans h.1, h'.2.trans h.2⟩

/-- A listener that accepts makes way for the next, one that refuses ends the checkpoint. -/
theorem Pipeline.ends_tellAll {listeners : List (Listener K S)}
    (apart : ∀ l ∈ listeners, l.Apart) (host : Host K) (c : Checkpoint K) (stage : Stage K S) :
    Ends (listeners.forM (tell host c)) stage fun r after =>
      SameState stage.shadow after.shadow ∧ (r, after.own) = answers host c listeners stage.own := by
  induction listeners generalizing stage with
  | nil => exact ⟨.refl _, rfl⟩
  | cons l rest ih =>
    change Ends (tell host c l >>= fun _ => rest.forM (tell host c)) stage _
    unfold tell
    rw [ends_bind, ends_tryCatch]
    refine (apart l List.mem_cons_self host c stage).mono ?_
    rintro (fault | _) mid ⟨same, answered⟩
    · -- the refusal is logged and handed on
      dsimp only
      unfold answers
      rw [← answered]
      exact ⟨same, rfl⟩
    · refine (ih (fun l mem => apart l (List.mem_cons_of_mem _ mem)) mid).mono ?_
      rintro r after ⟨same', answered'⟩
      refine ⟨same.trans same', ?_⟩
      unfold answers
      rw [← answered]
      exact answered'

theorem Listener.OfProgram.apart {l : Listener K S} (h : l.OfProgram) : l.Apart := by
  induction h with
  | own name react => exact fun host c stage => ⟨.refl _, rfl⟩
  | checkpointLog => exact fun host c stage => ⟨⟨rfl, rfl⟩, rfl⟩
  | pipeline p each ih =>
    intro host c stage
    refine (Pipeline.ends_tellAll ih host c stage).mono fun r after told => ⟨told.1, ?_⟩
    exact told.2.trans (Pipeline.ends_tellAll ih host c ⟨{}, stage.own⟩).2.symm

namespace Session

/-- The stage after a session has been told of some checkpoints; the host goes on after refusals. -/
def afterAll (session : Session K S) (stage : Stage K S) (told : List (Host K × Checkpoint K)) :
    Stage K S :=
  told.foldl (fun stage (host, c) => ((session.react host c).run.run stage).2) stage

variable {listeners : List (Listener K S)}

/-- The tracer is asked first, and if it accepts, the program's listeners are. -/
theorem ends_tracerFirst (apart : ∀ l ∈ listeners, l.Apart) (tracer tracer' : Tracer)
    {bare : Shadow K} {stage : Stage K S} (same : SameState bare stage.shadow) :
    Ends ((Listener.ofTracer tracer' :: listeners).forM (Pipeline.tell host c)) stage fun r after =>
      SameState ((tracer.react host c).run.run bare).2 after.shadow ∧
        (r, after.own) = match ((tracer.react host c).run.run bare).1 with
          | .ok _ => answers host c listeners stage.own
          | .error fault => (.error fault, stage.own) := by
  obtain ⟨outcome, after⟩ : LogBlind bare stage.shadow (tracer.react host c) (tracer'.react host c) :=
    Tracer.twin_react tracer tracer' c same
  change Ends (Pipeline.tell host c (.ofTracer tracer') >>= fun _ =>
    listeners.forM (Pipeline.tell host c)) stage _
  unfold Pipeline.tell
  rw [ends_bind, ends_tryCatch]
  rcases ran : (tracer'.react host c).run.run stage.shadow with ⟨r, shadow⟩
  rw [ran] at outcome after
  rw [outcome]
  have asked : ((Listener.ofTracer tracer').react host c).run.run stage =
      (r, { stage with shadow }) := by
    change StageM.onShadow (tracer'.react host c) stage = _
    unfold StageM.onShadow
    rw [ran]
  refine .of_run asked ?_
  cases r with
  | error fault => exact ⟨after, rfl⟩
  | ok _ =>
    refine (Pipeline.ends_tellAll apart host c { stage with shadow }).mono ?_
    exact fun r last told => ⟨after.trans told.1, told.2⟩

/-- Logging the checkpoint and the span around it leave no trace in the shadow state. -/
theorem ends_react (id : SessionId) (settings : Settings) (logCheckpoints : Bool)
    (apart : ∀ l ∈ listeners, l.Apart) (tracer : Tracer) {bare : Shadow K} {stage : Stage K S}
    (same : SameState bare stage.shadow) :
    Ends ((ofListeners id settings logCheckpoints ⟨listeners⟩).react host c) stage fun r after =>
      SameState ((tracer.react host c).run.run bare).2 after.shadow ∧
        (r, after.own) = match ((tracer.react host c).run.run bare).1 with
          | .ok _ => answers host c listeners stage.own
          | .error fault => (.error fault, stage.own) := by
  suffices inside : ∀ stage : Stage K S, SameState bare stage.shadow →
      Ends ((ofListeners id settings logCheckpoints ⟨listeners⟩).pipeline.react host c) stage
        fun r after => SameState ((tracer.react host c).run.run bare).2 after.shadow ∧
          (r, after.own) = match ((tracer.react host c).run.run bare).1 with
            | .ok _ => answers host c listeners stage.own
            | .error fault => (.error fault, stage.own) from
    inside { stage with shadow := { stage.shadow with
      log := stage.shadow.log.enterSpan (spanOf c) } } same
  intro stage same
  cases logCheckpoints with
  | false => exact ends_tracerFirst apart tracer (Session.tracer settings) same
  | true =>
    change Ends (Pipeline.tell host c .checkpointLog >>= fun _ =>
      (Listener.ofTracer (Session.tracer settings) :: listeners).forM (Pipeline.tell host c)) stage _
    rw [ends_bind]
    exact ends_tracerFirst apart tracer (Session.tracer settings) same

/-- Throughout, the shadow state of a session is that of the tracer alone. -/
theorem shadow_afterAll (id : SessionId) (settings : Settings) (logCheckpoints : Bool)
    (apart : ∀ l ∈ listeners, l.Apart) (tracer : Tracer) (bare : Shadow K) (stage : Stage K S)
    (same : SameState bare stage.shadow) (told : List (Host K × Checkpoint K)) :
    SameState (bare.afterAll tracer (told.map fun (host, c) => .checkpoint host c))
      ((ofListeners id settings logCheckpoints ⟨listeners⟩).afterAll stage told).shadow := by
  induction told generalizing bare stage with
  | nil => exact same
  | cons first rest ih =>
    obtain ⟨host, c⟩ := first
    exact ih _ _ (ends_react id settings logCheckpoints apart tracer same).1

/-- Whatever the listeners of a program do, and whatever is logged, a session has the shadow state of
    a tracer that is told of the same checkpoints alone. The session answers what the tracer answers
    if that refuses, and then none of the program's listeners is told; it answers with the refusal of
    the first of them that refuses, and then the later ones are not told; and otherwise it accepts. -/
theorem follows_tracer (id : SessionId) (settings : Settings) (logCheckpoints : Bool)
    {listeners : List (Listener K S)} (ofProgram : ∀ l ∈ listeners, l.OfProgram) (tracer : Tracer)
    (shadow : Shadow K) (log : Log) (own : S) (told : List (Host K × Checkpoint K)) (host : Host K)
    (c : Checkpoint K) :
    let session := ofListeners id settings logCheckpoints ⟨listeners⟩
    let stage := session.afterAll ⟨session.start shadow, own⟩ told
    let bare := (⟨.ofInterval settings.sweepInterval, shadow.nextSeq, log⟩ : Shadow K).afterAll tracer
      (told.map fun (host, c) => .checkpoint host c)
    SameState bare stage.shadow ∧
      SameState ((tracer.react host c).run.run bare).2
        ((session.react host c).run.run stage).2.shadow ∧
      let answer := ((session.react host c).run.run stage).1
      let after := ((session.react host c).run.run stage).2.own
      match ((tracer.react host c).run.run bare).1 with
      | .error fault => answer = .error fault ∧ after = stage.own
      | .ok _ =>
          (∃ earlier l later mid fault, listeners = earlier ++ l :: later ∧
            Accept host c earlier stage.own mid ∧ l.answer host c mid = (.error fault, after) ∧
            answer = .error fault) ∨
          Accept host c listeners stage.own after ∧ answer = .ok () := by
  intro session stage bare
  have apart : ∀ l ∈ listeners, l.Apart := fun l mem => (ofProgram l mem).apart
  have started : SameState (⟨.ofInterval settings.sweepInterval, shadow.nextSeq, log⟩ : Shadow K)
      (session.start shadow) := ⟨rfl, rfl⟩
  have same : SameState bare stage.shadow :=
    shadow_afterAll id settings logCheckpoints apart tracer _ ⟨session.start shadow, own⟩ started told
  obtain ⟨after, answered⟩ : SameState ((tracer.react host c).run.run bare).2 _ ∧ _ :=
    ends_react id settings logCheckpoints apart tracer same
  refine ⟨same, after, ?_⟩
  dsimp only
  cases outcome : ((tracer.react host c).run.run bare).1 with
  | error fault =>
    rw [outcome] at answered
    exact Prod.mk.inj answered
  | ok _ =>
    rw [outcome] at answered
    dsimp only at answered ⊢
    cases answer : ((session.react host c).run.run stage).1 with
    | error fault =>
      rw [answer] at answered
      obtain ⟨earlier, l, later, mid, split, accepted, refused⟩ :=
        answers_eq_error_iff.mp answered.symm
      exact .inl ⟨earlier, l, later, mid, fault, split, accepted, refused, rfl⟩
    | ok _ =>
      rw [answer] at answered
      exact .inr ⟨answers_eq_ok_iff.mp answered.symm, rfl⟩

/-! Of two recorders the first refuses every entry. The tracer has pushed the record of the entered
frame before the refusal, and the second recorder has not been told. -/

namespace RefusedEntry

/-- Frames, objects, scopes and values are numbers. -/
abbrev numbers : Kinds where
  Frame := Nat
  Object := Nat
  Scope := Nat
  Value := Nat
  inspect := toString

def interpreter : Host numbers where
  callerOf _ := none
  argumentCount _ := 0
  objectOf _ := none
  survivors _ := ⟨fun _ => true, fun _ => true, fun _ => true⟩

def entry : Checkpoint numbers :=
  ⟨{ id := ⟨1⟩, label := "main", categories := .single .functionBoundary }, 0, .enter⟩

def refusing : Recorder := { number := 1, name := "first", refuses := [.enter] }

def recorders : List (Listener numbers Journal) :=
  [refusing.listener, Recorder.listener { number := 2, name := "second" }]

def session : Session numbers Journal := ofListeners ⟨0⟩ {} true ⟨recorders⟩

theorem recorders_ofProgram : ∀ l ∈ recorders, l.OfProgram := by
  simp only [recorders, List.mem_cons, List.not_mem_nil, or_false]
  rintro l (rfl | rfl) <;> exact .own _ _

theorem follows_tracer_refused :
    let (answer, after) := (session.react interpreter entry).run.run ⟨session.start {}, {}⟩
    answer = .error (.violation (.reported "first rejected")) ∧
      SameState (Shadow.afterAll {} ⟨.ofInterval 1024, 1, {}⟩ [.checkpoint interpreter entry])
        after.shadow ∧
      after.shadow.store.frames.bindings.size = 1 ∧
      after.own.counts.getD 1 0 = 1 ∧ after.own.counts.getD 2 0 = 0 := by
  obtain ⟨-, after, -⟩ :=
    follows_tracer ⟨0⟩ {} true recorders_ofProgram {} ({} : Shadow numbers) {} {} [] interpreter entry
  exact ⟨rfl, after, rfl, rfl, rfl⟩

end RefusedEntry

end Session

end Lineage
