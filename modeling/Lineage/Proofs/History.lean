import Lineage.Proofs.Accesses

/-!
# What the tracer has been through

A tracer is told of checkpoints, and in between its store is swept or a frame is released. The rules
applied at a checkpoint, up to the first that fails, are taken as steps of their own: `steps` lists
them in order, each with the states before and after it.
-/

namespace Lineage

open Tracer

variable {K : Kinds}

/-- Something that happens to the shadow state of a tracer. -/
inductive Act (K : Kinds) where
  | checkpoint (host : Host K) (checkpoint : Checkpoint K)
  | sweep (host : Host K)
  /-- The host gives up a frame. -/
  | release (frame : K.Frame)

namespace Shadow

/-- The state without the record of a frame. -/
def release (s : Shadow K) (frame : K.Frame) : Shadow K :=
  { s with store := { s.store with frames := (s.store.frames.remove frame).2 } }

end Shadow

namespace Act

/-- The state after an act; a refused checkpoint leaves what was done before the refusal. -/
def after (tracer : Tracer) (s : Shadow K) : Act K → Shadow K
  | checkpoint host c => ((tracer.react host c).run.run s).2
  | sweep host => (s.sweep host).2
  | release frame => s.release frame

end Act

/-- The state after some acts. -/
def Shadow.afterAll (tracer : Tracer) (s : Shadow K) (acts : List (Act K)) : Shadow K :=
  acts.foldl (Act.after tracer) s

theorem Shadow.afterAll_append {tracer : Tracer} {s : Shadow K} (acts more : List (Act K)) :
    s.afterAll tracer (acts ++ more) = (s.afterAll tracer acts).afterAll tracer more :=
  List.foldl_append

/-- What is done in one step. -/
inductive Deed (K : Kinds) where
  /-- The rule of one category of the site. -/
  | rule (host : Host K) (checkpoint : Checkpoint K) (category : Category)
  | sweep (host : Host K)
  | release (frame : K.Frame)

structure Step (K : Kinds) where
  deed : Deed K
  before : Shadow K
  /-- The rule has not failed. -/
  done : Bool
  after : Shadow K

/-- The rule of one category at a checkpoint. -/
def Tracer.rule (tracer : Tracer) (host : Host K) (c : Checkpoint K) (category : Category) :
    ShadowM K Unit :=
  match c.moment with
  | .enter => applyEnter host c.site c.frame category
  | .leave value => applyLeave tracer host c.site c.frame value category
  | .unwind exception => applyUnwind host c.site c.frame exception category

/-- The state at a checkpoint when its rules begin. -/
def Tracer.noted (s : Shadow K) (c : Checkpoint K) : Shadow K :=
  match c.moment with
  | .enter => s.note .trace "router enter" (Checkpoint.siteFields c.site)
  | .leave value => s.note .trace "router return"
      (Checkpoint.siteFields c.site ++ [("value", K.inspect value)])
  | .unwind exception => s.note .trace "router unwind"
      (Checkpoint.siteFields c.site ++ [("exception", exception)])

theorem Tracer.sameState_noted (s : Shadow K) (c : Checkpoint K) : s.SameState (noted s c) := by
  unfold noted
  cases c.moment <;> exact ⟨rfl, rfl⟩

/-- The rules of some categories in order, up to the first that fails. -/
def Tracer.ruleSteps (tracer : Tracer) (host : Host K) (c : Checkpoint K) :
    List Category → Shadow K → List (Step K)
  | [], _ => []
  | category :: rest, s =>
      match (tracer.rule host c category).run.run s with
      | (.ok _, t) =>
          ⟨.rule host c category, s, true, t⟩ :: tracer.ruleSteps host c rest t
      | (.error _, t) => [⟨.rule host c category, s, false, t⟩]

section RuleSteps

variable {tracer : Tracer} {host : Host K} {c : Checkpoint K} {category : Category} {s t : Shadow K}

theorem Tracer.ruleSteps_accepted {accepted : Unit}
    (ran : (tracer.rule host c category).run.run s = (.ok accepted, t)) (rest : List Category) :
    tracer.ruleSteps host c (category :: rest) s =
      ⟨.rule host c category, s, true, t⟩ :: tracer.ruleSteps host c rest t := by
  rw [ruleSteps, ran]

theorem Tracer.ruleSteps_refused {fault : Fault}
    (ran : (tracer.rule host c category).run.run s = (.error fault, t)) (rest : List Category) :
    tracer.ruleSteps host c (category :: rest) s = [⟨.rule host c category, s, false, t⟩] := by
  rw [ruleSteps, ran]

end RuleSteps

def Act.steps (tracer : Tracer) (s : Shadow K) : Act K → List (Step K)
  | checkpoint host c => tracer.ruleSteps host c c.site.categories.toList (noted s c)
  | sweep host => [⟨.sweep host, s, true, (s.sweep host).2⟩]
  | release frame => [⟨.release frame, s, true, s.release frame⟩]

/-- All steps of some acts in order. -/
def Shadow.steps (tracer : Tracer) (s : Shadow K) : List (Act K) → List (Step K)
  | [] => []
  | act :: rest => act.steps tracer s ++ steps tracer (act.after tracer s) rest

/-- What has been done in the step is part of this act. -/
def Step.act (step : Step K) : Act K :=
  match step.deed with
  | .rule host c _ => .checkpoint host c
  | .sweep host => .sweep host
  | .release frame => .release frame

theorem Tracer.act_ruleSteps {tracer : Tracer} {host : Host K} {c : Checkpoint K}
    {categories : List Category} {s : Shadow K} {step : Step K}
    (mem : step ∈ tracer.ruleSteps host c categories s) : step.act = .checkpoint host c := by
  induction categories generalizing s with
  | nil => cases mem
  | cons category rest ih =>
    rcases ran : (tracer.rule host c category).run.run s with ⟨fault | _, t⟩
    · rw [ruleSteps_refused ran] at mem
      rw [List.mem_singleton.mp mem]
      rfl
    · rw [ruleSteps_accepted ran] at mem
      rcases List.mem_cons.mp mem with rfl | mem
      · rfl
      · exact ih mem

theorem Act.act_steps {tracer : Tracer} {s : Shadow K} {act : Act K} {step : Step K}
    (mem : step ∈ act.steps tracer s) : step.act = act := by
  cases act with
  | checkpoint host c => exact Tracer.act_ruleSteps mem
  | sweep host =>
    rw [List.mem_singleton.mp mem]
    rfl
  | release frame =>
    rw [List.mem_singleton.mp mem]
    rfl

theorem Shadow.act_of_steps {tracer : Tracer} {acts : List (Act K)} {s : Shadow K} {step : Step K}
    (mem : step ∈ s.steps tracer acts) : step.act ∈ acts := by
  induction acts generalizing s with
  | nil => cases mem
  | cons act rest ih =>
    unfold steps at mem
    rcases List.mem_append.mp mem with mem | mem
    · rw [Act.act_steps mem]
      exact List.mem_cons_self
    · exact List.mem_cons_of_mem _ (ih mem)

/-- The step comes to what its deed comes to. -/
def Step.Valid (tracer : Tracer) (step : Step K) : Prop :=
  match step.deed with
  | .rule host c category =>
      step.after = ((tracer.rule host c category).run.run step.before).2 ∧
      step.done = ((tracer.rule host c category).run.run step.before).1.isOk
  | .sweep host => step.done = true ∧ step.after = (step.before.sweep host).2
  | .release frame => step.done = true ∧ step.after = step.before.release frame

theorem Step.valid_rule {tracer : Tracer} {host : Host K} {c : Checkpoint K} {category : Category}
    {s t : Shadow K} {outcome : Except Fault Unit}
    (ran : (tracer.rule host c category).run.run s = (outcome, t)) :
    (⟨.rule host c category, s, outcome.isOk, t⟩ : Step K).Valid tracer :=
  ⟨(congrArg Prod.snd ran).symm, (congrArg (·.1.isOk) ran).symm⟩

/-! ### Induction over steps -/

variable {tracer : Tracer} {P : List (Step K) → Shadow K → Prop}

/-- Each step is valid, and `P` holds of the steps before it and of the state that it starts from. -/
def Step.Along (tracer : Tracer) (P : List (Step K) → Shadow K → Prop) :
    List (Step K) → List (Step K) → Prop
  | _, [] => True
  | past, step :: rest =>
      step.Valid tracer ∧ P past step.before ∧ Along tracer P (past ++ [step]) rest

theorem Step.Along.append {past first second : List (Step K)} (h : Along tracer P past first)
    (h' : Along tracer P (past ++ first) second) : Along tracer P past (first ++ second) := by
  induction first generalizing past with
  | nil => rwa [List.append_nil] at h'
  | cons step rest ih =>
    obtain ⟨valid, before, along⟩ := h
    refine ⟨valid, before, ih along ?_⟩
    rwa [List.append_assoc]

theorem Step.Along.split {past earlier later : List (Step K)} {step : Step K}
    (h : Along tracer P past (earlier ++ step :: later)) :
    step.Valid tracer ∧ P (past ++ earlier) step.before := by
  induction earlier generalizing past with
  | nil =>
    rw [List.append_nil]
    exact ⟨h.1, h.2.1⟩
  | cons first rest ih =>
    have rest' := ih h.2.2
    rwa [List.append_assoc] at rest'

theorem Tracer.run_react (host : Host K) (c : Checkpoint K) (s : Shadow K) :
    (tracer.react host c).run.run s = (c.site.categories.toList.forM fun category =>
      ExceptT.adapt (·.atSite c.site.id) (tracer.rule host c category)).run.run (noted s c) := by
  obtain ⟨site, frame, moment⟩ := c
  cases moment <;> rfl

section Induction

variable (same : ∀ past s t, Shadow.SameState s t → P past s → P past t)
  (next : ∀ past step, step.Valid tracer → P past step.before → P (past ++ [step]) step.after)

include next

theorem Tracer.along_rules (host : Host K) (c : Checkpoint K) (categories : List Category)
    (past : List (Step K)) (s : Shadow K) (start : P past s) :
    Step.Along tracer P past (tracer.ruleSteps host c categories s) ∧
      P (past ++ tracer.ruleSteps host c categories s) ((categories.forM fun category =>
        ExceptT.adapt (·.atSite c.site.id) (tracer.rule host c category)).run.run s).2 := by
  induction categories generalizing past s with
  | nil =>
    rw [ruleSteps, List.append_nil]
    exact ⟨trivial, start⟩
  | cons category rest ih =>
    have run := run_bind (ExceptT.adapt (·.atSite c.site.id) (tracer.rule host c category))
      (fun _ => rest.forM fun category =>
        ExceptT.adapt (·.atSite c.site.id) (tracer.rule host c category)) s
    change ((category :: rest).forM fun category =>
      ExceptT.adapt (·.atSite c.site.id) (tracer.rule host c category)).run.run s = _ at run
    have adapted : ((ExceptT.adapt (·.atSite c.site.id) (tracer.rule host c category) :
        ShadowM K Unit).run.run s) = (((tracer.rule host c category).run.run s).1.mapError
          (·.atSite c.site.id), ((tracer.rule host c category).run.run s).2) := rfl
    rw [run, adapted]
    rcases ran : (tracer.rule host c category).run.run s with ⟨fault | _, t⟩
    · have valid := Step.valid_rule ran
      rw [ruleSteps_refused ran]
      exact ⟨⟨valid, start, trivial⟩, next past _ valid start⟩
    · have valid := Step.valid_rule ran
      rw [ruleSteps_accepted ran]
      obtain ⟨along, final⟩ := ih _ t (next past _ valid start)
      refine ⟨⟨valid, start, along⟩, ?_⟩
      rwa [List.append_assoc] at final

include same

theorem Act.along (act : Act K) (past : List (Step K)) (s : Shadow K) (start : P past s) :
    Step.Along tracer P past (act.steps tracer s) ∧
      P (past ++ act.steps tracer s) (act.after tracer s) := by
  cases act with
  | checkpoint host c =>
    unfold steps after
    dsimp only
    rw [run_react]
    exact Tracer.along_rules next host c _ past _ (same past s _ (sameState_noted s c) start)
  | sweep host =>
    have valid : (⟨.sweep host, s, true, (s.sweep host).2⟩ : Step K).Valid tracer := ⟨rfl, rfl⟩
    exact ⟨⟨valid, start, trivial⟩, next past _ valid start⟩
  | release frame =>
    have valid : (⟨.release frame, s, true, s.release frame⟩ : Step K).Valid tracer := ⟨rfl, rfl⟩
    exact ⟨⟨valid, start, trivial⟩, next past _ valid start⟩

/-- What holds at the beginning, is no matter of the log, and is kept by every step together with the
    steps so far, holds throughout. -/
theorem Shadow.along (acts : List (Act K)) (past : List (Step K)) (s : Shadow K)
    (start : P past s) :
    Step.Along tracer P past (s.steps tracer acts) ∧
      P (past ++ s.steps tracer acts) (s.afterAll tracer acts) := by
  induction acts generalizing past s with
  | nil =>
    unfold steps
    rw [List.append_nil]
    exact ⟨trivial, start⟩
  | cons act rest ih =>
    obtain ⟨along, middle⟩ := act.along same next past s start
    obtain ⟨along', final⟩ := ih _ _ middle
    unfold steps
    refine ⟨along.append along', ?_⟩
    rwa [List.append_assoc] at final

end Induction

/-! ### What every step keeps -/

/-- What a step has done to the slots. -/
def Step.access (step : Step K) : Access K :=
  match step.deed with
  | .sweep _ => .nothing
  | .release frame => .resets frame
  | .rule host c category =>
      if step.done then
        match c.moment with
        | .enter => if category = .functionBoundary then .resets c.frame else .nothing
        | .leave _ => accessOf host c.site c.frame category step.after
        | .unwind _ => .nothing
      else .nothing

/-- The effect of a step. -/
def Step.Effect (step : Step K) : Prop :=
  match step.deed with
  | .rule host c _ => Tracer.Effect host c.site c.frame (match c.moment with
      | .leave value => some value
      | _ => none) step.access step.before step.after
  | .sweep host => Shadow.Moves host {} (fun _ => False) step.before step.after
  | .release frame => ∀ host, Shadow.Moves host { frame := some frame } step.access.Touches
      step.before step.after ∧ step.access.Done step.before step.after

open Shadow

section Sweep

variable (host : Host K) (s : Shadow K)

theorem Shadow.nodes_sweep : (s.sweep host).2.store.nodes ⊆ s.store.nodes :=
  nodes_subset (Table.contents_sweep _ _) (Table.contents_sweep _ _) (Table.contents_sweep _ _) rfl

/-- A sweep drops the records of frames without an owner. When it finds that, the store may have given up
    nodes, but none that the sweep leaves. -/
theorem Shadow.record?_sweep (f : K.Frame) : (s.sweep host).2.record? f = s.record? f ∨
    (s.sweep host).2.record? f = none ∧ ∃ kept, kept ⊆ s.store.nodes ∧
      (s.sweep host).2.store.nodes ⊆ kept ∧ (host.survivors kept).frame f = false := by
  refine (Table.content?_sweep s.store.frames (s.store.sweepingFrames host []) f).imp_right ?_
  rintro ⟨gone, between, after, before, dead⟩
  exact ⟨gone, Store.nodes { s.store with frames := between },
    nodes_subset before (List.Subset.refl _) (List.Subset.refl _) rfl,
    nodes_subset after (Table.contents_sweep _ _) (Table.contents_sweep _ _) rfl, dead⟩

/-- A sweep drops the slots of objects without an owner. -/
theorem Shadow.object_sweep (o : K.Object) :
    (s.sweep host).2.store.objects.content? o = s.store.objects.content? o ∨
      (s.sweep host).2.store.objects.content? o = none ∧ ∃ kept, kept ⊆ s.store.nodes ∧
        (s.sweep host).2.store.nodes ⊆ kept ∧ (host.survivors kept).object o = false := by
  let frameless := (s.store.sweepFrames host).2
  refine (Table.content?_sweep frameless.objects (frameless.sweepingObjects host []) o).imp_right ?_
  rintro ⟨gone, between, after, before, dead⟩
  exact ⟨gone, Store.nodes { frameless with objects := between },
    nodes_subset (Table.contents_sweep _ _) before (List.Subset.refl _) rfl,
    nodes_subset (List.Subset.refl _) after (Table.contents_sweep _ _) rfl, dead⟩

/-- A sweep drops the slots of scopes without an owner. -/
theorem Shadow.scope_sweep (c : K.Scope) :
    (s.sweep host).2.store.scopes.content? c = s.store.scopes.content? c ∨
      (s.sweep host).2.store.scopes.content? c = none ∧ ∃ kept, kept ⊆ s.store.nodes ∧
        (s.sweep host).2.store.nodes ⊆ kept ∧ (host.survivors kept).scope c = false := by
  let objectless := ((s.store.sweepFrames host).2.sweepObjects host).2
  refine (Table.content?_sweep objectless.scopes (objectless.sweepingScopes host []) c).imp_right ?_
  rintro ⟨gone, between, after, before, dead⟩
  exact ⟨gone, Store.nodes { objectless with scopes := between },
    nodes_subset (Table.contents_sweep _ _) (Table.contents_sweep _ _) before rfl,
    nodes_subset (List.Subset.refl _) (List.Subset.refl _) after rfl, dead⟩

end Sweep

theorem Shadow.moves_sweep (host : Host K) {s : Shadow K} (sane : s.Unpoisoned) :
    Moves host {} (fun _ => False) s (s.sweep host).2 := by
  constructor
  · exact ⟨Table.unpoisoned_sweep sane.frames _, Table.unpoisoned_sweep sane.objects _,
      Table.unpoisoned_sweep sane.scopes _⟩
  · exact fun f _ => (s.record?_sweep host f).imp (congrArg _) fun ⟨gone, _, _, _, dead⟩ =>
      ⟨gone, _, dead⟩
  · exact fun o _ => (s.object_sweep host o).imp_right fun ⟨gone, _, _, _, dead⟩ => ⟨gone, _, dead⟩
  · exact fun c _ => (s.scope_sweep host c).imp_right fun ⟨gone, _, _, _, dead⟩ => ⟨gone, _, dead⟩
  · intro x near _
    cases x with
    | global name => rfl
    | frameLocal _ _ => cases near
    | property _ _ => cases near
    | classVariable _ _ => cases near
  · exact fun node mem => Reach.known_of_mem (s.nodes_sweep host mem)
  · intro o held before after node mem
    refine .inr fun behind => ?_
    rcases s.object_sweep host o with same | ⟨-, kept, -, left, dead⟩
    · exact before (same.symm.trans after)
    · exact Bool.false_ne_true (dead.symm.trans (held kept node (left mem) behind))

theorem Shadow.moves_release (host : Host K) {s : Shadow K} (sane : s.Unpoisoned) (frame : K.Frame) :
    Moves host { frame := some frame } (Access.resets frame).Touches s (s.release frame) ∧
      (Access.resets frame).Done s (s.release frame) := by
  have left : (s.release frame).store.nodes ⊆ s.store.nodes :=
    nodes_subset (Table.contents_remove _ _) (List.Subset.refl _) (List.Subset.refl _) rfl
  refine ⟨?_, fun name => ?_⟩
  · constructor
    · exact ⟨Table.unpoisoned_remove sane.frames frame, sane.objects, sane.scopes⟩
    · intro f far
      have ne : frame ≠ f := fun same => far (congrArg some same)
      refine .inl (congrArg (Option.map _) ?_)
      change ((s.store.frames.remove frame).2.find? f).map _ = _
      rw [Table.find?_remove, if_neg ne]
      rfl
    · exact fun _ _ => .inl rfl
    · exact fun _ _ => .inl rfl
    · intro x near untouched
      cases x with
      | global name => rfl
      | frameLocal f _ => exact absurd (Option.some.inj near).symm untouched
      | property _ _ => cases near
      | classVariable _ _ => cases near
    · exact fun node mem => Reach.known_of_mem (left mem)
    · exact fun o _ before after => absurd after before
  · have gone : (s.release frame).record? frame = none := by
      change ((s.store.frames.remove frame).2.find? frame).map _ = none
      rw [Table.find?_remove, if_pos rfl]
      rfl
    rw [current, recordOf, gone]
    rfl

/-- Every step has the effect that can be told from it. -/
theorem Step.effect {step : Step K} (valid : step.Valid tracer) (sane : step.before.Unpoisoned) :
    step.Effect := by
  obtain ⟨deed, before, done, after⟩ := step
  cases deed with
  | sweep host =>
    simp only [Valid] at valid
    obtain ⟨-, rfl⟩ := valid
    exact moves_sweep host sane
  | release frame =>
    simp only [Valid] at valid
    obtain ⟨-, rfl⟩ := valid
    exact fun host => moves_release host sane frame
  | rule host c category =>
    obtain ⟨site, frame, moment⟩ := c
    simp only [Valid] at valid
    rcases run : (tracer.rule host ⟨site, frame, moment⟩ category).run.run before with ⟨r, t⟩
    rw [run] at valid
    obtain ⟨rfl, rfl⟩ := valid
    have ended : ∀ {post : Except Fault Unit → Shadow K → Prop},
        Ends (tracer.rule host ⟨site, frame, moment⟩ category) before post → post r after := by
      intro post ends
      rwa [Ends, run] at ends
    unfold Effect access
    cases moment with
    | enter =>
      obtain ⟨rfl, effect⟩ := ended (effect_enter sane category)
      exact effect
    | unwind exception =>
      dsimp only
      rw [ite_self]
      exact ended (effect_unwind sane exception category)
    | leave value =>
      have effect := ended (effect_leave sane category)
      cases r <;> exact effect

/-! ### Frames with a record -/

/-- A host that calls nothing and lets nothing go. -/
def Host.still (K : Kinds) : Host K where
  callerOf _ := none
  argumentCount _ := 0
  objectOf _ := none
  survivors _ := ⟨fun _ => true, fun _ => true, fun _ => true⟩

/-- The frame at whose checkpoint the step is taken. -/
def Step.frame? (step : Step K) : Option K.Frame :=
  match step.deed with
  | .rule _ c _ => some c.frame
  | _ => none

/-- What a step keeps, whatever it does. -/
theorem Step.keeps {step : Step K} (valid : step.Valid tracer) (sane : step.before.Unpoisoned) :
    step.after.Unpoisoned ∧ ∀ f, step.after.record? f ≠ none →
      step.before.record? f ≠ none ∨ step.frame? = some f := by
  have of_moves : ∀ {host : Host K} {reach : Reach K} {touched : Slot K → Prop},
      Moves host reach touched step.before step.after →
      (∀ f, reach.frame = some f → step.frame? = some f ∨ step.after.record? f = none) →
      step.after.Unpoisoned ∧ ∀ f, step.after.record? f ≠ none →
        step.before.record? f ≠ none ∨ step.frame? = some f := by
    intro host reach touched moves own
    refine ⟨moves.sane, fun f there => ?_⟩
    by_cases near : reach.frame = some f
    · exact (own f near).elim .inr fun gone => absurd gone there
    · rcases moves.frames f near with same | ⟨gone, -⟩
      · refine .inl fun absent => there ?_
        rw [absent] at same
        exact Option.map_eq_none_iff.mp same
      · exact absurd gone there
  have effect := Step.effect valid sane
  obtain ⟨deed, before, done, after⟩ := step
  cases deed with
  | sweep host => exact of_moves effect nofun
  | release frame =>
    simp only [Valid] at valid
    obtain ⟨-, rfl⟩ := valid
    refine of_moves (effect (.still K)).1 ?_
    rintro f ⟨⟩
    refine .inr ?_
    change ((before.store.frames.remove frame).2.find? frame).map _ = none
    rw [Table.find?_remove, if_pos rfl]
    rfl
  | rule host c category =>
    obtain ⟨reach, -, frames, -, -, moves, -⟩ := effect
    exact of_moves moves fun f own => .inl (congrArg some (frames f own).symm)

theorem Shadow.checkpoint_of_steps {acts : List (Act K)} {s : Shadow K} {step : Step K}
    {f : K.Frame} (mem : step ∈ s.steps tracer acts) (own : step.frame? = some f) :
    ∃ host c, .checkpoint host c ∈ acts ∧ c.frame = f := by
  have inside := act_of_steps mem
  obtain ⟨deed, before, done, after⟩ := step
  cases deed with
  | rule host c category => exact ⟨host, c, inside, Option.some.inj own⟩
  | sweep host => cases own
  | release frame => cases own

/-- Whatever a tracer has been through, no lock is poisoned, and only frames of which it was told have
    a record. -/
theorem Shadow.afterAll_keeps (acts : List (Act K)) {s : Shadow K} (sane : s.Unpoisoned) :
    (s.afterAll tracer acts).Unpoisoned ∧ ∀ f, (s.afterAll tracer acts).record? f ≠ none →
      s.record? f ≠ none ∨ ∃ host c, .checkpoint host c ∈ acts ∧ c.frame = f := by
  have final : _ ∧ ∀ f, _ → _ ∨ ∃ step ∈ [] ++ s.steps tracer acts, _ := (Shadow.along
    (P := fun past t => t.Unpoisoned ∧ ∀ f, t.record? f ≠ none →
      s.record? f ≠ none ∨ ∃ step ∈ past, step.frame? = some f)
    (fun past t u same h => ⟨same.unpoisoned h.1, fun f => same.record?_eq f ▸ h.2 f⟩)
    (fun past step valid h => by
      obtain ⟨saneAfter, records⟩ := Step.keeps valid h.1
      refine ⟨saneAfter, fun f there => ?_⟩
      rcases records f there with before | own
      · exact (h.2 f before).imp_right fun ⟨old, mem, own⟩ =>
          ⟨old, List.mem_append_left _ mem, own⟩
      · exact .inr ⟨step, List.mem_append_right _ (List.mem_singleton.mpr rfl), own⟩)
    acts [] s ⟨sane, fun f there => .inl there⟩).2
  refine ⟨final.1, fun f there => (final.2 f there).imp_right ?_⟩
  rintro ⟨step, mem, own⟩
  exact checkpoint_of_steps mem own

/-- The state of a tracer that has not been told of anything. -/
theorem Shadow.unpoisoned_ofInterval (interval nextSeq : Nat) (log : Log) :
    (⟨.ofInterval interval, nextSeq, log⟩ : Shadow K).Unpoisoned := by
  constructor
  all_goals
    intro _ _ found
    cases found

theorem Shadow.record?_ofInterval (interval nextSeq : Nat) (log : Log) (f : K.Frame) :
    (⟨.ofInterval interval, nextSeq, log⟩ : Shadow K).record? f = none := rfl

end Lineage
