import Lineage.Proofs.Abreast

/-!
# Sweeping is invisible

How often the tables are swept, when the store is, and in which order a sweep comes to the entries makes
no difference to what the tracer answers, to the numbers of the nodes, to the globals, or to the entries
of anything that the host still holds. Two runs that differ in nothing else agree on every entry up to
those which one of them has dropped; the host has let go of these, no node refers to them any more, and a
host never comes back with what it has let go of: neither as a frame, an object or a scope that it shows
nor as the caller of a frame.
-/

namespace Lineage

open Tracer

variable {K : Kinds} {tracer : Tracer} {objectOf : K.Value → Option K.Object}

def Act.isSweep : Act K → Bool
  | sweep _ => true
  | _ => false

/-- The same act, where sweeps come to the entries in another order. -/
def Act.inOrder (order : SweepOrder K) : Act K → Act K
  | checkpoint host c => checkpoint (host.inOrder order) c
  | sweep host => sweep (host.inOrder order)
  | release frame => release frame

theorem Act.shows_inOrder {act : Act K} {handle : Handle K} (h : act.Shows objectOf handle)
    (order : SweepOrder K) : (act.inOrder order).Shows objectOf handle := by
  cases act <;> cases handle <;> exact h

/-- The checkpoints, and the frames given up, in whatever order entries are swept meanwhile. -/
def Act.besidesSweeps (acts : List (Act K)) : List (Act K) :=
  (acts.filter fun act => !act.isSweep).map (inOrder {})

/-- The frame of the checkpoint has been called from `g`. -/
def Act.Calls : Act K → K.Frame → Prop
  | checkpoint host c, g => host.callerOf c.frame = some g
  | _, _ => False

/-- Faithful hosts that keep a frame, once it has been shown, as long as they show frames called from
    it. -/
structure Steady (objectOf : K.Value → Option K.Object) (acts : List (Act K)) : Prop extends
    Faithful objectOf acts where
  callers : ∀ before act after host frame, acts = before ++ act :: after → act.host? = some host →
    Act.Shown objectOf (before ++ [act]) (.frame frame) →
    (∃ later ∈ act :: after, later.Calls frame) → ¬ host.MayDrop frame

theorem Steady.left {acts more : List (Act K)} (h : Steady objectOf (acts ++ more)) :
    Steady objectOf acts where
  toFaithful := h.toFaithful.left
  callers before act after host frame split told shown := by
    rintro ⟨later, mem, calls⟩
    refine h.callers before act (after ++ more) host frame (by rw [split, List.append_assoc]; rfl)
      told shown ⟨later, ?_, calls⟩
    exact List.mem_append_left more mem

/-- Hosts are steady if they let go of nothing that is shown at any time. -/
theorem Steady.of_kept {acts : List (Act K)}
    (same : ∀ act ∈ acts, ∀ host, act.host? = some host → host.objectOf = objectOf)
    (nodes : ∀ act ∈ acts, ∀ host, act.host? = some host → ∀ object,
      Act.Shown objectOf acts (.object object) → host.HeldByNodes object)
    (keeps : ∀ act ∈ acts, ∀ host, act.host? = some host → ∀ handle,
      Act.Shown objectOf acts handle → ¬ host.LetsGo handle) : Steady objectOf acts where
  toFaithful := .of_kept same nodes keeps
  callers before act after host frame split told shown _ := by
    subst split
    refine keeps act (by simp) host told (.frame frame) (shown.mono ?_)
    simp

/-- The host has let go of the entity at some act, after it had been shown. -/
def LetGoOf (objectOf : K.Value → Option K.Object) (acts : List (Act K)) (handle : Handle K) : Prop :=
  ∃ before act after host, acts = before ++ act :: after ∧ act.host? = some host ∧
    Act.Shown objectOf (before ++ [act]) handle ∧ host.LetsGo handle

section LetGoOf

variable {acts more : List (Act K)} {act : Act K} {handle : Handle K}

theorem LetGoOf.left (h : LetGoOf objectOf acts handle) (more : List (Act K)) :
    LetGoOf objectOf (acts ++ more) handle := by
  obtain ⟨before, act, after, host, rfl, rest⟩ := h
  exact ⟨before, act, after ++ more, host, by rw [List.append_assoc]; rfl, rest⟩

/-- The last act belongs to what comes after any act. -/
theorem mem_of_last {before after : List (Act K)} {act other : Act K}
    (split : acts ++ [act] = before ++ other :: after) : act ∈ other :: after := by
  have last := congrArg List.getLast? split
  rw [List.getLast?_concat, List.getLast?_append, List.getLast?_cons, Option.some_or] at last
  exact List.mem_of_getLast? (List.getLast?_cons.trans last.symm)

/-- What has been let go of is not shown. -/
theorem LetGoOf.not_shows (h : LetGoOf objectOf (acts ++ [act]) handle)
    (faithful : Faithful objectOf (acts ++ [act])) : ¬ act.Shows objectOf handle := by
  intro shows'
  obtain ⟨before, other, after, host, split, told, shown, letsGo⟩ := h
  exact faithful.keeps before other after host handle split told shown
    ⟨act, mem_of_last split, shows'⟩ letsGo

/-- What has been let go of calls nothing. -/
theorem LetGoOf.not_calls {g : K.Frame} (h : LetGoOf objectOf (acts ++ [act]) (.frame g))
    (steady : Steady objectOf (acts ++ [act])) : ¬ act.Calls g := by
  intro calls
  obtain ⟨before, other, after, host, split, told, shown, letsGo⟩ := h
  exact steady.callers before other after host g split told shown
    ⟨act, mem_of_last split, calls⟩ letsGo

theorem shown_last (shows' : act.Shows objectOf handle) :
    Act.Shown objectOf (acts ++ [act]) handle :=
  ⟨act, List.mem_append_right _ (List.mem_singleton.mpr rfl), shows'⟩

/-- What is shown at an act is not let go of there. -/
theorem Faithful.held (faithful : Faithful objectOf (acts ++ [act])) {host : Host K}
    (told : act.host? = some host) (shows' : act.Shows objectOf handle) : ¬ host.LetsGo handle :=
  faithful.keeps acts act [] host handle rfl told (shown_last shows')
    ⟨act, List.mem_singleton.mpr rfl, shows'⟩

end LetGoOf

/-! ### What one run knows -/

/-- All that the state has entries for or refers to has been shown. -/
structure Known (objectOf : K.Value → Option K.Object) (acts : List (Act K)) (s : Shadow K) : Prop where
  sane : s.Unpoisoned
  entries : ∀ handle : Handle K, ¬ handle.Dropped s → Act.Shown objectOf acts handle
  objects : ∀ node ∈ s.store.nodes, ∀ o, node.value.bind objectOf = some o →
    Act.Shown objectOf acts (.object o)

namespace Known

variable {acts : List (Act K)} {act : Act K} {s t : Shadow K} {handle : Handle K}

theorem left (h : Known objectOf acts s) (more : List (Act K)) :
    Known objectOf (acts ++ more) s where
  sane := h.sane
  entries handle there := (h.entries handle there).mono (List.subset_append_left acts more)
  objects node mem o behind := (h.objects node mem o behind).mono (List.subset_append_left acts more)

theorem congr (h : Known objectOf acts s) (same : Shadow.SameState s t) : Known objectOf acts t where
  sane := same.unpoisoned h.sane
  entries handle there := h.entries handle fun gone =>
    there ((Handle.same_store same.1 handle).dropped gone)
  objects node mem := h.objects node (same.nodes ▸ mem)

section Step

variable (step : Step K) {host : Host K} {reach : Reach K} (own : step.act = act)
  (h : Known objectOf (acts ++ [act]) step.before) (moved : step.Moved objectOf host reach)

include own h moved

theorem next (valid : step.Valid tracer) : Known objectOf (acts ++ [act]) step.after := by
  have shown : ∀ {handle}, step.act.Shows objectOf handle →
      Act.Shown objectOf (acts ++ [act]) handle := fun shows' => shown_last (own ▸ shows')
  refine ⟨moved.moves.sane, fun handle there => ?_, fun node mem o behind => ?_⟩
  · cases handle with
    | frame f =>
      rcases (Step.keeps valid h.sane).2 f there with before | at'
      · exact h.entries (.frame f) before
      · refine shown ?_
        obtain ⟨deed, before, done, after⟩ := step
        cases deed with
        | rule host c category => exact Option.some.inj at'
        | sweep => cases at'
        | release => cases at'
    | object o =>
      by_cases near : reach.object = some o
      · obtain ⟨node, mem, behind⟩ := moved.object o near
        exact h.objects node mem o behind
      · rcases moved.moves.objects o near with same | ⟨gone, -⟩
        · exact h.entries (.object o) fun absent => there (same.trans absent)
        · exact absurd gone there
    | scope c =>
      by_cases near : reach.scope = some c
      · exact shown (moved.scope c near)
      · rcases moved.moves.scopes c near with same | ⟨gone, -⟩
        · exact h.entries (.scope c) fun absent => there (same.trans absent)
        · exact absurd gone there
  · rcases moved.moves.nodes node mem with none' | new | ⟨old, there, same⟩
    · rw [none'] at behind
      cases behind
    · exact shown (moved.value o (new ▸ behind))
    · exact h.objects old there o (same ▸ behind)

variable (faithful : Faithful objectOf (acts ++ [act]))

include faithful

omit h in
/-- What has been let go of and is not referred to any more stays so. -/
theorem absent (letGo : LetGoOf objectOf (acts ++ [act]) handle)
    (before : handle.Absent objectOf step.before) : handle.Absent objectOf step.after := by
  cases handle with
  | object o =>
    intro node mem behind
    rcases moved.moves.nodes node mem with none' | new | ⟨old, there, same⟩
    · rw [none'] at behind
      cases behind
    · exact letGo.not_shows faithful (own ▸ moved.value o (new ▸ behind))
    · exact before old there (same ▸ behind)
  | frame => trivial
  | scope => trivial

/-- An entry that the step has dropped is that of an entity let go of, to which no node refers. -/
theorem fate (told : act.host? = some host) (spared : handle.Spared host step.before step.after) :
    handle.Same step.before step.after ∨
      LetGoOf objectOf (acts ++ [act]) handle ∧ handle.Absent objectOf step.after := by
  rcases spared with same | ⟨gone, letsGo⟩
  · exact .inl same
  by_cases before : handle.Dropped step.before
  · exact .inl (before.same gone)
  have shown := h.entries handle before
  refine .inr ⟨⟨acts, act, [], host, rfl, told, shown, letsGo⟩, ?_⟩
  cases handle with
  | object o =>
    have held : host.HeldByNodes o := faithful.nodes acts act [] host o rfl told shown
    intro node mem behind
    rcases moved.moves.lost o held before gone node mem with new | elsewhere
    · -- the value has been shown at this very act, so the host has not let go of the object
      exact faithful.held told (own ▸ moved.value o (new ▸ behind)) letsGo
    · rw [objectBehind, faithful.same act (by simp) host told] at elsewhere
      exact elsewhere behind
  | frame => trivial
  | scope => trivial

end Step

end Known

/-! ### Two runs -/

/-- Two runs that have come through different acts agree on all that matters: they number the next node
    alike, have the same globals, and have the same entries but for those of entities let go of, to
    which no node of the run that has dropped them refers. -/
structure Agree (objectOf : K.Value → Option K.Object) (acts acts' : List (Act K)) (s t : Shadow K) :
    Prop where
  nextSeq : t.nextSeq = s.nextSeq
  globals : t.store.globals = s.store.globals
  handles : ∀ handle : Handle K, handle.Same s t ∨
    LetGoOf objectOf acts handle ∧ handle.Absent objectOf s ∨
    LetGoOf objectOf acts' handle ∧ handle.Absent objectOf t
  known : Known objectOf acts s
  known' : Known objectOf acts' t

namespace Agree

variable {acts acts' : List (Act K)} {act : Act K} {s t s' t' : Shadow K}

theorem left (h : Agree objectOf acts acts' s t) (more more' : List (Act K)) :
    Agree objectOf (acts ++ more) (acts' ++ more') s t where
  nextSeq := h.nextSeq
  globals := h.globals
  handles handle := (h.handles handle).imp_right
    (Or.imp (And.imp_left (·.left more)) (And.imp_left (·.left more')))
  known := h.known.left more
  known' := h.known'.left more'

theorem symm (h : Agree objectOf acts acts' s t) : Agree objectOf acts' acts t s where
  nextSeq := h.nextSeq.symm
  globals := h.globals.symm
  handles handle := (h.handles handle).imp Handle.Same.symm Or.symm
  known := h.known'
  known' := h.known

theorem congr (h : Agree objectOf acts acts' s t) (one : Shadow.SameState s s')
    (two : Shadow.SameState t t') : Agree objectOf acts acts' s' t' where
  nextSeq := two.2.trans (h.nextSeq.trans one.2.symm)
  globals := by
    rw [one.1, two.1]
    exact h.globals
  handles handle := by
    refine (h.handles handle).imp (fun same => ?_) (Or.imp (And.imp_right fun absent => ?_)
      (And.imp_right fun absent => ?_))
    · exact (Handle.same_store one.1 handle).symm.trans
        (same.trans (Handle.same_store two.1 handle))
    · cases handle with
      | object o => exact fun node mem => absent node (one.nodes ▸ mem)
      | frame => trivial
      | scope => trivial
    · cases handle with
      | object o => exact fun node mem => absent node (two.nodes ▸ mem)
      | frame => trivial
      | scope => trivial
  known := h.known.congr one
  known' := h.known'.congr two

/-- One more step of each run: the entries on which they do not agree afterwards are those that one of
    them has dropped, now or before. -/
theorem next (h : Agree objectOf acts acts' s t) (nextSeq : t'.nextSeq = s'.nextSeq)
    (globals : t'.store.globals = s'.store.globals) (known : Known objectOf acts s')
    (known' : Known objectOf acts' t')
    (absent : ∀ handle : Handle K, LetGoOf objectOf acts handle → handle.Absent objectOf s →
      handle.Absent objectOf s')
    (absent' : ∀ handle : Handle K, LetGoOf objectOf acts' handle → handle.Absent objectOf t →
      handle.Absent objectOf t')
    (fates : ∀ handle : Handle K, handle.Same s' t' ∨
      (handle.Same s s' ∨ LetGoOf objectOf acts handle ∧ handle.Absent objectOf s') ∧
      (handle.Same t t' ∨ LetGoOf objectOf acts' handle ∧ handle.Absent objectOf t')) :
    Agree objectOf acts acts' s' t' where
  nextSeq := nextSeq
  globals := globals
  known := known
  known' := known'
  handles handle := by
    rcases fates handle with same | ⟨kept | dropped, kept' | dropped'⟩
    · exact .inl same
    · rcases h.handles handle with same | ⟨letGo, gone⟩ | ⟨letGo, gone⟩
      · exact .inl (kept.symm.trans (same.trans kept'))
      · exact .inr (.inl ⟨letGo, absent handle letGo gone⟩)
      · exact .inr (.inr ⟨letGo, absent' handle letGo gone⟩)
    · exact .inr (.inr dropped')
    · exact .inr (.inl dropped)
    · exact .inr (.inl dropped)

/-- In states that agree the rules of a checkpoint find the same. -/
theorem level {host : Host K} {order : SweepOrder K} {c : Checkpoint K}
    (h : Agree objectOf (acts ++ [.checkpoint host c])
      (acts' ++ [.checkpoint (host.inOrder order) c]) s t)
    (steady : Steady objectOf (acts ++ [.checkpoint host c]))
    (steady' : Steady objectOf (acts' ++ [.checkpoint (host.inOrder order) c])) :
    Level host c.site c.frame s t := by
  have faithful := steady.toFaithful
  have faithful' := steady'.toFaithful
  have shown : ∀ {handle : Handle K}, Act.Shows objectOf (.checkpoint host c) handle →
      handle.Same s t := by
    intro handle shows'
    rcases h.handles handle with same | ⟨letGo, -⟩ | ⟨letGo, -⟩
    · exact same
    · exact absurd shows' (letGo.not_shows faithful)
    · exact absurd (Act.shows_inOrder shows' order) (letGo.not_shows faithful')
  have record : t.record? c.frame = s.record? c.frame :=
    shown (show Act.Shows objectOf (.checkpoint host c) (.frame c.frame) from rfl)
  refine ⟨h.known.sane, h.known'.sane, h.nextSeq, h.globals, record, ?_, ?_, ?_, ?_⟩
  · exact faithful.held rfl (show Act.Shows objectOf (.checkpoint host c) (.frame c.frame) from rfl)
  · intro g called
    refine ⟨?_, fun there => ?_⟩
    · rcases h.handles (.frame g) with same | ⟨letGo, -⟩ | ⟨letGo, -⟩
      · exact same
      · exact absurd called (letGo.not_calls steady)
      · exact absurd called (letGo.not_calls steady')
    · exact steady.callers acts _ [] host g rfl rfl (h.known.entries (.frame g) there)
        ⟨_, List.mem_singleton.mpr rfl, called⟩
  · intro owned found
    exact shown (show Act.Shows objectOf (.checkpoint host c) (.scope owned.scope) by
      rw [Act.Shows, found]; rfl)
  · intro node mem o behind
    rw [objectBehind, faithful.same (.checkpoint host c) (by simp) host rfl] at behind
    -- the node is in the record of the frame in both states, so neither has dropped its object
    rcases h.handles (.object o) with same | ⟨-, absent⟩ | ⟨-, absent⟩
    · exact same
    · exact absurd behind (absent node (Shadow.mem_nodes_of_record _ mem))
    · have mem' : node ∈ (t.recordOf c.frame).nodes := by
        rwa [Shadow.recordOf, record]
      exact absurd behind (absent node (Shadow.mem_nodes_of_record _ mem'))

/-- One rule of a checkpoint. -/
theorem rule (tracer : Tracer) {host : Host K} {order : SweepOrder K} {c : Checkpoint K}
    (steady : Steady objectOf (acts ++ [.checkpoint host c]))
    (steady' : Steady objectOf (acts' ++ [.checkpoint (host.inOrder order) c])) (category : Category)
    (h : Agree objectOf (acts ++ [.checkpoint host c])
      (acts' ++ [.checkpoint (host.inOrder order) c]) s t) :
    Twin (Agree objectOf (acts ++ [.checkpoint host c])
      (acts' ++ [.checkpoint (host.inOrder order) c])) s t
      (tracer.rule host c category) (tracer.rule (host.inOrder order) c category) := by
  have both : Twin (Abreast host s t) s t (tracer.rule host c category)
      (tracer.rule (host.inOrder order) c category) := (h.level steady steady').rule tracer category
  unfold Twin at both ⊢
  rcases run : (tracer.rule host c category).run.run s with ⟨r, s'⟩
  rcases run' : (tracer.rule (host.inOrder order) c category).run.run t with ⟨r', t'⟩
  rw [run, run'] at both
  obtain ⟨outcome, abreast⟩ := both
  let step : Step K := ⟨.rule host c category, s, r.isOk, s'⟩
  let step' : Step K := ⟨.rule (host.inOrder order) c category, t, r'.isOk, t'⟩
  have valid : step.Valid tracer := by
    constructor <;> rw [run]
  have valid' : step'.Valid tracer := by
    constructor <;> rw [run']
  have same : host.objectOf = objectOf := steady.same (.checkpoint host c) (by simp) host rfl
  obtain ⟨reach, moved⟩ := Step.moved_of_host valid h.known.sane rfl same
  obtain ⟨reach', moved'⟩ := Step.moved_of_host valid' h.known'.sane rfl same
  refine ⟨outcome, h.next abreast.nextSeq abreast.globals (h.known.next step rfl moved valid)
    (h.known'.next step' rfl moved' valid') (fun _ => Known.absent step rfl moved steady.toFaithful)
    (fun _ => Known.absent step' rfl moved' steady'.toFaithful) fun handle => ?_⟩
  refine (abreast.handles handle).imp And.left (And.imp ?_ fun spared => ?_)
  · exact h.known.fate step rfl moved steady.toFaithful rfl
  · exact h.known'.fate step' rfl moved' steady'.toFaithful rfl (spared.inOrder order)

/-- A whole checkpoint. -/
theorem checkpoint (tracer : Tracer) {host : Host K} {order : SweepOrder K} {c : Checkpoint K}
    (h : Agree objectOf acts acts' s t) (steady : Steady objectOf (acts ++ [.checkpoint host c]))
    (steady' : Steady objectOf (acts' ++ [.checkpoint (host.inOrder order) c])) :
    Twin (Agree objectOf (acts ++ [.checkpoint host c])
      (acts' ++ [.checkpoint (host.inOrder order) c])) s t
      (tracer.react host c) (tracer.react (host.inOrder order) c) := by
  unfold Twin
  rw [run_react, run_react]
  refine Twin.forM _ (fun category s t agree => ?_)
    ((h.left _ _).congr (sameState_noted s c) (sameState_noted t c))
  exact (agree.rule tracer steady steady' category).adapt _

theorem spared_sweep (host : Host K) (s : Shadow K) (handle : Handle K) :
    handle.Spared host s (s.sweep host).2 := by
  cases handle with
  | frame f =>
    exact (s.record?_sweep host f).imp_right fun ⟨gone, _, _, _, dead⟩ => ⟨gone, _, dead⟩
  | object o =>
    exact (s.object_sweep host o).imp_right fun ⟨gone, _, _, _, dead⟩ => ⟨gone, _, dead⟩
  | scope c =>
    exact (s.scope_sweep host c).imp_right fun ⟨gone, _, _, _, dead⟩ => ⟨gone, _, dead⟩

/-- A sweep of one of the two stores. -/
theorem sweep (tracer : Tracer) {host : Host K} (h : Agree objectOf acts acts' s t)
    (steady : Steady objectOf (acts ++ [.sweep host])) :
    Agree objectOf (acts ++ [.sweep host]) acts' (s.sweep host).2 t := by
  have grown : Agree objectOf (acts ++ [.sweep host]) acts' s t := by
    simpa using h.left [.sweep host] []
  let step : Step K := ⟨.sweep host, s, true, (s.sweep host).2⟩
  have valid : step.Valid tracer := ⟨rfl, rfl⟩
  have same := steady.same _ (List.mem_append_right _ (List.mem_singleton.mpr rfl)) host rfl
  obtain ⟨reach, moved⟩ := Step.moved_of_host valid grown.known.sane rfl same
  refine grown.next grown.nextSeq grown.globals (grown.known.next step rfl moved valid) grown.known'
    (fun _ => Known.absent step rfl moved steady.toFaithful) (fun _ _ absent => absent) fun handle =>
    .inr ⟨?_, .inl (.refl handle t)⟩
  exact grown.known.fate step rfl moved steady.toFaithful rfl (spared_sweep host s handle)

/-- The host gives up a frame in both runs. -/
theorem release (tracer : Tracer) {frame : K.Frame} (h : Agree objectOf acts acts' s t)
    (steady : Steady objectOf (acts ++ [.release frame]))
    (steady' : Steady objectOf (acts' ++ [.release frame])) :
    Agree objectOf (acts ++ [.release frame]) (acts' ++ [.release frame]) (s.release frame)
      (t.release frame) := by
  have grown := h.left [.release frame] [.release frame]
  let step : Step K := ⟨.release frame, s, true, s.release frame⟩
  let step' : Step K := ⟨.release frame, t, true, t.release frame⟩
  have valid : step.Valid tracer := ⟨rfl, rfl⟩
  have valid' : step'.Valid tracer := ⟨rfl, rfl⟩
  obtain ⟨reach, moved⟩ : ∃ reach, step.Moved objectOf .generous reach :=
    Step.moved_of_release valid grown.known.sane rfl
  obtain ⟨reach', moved'⟩ : ∃ reach, step'.Moved objectOf .generous reach :=
    Step.moved_of_release valid' grown.known'.sane rfl
  have record? : ∀ (u : Shadow K) f, (u.release frame).record? f =
      if frame = f then none else u.record? f := by
    intro u f
    change ((u.store.frames.remove frame).2.find? f).map _ = _
    rw [Table.find?_remove]
    split <;> rfl
  refine grown.next grown.nextSeq grown.globals (grown.known.next step rfl moved valid)
    (grown.known'.next step' rfl moved' valid')
    (fun _ => Known.absent step rfl moved steady.toFaithful)
    (fun _ => Known.absent step' rfl moved' steady'.toFaithful) fun handle => ?_
  cases handle with
  | frame f =>
    by_cases own : frame = f
    · exact .inl (by rw [Handle.Same, record?, record?, if_pos own, if_pos own])
    · exact .inr ⟨.inl ((record? s f).trans (if_neg own)), .inl ((record? t f).trans (if_neg own))⟩
  | object o => exact .inr ⟨.inl rfl, .inl rfl⟩
  | scope c => exact .inr ⟨.inl rfl, .inl rfl⟩

/-- In the beginning there is nothing. -/
theorem start (interval interval' nextSeq : Nat) (log log' : Log) :
    Agree objectOf [] [] (⟨.ofInterval interval, nextSeq, log⟩ : Shadow K)
      ⟨.ofInterval interval', nextSeq, log'⟩ := by
  have known : ∀ interval log, Known objectOf []
      (⟨.ofInterval interval, nextSeq, log⟩ : Shadow K) := fun interval log =>
    { sane := Shadow.unpoisoned_ofInterval interval nextSeq log
      entries := fun handle there => absurd (by cases handle <;> rfl) there
      objects := fun node mem => by cases mem }
  exact ⟨rfl, rfl, fun handle => .inl (by cases handle <;> rfl), known _ _, known _ _⟩

end Agree

theorem Act.besidesSweeps_cons (act : Act K) (acts : List (Act K)) :
    besidesSweeps (act :: acts) =
      if act.isSweep then besidesSweeps acts else act.inOrder {} :: besidesSweeps acts := by
  unfold besidesSweeps
  cases sweeps : act.isSweep <;> simp [sweeps]

theorem Act.eq_sweep {act : Act K} (sweeps : act.isSweep = true) : ∃ host, act = .sweep host := by
  cases act with
  | sweep host => exact ⟨host, rfl⟩
  | checkpoint => cases sweeps
  | release => cases sweeps

/-- Acts that differ in the order of sweeps at most. -/
theorem Act.eq_inOrder {act act' : Act K} (same : act.inOrder {} = act'.inOrder {}) :
    ∃ order, act' = act.inOrder order := by
  cases act with
  | checkpoint host c =>
    cases act' with
    | checkpoint host' c' =>
      obtain ⟨_, _, _, _, _⟩ := host
      obtain ⟨_, _, _, _, order⟩ := host'
      cases same
      exact ⟨order, rfl⟩
    | sweep => cases same
    | release => cases same
  | sweep host =>
    cases act' with
    | sweep host' =>
      obtain ⟨_, _, _, _, _⟩ := host
      obtain ⟨_, _, _, _, order⟩ := host'
      cases same
      exact ⟨order, rfl⟩
    | checkpoint => cases same
    | release => cases same
  | release frame =>
    cases act' with
    | release frame' =>
      cases same
      exact ⟨{}, rfl⟩
    | checkpoint => cases same
    | sweep => cases same

namespace Agree

/-- An act of both runs that is not a sweep. -/
theorem act (tracer : Tracer) {acts acts' : List (Act K)} {act : Act K} {order : SweepOrder K}
    {s t : Shadow K} (h : Agree objectOf acts acts' s t) (other : act.isSweep = false)
    (steady : Steady objectOf (acts ++ [act]))
    (steady' : Steady objectOf (acts' ++ [act.inOrder order])) :
    Agree objectOf (acts ++ [act]) (acts' ++ [act.inOrder order]) (act.after tracer s)
      ((act.inOrder order).after tracer t) := by
  cases act with
  | checkpoint host c => exact (h.checkpoint tracer steady steady').2
  | release frame => exact h.release tracer steady steady'
  | sweep host => cases other

/-- Runs that go on with the same acts, but for sweeps. -/
theorem afterAll (tracer : Tracer) {rest rest' : List (Act K)}
    (same : Act.besidesSweeps rest = Act.besidesSweeps rest') {acts acts' : List (Act K)}
    {s t : Shadow K} (h : Agree objectOf acts acts' s t) (steady : Steady objectOf (acts ++ rest))
    (steady' : Steady objectOf (acts' ++ rest')) :
    Agree objectOf (acts ++ rest) (acts' ++ rest') (s.afterAll tracer rest)
      (t.afterAll tracer rest') := by
  induction rest generalizing acts acts' rest' s t with
  | nil =>
    -- the other run can only have sweeps left
    induction rest' generalizing acts' t with
    | nil => rwa [List.append_nil, List.append_nil]
    | cons act' rest' ih' =>
      rw [Act.besidesSweeps_cons] at same
      split at same
      · next sweeps =>
        obtain ⟨host, rfl⟩ := Act.eq_sweep sweeps
        rw [List.append_cons] at steady' ⊢
        exact ih' same (h.symm.sweep tracer steady'.left).symm steady'
      · cases same
  | cons act rest ih =>
    rw [Act.besidesSweeps_cons] at same
    split at same
    · next sweeps =>
      obtain ⟨host, rfl⟩ := Act.eq_sweep sweeps
      rw [List.append_cons] at steady ⊢
      exact ih same (h.sweep tracer steady.left) steady steady'
    · next other =>
      -- the other run may sweep first, and then comes the same act in both
      induction rest' generalizing acts' t with
      | nil => cases same
      | cons act' rest' ih' =>
        rw [Act.besidesSweeps_cons] at same
        rw [List.append_cons acts' act' rest'] at steady' ⊢
        split at same
        · next sweeps =>
          obtain ⟨host, rfl⟩ := Act.eq_sweep sweeps
          exact ih' (h.symm.sweep tracer steady'.left).symm steady' same
        · obtain ⟨alike, tails⟩ := List.cons.inj same
          obtain ⟨order, rfl⟩ := Act.eq_inOrder alike
          rw [List.append_cons] at steady ⊢
          exact ih tails (h.act tracer (by simpa using other) steady.left steady'.left) steady steady'

end Agree

/-- Let two runs from nothing differ in the intervals at which their tables are swept, in where the
    store is swept besides, and in the orders of all these sweeps. At the next checkpoint they come to
    the same outcome and number the same nodes alike, and afterwards they have the same globals and the
    same entry, or none, for every frame, object and scope that the host has not let go of since it was
    shown. -/
theorem Shadow.sweeps_invisible (tracer : Tracer) {acts acts' : List (Act K)} {host : Host K}
    (order : SweepOrder K) {c : Checkpoint K}
    (steady : Steady objectOf (acts ++ [.checkpoint host c]))
    (steady' : Steady objectOf (acts' ++ [.checkpoint (host.inOrder order) c]))
    (same : Act.besidesSweeps acts = Act.besidesSweeps acts')
    (interval interval' nextSeq : Nat) (log log' : Log) :
    let s := (⟨.ofInterval interval, nextSeq, log⟩ : Shadow K).afterAll tracer acts
    let t := (⟨.ofInterval interval', nextSeq, log'⟩ : Shadow K).afterAll tracer acts'
    let (outcome, s') := (tracer.react host c).run.run s
    let (outcome', t') := (tracer.react (host.inOrder order) c).run.run t
    outcome = outcome' ∧ s.nextSeq = t.nextSeq ∧ s'.nextSeq = t'.nextSeq ∧
      s'.store.globals = t'.store.globals ∧
      ∀ handle : Handle K, ¬ LetGoOf objectOf (acts ++ [.checkpoint host c]) handle →
        ¬ LetGoOf objectOf (acts' ++ [.checkpoint (host.inOrder order) c]) handle →
          handle.Same s' t' := by
  intro s t
  have before : Agree objectOf acts acts' s t :=
    (Agree.start interval interval' nextSeq log log').afterAll tracer same steady.left steady'.left
  obtain ⟨outcome, after⟩ := before.checkpoint tracer steady steady'
  refine ⟨outcome, before.nextSeq.symm, after.nextSeq.symm, after.globals.symm, ?_⟩
  intro handle held held'
  rcases after.handles handle with same | ⟨letGo, -⟩ | ⟨letGo, -⟩
  · exact same
  · exact absurd letGo held
  · exact absurd letGo held'

/-! A function returns to its caller and its frame is let go of. One run sweeps then, the other one does
not. -/

namespace SweptFrame

open WriteThenRead (numbers)

/-- Frame 0 has called frame 1; the host keeps the first of its frames, and no object and no scope. -/
def keeping (frames : Nat) : Host numbers where
  callerOf frame := if frame = 1 then some 0 else none
  argumentCount _ := 0
  objectOf _ := none
  survivors _ := ⟨fun frame => frame < frames, fun _ => false, fun _ => false⟩

def checkpoint (id : Nat) (category : Category) (frame : Nat) (moment : Moment Nat) :
    Checkpoint numbers :=
  ⟨{ id := ⟨id⟩, label := "x", categories := .single category, localSlot := some "x" }, frame, moment⟩

def reading : Checkpoint numbers := checkpoint 4 .useLocalDefStack 0 (.leave 7)

/-- What there is while both frames are held. It stays folded, since a run is long to look into. -/
@[irreducible]
def early : List (Act numbers) := [
  .checkpoint (keeping 2) (checkpoint 0 .functionBoundary 0 .enter),
  .checkpoint (keeping 2) (checkpoint 1 .noUseDefStack 0 (.leave 7)),
  .checkpoint (keeping 2) (checkpoint 2 .useStackDefLocalStack 0 (.leave 7)),
  .checkpoint (keeping 2) (checkpoint 3 .functionBoundary 1 .enter),
  .checkpoint (keeping 2) (checkpoint 1 .noUseDefStack 1 (.leave 8)),
  .checkpoint (keeping 2) (checkpoint 3 .functionBoundary 1 (.leave 8))]

/-- What there may be when the called one has been let go of. -/
def late : List (Act numbers) := [.sweep (keeping 1), .checkpoint (keeping 1) reading]

variable {more : List (Act numbers)} {act : Act numbers} {host : Host numbers}

theorem host_of_early (mem : act ∈ early) (told : act.host? = some host) : host = keeping 2 := by
  simp only [early, List.mem_cons, List.not_mem_nil, or_false] at mem
  rcases mem with rfl | rfl | rfl | rfl | rfl | rfl <;> exact (Option.some.inj told).symm

theorem host_of_late (mem : act ∈ late) (told : act.host? = some host) : host = keeping 1 := by
  simp only [late, List.mem_cons, List.not_mem_nil, or_false] at mem
  rcases mem with rfl | rfl <;> exact (Option.some.inj told).symm

theorem host_of_mem (sub : more ⊆ late) (mem : act ∈ early ++ more) (told : act.host? = some host) :
    ∃ frames, 0 < frames ∧ host = keeping frames :=
  (List.mem_append.mp mem).elim (fun early => ⟨2, Nat.two_pos, host_of_early early told⟩)
    fun mem => ⟨1, Nat.one_pos, host_of_late (sub mem) told⟩

theorem shown_frame {frames : Nat} {acts : List (Act numbers)}
    (inside : ∀ act ∈ acts, ∀ host c, act = .checkpoint host c →
      c.frame < frames ∧ c.site.classVariable = none) {handle : Handle numbers}
    (h : Act.Shown (fun _ => none) acts handle) : ∃ frame < frames, handle = .frame frame := by
  obtain ⟨act, mem, shows'⟩ := h
  cases act with
  | checkpoint host c =>
    obtain ⟨bound, none'⟩ := inside _ mem host c rfl
    cases handle with
    | frame f => exact ⟨c.frame, bound, congrArg Handle.frame shows'.symm⟩
    | object o =>
      obtain ⟨_, _, behind⟩ := shows'
      cases behind
    | scope d =>
      rw [Act.Shows, none'] at shows'
      cases shows'
  | _ => cases handle <;> cases shows'

theorem keeps_frame {frames frame : Nat} (bound : frame < frames) :
    ¬ (keeping frames).LetsGo (.frame frame) := by
  rintro ⟨nodes, gone⟩
  exact of_decide_eq_false gone bound

theorem inside_late : ∀ act ∈ late, ∀ host c, act = .checkpoint host c →
    c.frame < 1 ∧ c.site.classVariable = none := by
  intro act mem host c told
  simp only [late, List.mem_cons, List.not_mem_nil, or_false] at mem
  rcases mem with rfl | rfl <;> cases told
  exact ⟨Nat.one_pos, rfl⟩

theorem inside_all (sub : more ⊆ late) : ∀ act ∈ early ++ more, ∀ host c,
    act = .checkpoint host c → c.frame < 2 ∧ c.site.classVariable = none := by
  intro act mem host c told
  rcases List.mem_append.mp mem with mem | mem
  · simp only [early, List.mem_cons, List.not_mem_nil, or_false] at mem
    rcases mem with rfl | rfl | rfl | rfl | rfl | rfl <;> cases told <;> exact ⟨by decide, rfl⟩
  · obtain ⟨bound, none'⟩ := inside_late act (sub mem) host c told
    exact ⟨Nat.lt_succ_of_lt bound, none'⟩

/-- The frame that has been called is not shown again when it has been let go of. -/
theorem steady (sub : more ⊆ late) : Steady (fun _ => none) (early ++ more) where
  same act mem host told := by
    obtain ⟨frames, -, rfl⟩ := host_of_mem sub mem told
    rfl
  nodes before act after host object split told shown := by
    have within : before ++ [act] ⊆ early ++ more := by
      rw [split]
      exact List.append_cons before act after ▸ List.subset_append_left _ _
    obtain ⟨frame, -, none'⟩ := shown_frame (inside_all sub) (shown.mono within)
    cases none'
  keeps before act after host handle split told _ shown := by
    by_cases mem : act ∈ early
    · obtain ⟨frame, bound, rfl⟩ := shown_frame (inside_all sub)
        (shown.mono (split ▸ List.subset_append_right before _))
      rw [host_of_early mem told]
      exact keeps_frame bound
    · have later : act :: after ⊆ late := by
        rcases List.append_eq_append_iff.mp split with ⟨past, -, rest⟩ | ⟨_ | ⟨first, rest⟩, own, rest'⟩
        · exact List.Subset.trans (rest ▸ List.subset_append_right past _) sub
        · exact rest' ▸ sub
        · obtain ⟨rfl, -⟩ := List.cons.inj rest'
          exact absurd (own ▸ List.mem_append_right before List.mem_cons_self) mem
      obtain ⟨frame, bound, rfl⟩ := shown_frame (fun other mem => inside_late other (later mem)) shown
      rw [host_of_late (later List.mem_cons_self) told]
      exact keeps_frame bound
  callers before act after host frame split told _ := by
    rintro ⟨later, mem, calls⟩
    have within : act :: after ⊆ early ++ more := split ▸ List.subset_append_right before _
    obtain ⟨frames, some', rfl⟩ := host_of_mem sub (within List.mem_cons_self) told
    have first : frame = 0 := by
      cases later with
      | checkpoint host' c =>
        obtain ⟨_, -, rfl⟩ := host_of_mem sub (within mem) rfl
        have called : (if c.frame = 1 then some 0 else none) = some frame := calls
        split at called
        · exact (Option.some.inj called).symm
        · cases called
      | _ => cases calls
    exact first ▸ keeps_frame some'

theorem not_letGoOf (sub : more ⊆ late) : ¬ LetGoOf (fun _ => none) (early ++ more) (.frame 0) := by
  rintro ⟨before, act, after, host, split, told, -, letsGo⟩
  obtain ⟨frames, some', rfl⟩ := host_of_mem sub (split ▸ by simp) told
  exact keeps_frame some' letsGo

/-- The caller reads its local. Before, the record of the called frame has been swept in one run; in the
    other one, where nothing is ever swept, it is still there. -/
theorem sweeps_invisible_read :
    let s := (⟨.ofInterval 1, 1, {}⟩ : Shadow numbers).afterAll {} (early ++ [.sweep (keeping 1)])
    let t := (⟨.ofInterval 0, 1, {}⟩ : Shadow numbers).afterAll {} early
    let s' := ((Tracer.react {} (keeping 1) reading).run.run s).2
    let t' := ((Tracer.react {} (keeping 1) reading).run.run t).2
    s.record? 1 = none ∧ t.record? 1 ≠ none ∧
      s'.nextSeq = t'.nextSeq ∧ t'.record? 0 = s'.record? 0 := by
  intro s t s' t'
  have reads : [Act.checkpoint (keeping 1) reading] ⊆ late := List.subset_cons_self _ _
  have swept : early ++ [.sweep (keeping 1)] ++ [.checkpoint (keeping 1) reading] = early ++ late :=
    List.append_assoc ..
  have steady' : Steady (fun _ => none)
      (early ++ [.sweep (keeping 1)] ++ [.checkpoint (keeping 1) reading]) :=
    swept ▸ steady (List.Subset.refl late)
  have same : Act.besidesSweeps (early ++ [.sweep (keeping 1)]) = Act.besidesSweeps early := by
    with_unfolding_all rfl
  obtain ⟨-, -, numbers', -, entries⟩ :=
    Shadow.sweeps_invisible {} {} steady' (steady reads) same 1 0 1 {} {}
  have held : ¬ LetGoOf (fun _ => none)
      (early ++ [.sweep (keeping 1)] ++ [.checkpoint (keeping 1) reading]) (.frame (0 : Nat)) :=
    swept ▸ not_letGoOf (List.Subset.refl late)
  have kept := entries (.frame 0) held (not_letGoOf reads)
  have gone : (s.record? 1).isNone = true := by decide +kernel
  have there : (t.record? 1).isSome = true := by decide +kernel
  exact ⟨Option.isNone_iff_eq_none.mp gone, Option.ne_none_iff_isSome.mpr there, numbers', kept⟩

end SweptFrame

end Lineage
