import Lineage.Proofs.History

/-!
# Reads find what was written last

The origin that a read finds in a slot is the node that was written there last; before the first write
it is one unknown node, the same for all reads. Entries of frames, objects and scopes are dropped
together with their slots once the host has let go of them, so this holds of hosts that do not come
back with what they have let go of: `Faithful`. An object may outlive its host's interest in it, as
long as nodes refer to it.
-/

namespace Lineage

open Tracer

variable {K : Kinds}

/-- What a host owns and the tracer keeps entries for. -/
inductive Handle (K : Kinds) where
  | frame (frame : K.Frame)
  | object (object : K.Object)
  | scope (scope : K.Scope)

/-- The entity that a slot belongs to; globals belong to none. -/
def Slot.owner : Slot K → Option (Handle K)
  | frameLocal frame _ => some (.frame frame)
  | property object _ => some (.object object)
  | classVariable scope _ => some (.scope scope)
  | global _ => none

/-- The host does not keep the entity alive on its own. -/
def Host.LetsGo (host : Host K) : Handle K → Prop
  | .frame frame => host.MayDrop frame
  | .object object => host.MayDropObject object
  | .scope scope => host.MayDropScope scope

/-! ### Faithful hosts -/

namespace Act

def host? : Act K → Option (Host K)
  | checkpoint host _ => some host
  | sweep host => some host
  | release _ => none

/-- At a checkpoint the host shows its frame, the scope of the class variable at the site, and the
    object behind the value that it has come to. -/
def Shows (objectOf : K.Value → Option K.Object) : Act K → Handle K → Prop
  | checkpoint _ c, .frame frame => c.frame = frame
  | checkpoint _ c, .scope scope => c.site.classVariable.map (·.scope) = some scope
  | checkpoint _ c, .object object => ∃ value, c.moment = .leave value ∧ objectOf value = some object
  | _, _ => False

def Shown (objectOf : K.Value → Option K.Object) (acts : List (Act K)) (handle : Handle K) : Prop :=
  ∃ act ∈ acts, act.Shows objectOf handle

variable {objectOf : K.Value → Option K.Object} {acts more : List (Act K)} {handle : Handle K}

theorem Shown.mono (h : Shown objectOf acts handle) (sub : acts ⊆ more) :
    Shown objectOf more handle := by
  obtain ⟨act, mem, shows'⟩ := h
  exact ⟨act, sub mem, shows'⟩

theorem shown_append : Shown objectOf (acts ++ more) handle ↔
    Shown objectOf acts handle ∨ Shown objectOf more handle := by
  simp only [Shown, List.mem_append, or_and_right, exists_or]

theorem shown_singleton {act : Act K} :
    Shown objectOf [act] handle ↔ act.Shows objectOf handle := by
  simp only [Shown, List.mem_singleton, exists_eq_left]

end Act

/-- The hosts of some acts are moments of one host: values refer to the same objects throughout, a
    node keeps the object that it refers to, and an entity shown now or before, and again now or later,
    has not been let go of in between. -/
structure Faithful (objectOf : K.Value → Option K.Object) (acts : List (Act K)) : Prop where
  same : ∀ act ∈ acts, ∀ host, act.host? = some host → host.objectOf = objectOf
  nodes : ∀ before act after host object, acts = before ++ act :: after → act.host? = some host →
    Act.Shown objectOf (before ++ [act]) (.object object) → host.HeldByNodes object
  keeps : ∀ before act after host handle, acts = before ++ act :: after → act.host? = some host →
    Act.Shown objectOf (before ++ [act]) handle → Act.Shown objectOf (act :: after) handle →
    ¬ host.LetsGo handle

variable {tracer : Tracer} {objectOf : K.Value → Option K.Object}

theorem Faithful.left {acts more : List (Act K)} (h : Faithful objectOf (acts ++ more)) :
    Faithful objectOf acts where
  same act mem := h.same act (List.mem_append_left more mem)
  nodes before act after host object split :=
    h.nodes before act (after ++ more) host object (by rw [split, List.append_assoc]; rfl)
  keeps before act after host handle split told past future :=
    h.keeps before act (after ++ more) host handle (by rw [split, List.append_assoc]; rfl) told past
      (future.mono (List.subset_append_left (act :: after) more))

/-- Hosts are faithful if they let go of nothing that is shown at any time. -/
theorem Faithful.of_kept {acts : List (Act K)}
    (same : ∀ act ∈ acts, ∀ host, act.host? = some host → host.objectOf = objectOf)
    (nodes : ∀ act ∈ acts, ∀ host, act.host? = some host → ∀ object,
      Act.Shown objectOf acts (.object object) → host.HeldByNodes object)
    (keeps : ∀ act ∈ acts, ∀ host, act.host? = some host → ∀ handle,
      Act.Shown objectOf acts handle → ¬ host.LetsGo handle) : Faithful objectOf acts where
  same := same
  nodes before act after host object split told shown := by
    subst split
    refine nodes act (by simp) host told object (shown.mono ?_)
    simp
  keeps before act after host handle split told _ shown := by
    subst split
    refine keeps act (by simp) host told handle (shown.mono ?_)
    simp

/-- The steps before a step belong to the acts up to its own, those after it to its own act and to
    later ones. -/
theorem Shadow.steps_split {acts : List (Act K)} {s : Shadow K} {earlier later : List (Step K)}
    {step : Step K} (split : s.steps tracer acts = earlier ++ step :: later) :
    ∃ before after, acts = before ++ step.act :: after ∧
      earlier.map (·.act) ⊆ before ++ [step.act] ∧ later.map (·.act) ⊆ step.act :: after := by
  induction acts generalizing s earlier with
  | nil => exact absurd split (by simp [steps])
  | cons act rest ih =>
    unfold steps at split
    rcases List.append_eq_append_iff.mp split with ⟨others, own, rest'⟩ | ⟨others, own, rest'⟩
    · -- the step belongs to one of the later acts
      obtain ⟨before, after, rfl, earlier', later'⟩ := ih rest'
      refine ⟨act :: before, after, rfl, ?_, later'⟩
      intro other mem
      rw [own, List.map_append, List.mem_append] at mem
      rcases mem with mem | mem
      · obtain ⟨x, inside, rfl⟩ := List.mem_map.mp mem
        rw [Act.act_steps inside]
        exact List.mem_cons_self
      · exact List.mem_cons_of_mem act (earlier' mem)
    · cases others with
      | nil =>
        have here : (act.after tracer s).steps tracer rest = [] ++ step :: later := by
          simpa using rest'.symm
        obtain ⟨before, after, rfl, -, later'⟩ := ih here
        refine ⟨act :: before, after, rfl, fun other mem => ?_, later'⟩
        obtain ⟨x, inside, rfl⟩ := List.mem_map.mp mem
        have inside : x ∈ act.steps tracer s := own ▸ List.mem_append_left [] inside
        rw [Act.act_steps inside]
        exact List.mem_cons_self
      | cons first others =>
        obtain ⟨rfl, rfl⟩ := List.cons.inj rest'
        have inside : ∀ x ∈ earlier ++ step :: others, x.act = act := fun x mem =>
          Act.act_steps (own ▸ mem)
        have here : step.act = act := inside step (by simp)
        refine ⟨[], rest, by rw [here]; rfl, fun other mem => ?_, fun other mem => ?_⟩
        · obtain ⟨x, before, rfl⟩ := List.mem_map.mp mem
          rw [here, inside x (List.mem_append_left _ before)]
          exact List.mem_singleton.mpr rfl
        · obtain ⟨x, after, rfl⟩ := List.mem_map.mp mem
          rw [here]
          rcases List.mem_append.mp after with after | after
          · rw [inside x (List.mem_append_right _ (List.mem_cons_of_mem _ after))]
            exact List.mem_cons_self
          · exact List.mem_cons_of_mem _ (act_of_steps after)

/-- What holds of the acts holds of the steps, each taken for its act. -/
theorem Faithful.steps {acts : List (Act K)} {s : Shadow K} (h : Faithful objectOf acts) :
    Faithful objectOf ((s.steps tracer acts).map (·.act)) where
  same act mem := by
    obtain ⟨step, inside, rfl⟩ := List.mem_map.mp mem
    exact h.same step.act (Shadow.act_of_steps inside)
  nodes before act after host object split told past := by
    obtain ⟨earlier, rest, own, rfl, here⟩ := List.map_eq_append_iff.mp split
    obtain ⟨step, later, rfl, rfl, rfl⟩ := List.map_eq_cons_iff.mp here
    obtain ⟨before, after, rfl, earlier', -⟩ := Shadow.steps_split own
    refine h.nodes before step.act after host object rfl told (past.mono ?_)
    exact List.append_subset.mpr ⟨earlier', List.subset_append_right before [step.act]⟩
  keeps before act after host handle split told past future := by
    obtain ⟨earlier, rest, own, rfl, here⟩ := List.map_eq_append_iff.mp split
    obtain ⟨step, later, rfl, rfl, rfl⟩ := List.map_eq_cons_iff.mp here
    obtain ⟨before, after, rfl, earlier', later'⟩ := Shadow.steps_split own
    refine h.keeps before step.act after host handle rfl told (past.mono ?_) (future.mono ?_)
    · exact List.append_subset.mpr ⟨earlier', List.subset_append_right before [step.act]⟩
    · exact List.cons_subset.mpr ⟨List.mem_cons_self, later'⟩

/-! ### What reaches a slot -/

/-- The slot is given up with the locals of its frame. -/
def Access.givesUp : Access K → Slot K → Bool
  | resets frame, .frameLocal f _ => f = frame
  | _, _ => false

def Access.written? (slot : Slot K) : Access K → Option (Node K.Value)
  | writes other node => if other = slot then some node else none
  | _ => none

/-- The steps since the slot was last given up, most recent first. -/
def Step.since (slot : Slot K) (past : List (Step K)) : List (Step K) :=
  past.reverse.takeWhile fun step => !step.access.givesUp slot

/-- What a read of the slot finds after these steps, most recent first: the node written last, if one
    was, and an unknown node otherwise, which is the node that earlier reads have found. -/
def Reaches (slot : Slot K) (recent : List (Step K)) (found : Option (Node K.Value)) : Prop :=
  match recent.findSome? (·.access.written? slot) with
  | some node => found = some node
  | none => (found = none ∨ ∃ seq, found = some (.unknown seq)) ∧
      ∀ read ∈ recent, ∀ origin, read.access = .reads slot origin → found = some origin

theorem Step.since_concat (slot : Slot K) (past : List (Step K)) (step : Step K) :
    since slot (past ++ [step]) =
      if step.access.givesUp slot then [] else step :: since slot past := by
  rw [since, List.reverse_concat, List.takeWhile_cons]
  cases step.access.givesUp slot <;> rfl

theorem Access.touches_of_givesUp {access : Access K} {slot : Slot K}
    (h : access.givesUp slot = true) : access.Touches slot ∧ ∀ s t, access.Done s t →
      t.current slot = none := by
  unfold givesUp at h
  split at h
  · next frame f name =>
    obtain rfl := of_decide_eq_true h
    exact ⟨rfl, fun s t done => done name⟩
  · cases h

/-- A step that has nothing to do with the slot. -/
theorem Reaches.far {slot : Slot K} {recent : List (Step K)} {step : Step K}
    {found : Option (Node K.Value)} (h : Reaches slot recent found)
    (unwritten : step.access.written? slot = none)
    (unread : ∀ origin, step.access ≠ .reads slot origin) : Reaches slot (step :: recent) found := by
  unfold Reaches at h ⊢
  rw [List.findSome?_cons, unwritten]
  dsimp only
  cases written : recent.findSome? (·.access.written? slot) with
  | some node =>
    rw [written] at h
    exact h
  | none =>
    rw [written] at h
    refine ⟨h.1, fun read mem origin own => ?_⟩
    rcases List.mem_cons.mp mem with rfl | mem
    · exact absurd own (unread origin)
    · exact h.2 read mem origin own

/-- A step that reads the slot. -/
theorem Reaches.read {slot : Slot K} {recent : List (Step K)} {step : Step K}
    {found : Option (Node K.Value)} {origin : Node K.Value} (h : Reaches slot recent found)
    (access : step.access = .reads slot origin)
    (there : found = some origin ∨ found = none ∧ ∃ seq, origin = .unknown seq) :
    Reaches slot (step :: recent) (some origin) := by
  have unwritten : step.access.written? slot = none := by
    rw [access]
    rfl
  unfold Reaches at h ⊢
  rw [List.findSome?_cons, unwritten]
  dsimp only
  cases written : recent.findSome? (·.access.written? slot) with
  | some node =>
    rw [written] at h
    rcases there with same | ⟨absent, -⟩
    · exact same.symm.trans h
    · exact absurd (h.symm.trans absent) (Option.some_ne_none node)
  | none =>
    rw [written] at h
    obtain ⟨unknown, reads⟩ := h
    refine ⟨.inr ?_, fun read mem other own => ?_⟩
    · rcases there with rfl | ⟨-, seq, rfl⟩
      · exact unknown.resolve_left (Option.some_ne_none origin)
      · exact ⟨seq, rfl⟩
    · rcases List.mem_cons.mp mem with rfl | mem
      · obtain ⟨-, rfl⟩ := Access.reads.inj (access.symm.trans own)
        rfl
      · rcases there with rfl | ⟨rfl, -⟩
        · exact reads read mem other own
        · cases reads read mem other own

/-- One more step, if the slot has held what the steps so far have made of it. -/
theorem Reaches.step {slot : Slot K} {past : List (Step K)} {step : Step K} {s t : Shadow K}
    (h : Reaches slot (Step.since slot past) (s.current slot)) (done : step.access.Done s t)
    (same : ¬ step.access.Touches slot → t.current slot = s.current slot) :
    Reaches slot (Step.since slot (past ++ [step])) (t.current slot) := by
  rw [Step.since_concat]
  cases access : step.access with
  | nothing =>
    rw [access] at same
    rw [if_neg (by exact Bool.false_ne_true), same id]
    exact h.far (by rw [access]; rfl) fun origin => by rw [access]; exact nofun
  | reads other origin =>
    rw [access] at same done
    rw [if_neg (by exact Bool.false_ne_true)]
    by_cases own : slot = other
    · subst own
      obtain ⟨after, before⟩ := done
      rw [after]
      exact h.read access before
    · rw [same own]
      refine h.far (by rw [access]; rfl) fun found => ?_
      rw [access]
      rintro ⟨⟩
      exact own rfl
  | writes other node =>
    rw [access] at same done
    rw [if_neg (by exact Bool.false_ne_true)]
    by_cases own : slot = other
    · subst own
      rw [Reaches, List.findSome?_cons, access, Access.written?, if_pos rfl]
      exact done
    · rw [same own]
      refine h.far ?_ fun found => by rw [access]; exact nofun
      rw [access, Access.written?, if_neg (Ne.symm own)]
  | resets frame =>
    rw [access] at same done
    by_cases given : (Access.resets frame).givesUp slot = true
    · have gone : t.current slot = none := (Access.touches_of_givesUp given).2 s t done
      rw [if_pos given, gone]
      exact ⟨.inl rfl, fun read mem => absurd mem List.not_mem_nil⟩
    · have untouched : ¬ (Access.resets frame).Touches slot := by
        cases slot with
        | frameLocal f name => exact fun touched => given (decide_eq_true touched)
        | _ => exact id
      rw [if_neg given, same untouched]
      exact h.far (by rw [access]; rfl) fun found => by rw [access]; exact nofun

/-! ### What a step does to slots and handles -/

open Shadow

/-- A host that never lets go of anything. -/
def Host.generous : Host K where
  callerOf _ := none
  argumentCount _ := 0
  objectOf _ := none
  survivors _ := ⟨fun _ => true, fun _ => true, fun _ => true⟩

theorem Host.not_letsGo_generous (handle : Handle K) : ¬ (generous : Host K).LetsGo handle := by
  cases handle <;> exact fun ⟨_, gone⟩ => Bool.noConfusion gone

/-- There is no entry for the entity. -/
def Handle.Dropped (s : Shadow K) : Handle K → Prop
  | .frame f => s.record? f = none
  | .object o => s.store.objects.content? o = none
  | .scope c => s.store.scopes.content? c = none

theorem Handle.Dropped.current {s : Shadow K} {handle : Handle K} (h : handle.Dropped s) {x : Slot K}
    (owner : x.owner = some handle) : s.current x = none := by
  cases x with
  | frameLocal f name =>
    cases owner
    rw [Shadow.current, recordOf, show s.record? f = none from h]
    rfl
  | property o name =>
    cases owner
    rw [Shadow.current, objectSlots, show s.store.objects.content? o = none from h]
    rfl
  | classVariable c name =>
    cases owner
    rw [Shadow.current, scopeSlots, show s.store.scopes.content? c = none from h]
    rfl
  | global name => cases owner

/-- A step is a change within a reach, all of which has been shown to the tracer. -/
structure Step.Moved (objectOf : K.Value → Option K.Object) (step : Step K) (host : Host K)
    (reach : Reach K) : Prop where
  moves : Moves host reach step.access.Touches step.before step.after
  near : ∀ x, step.access.Touches x → reach.Near x
  done : step.access.Done step.before step.after
  host : ∀ handle, host.LetsGo handle → step.act.host? = some host
  frame : ∀ f, reach.frame = some f → step.act.Shows objectOf (.frame f) ∨ step.access = .resets f
  object : ∀ o, reach.object = some o →
    ∃ node ∈ step.before.store.nodes, node.value.bind objectOf = some o
  scope : ∀ c, reach.scope = some c → step.act.Shows objectOf (.scope c)
  value : ∀ o, reach.value.bind objectOf = some o → step.act.Shows objectOf (.object o)

theorem Step.moved_of_host {step : Step K} (valid : step.Valid tracer)
    (sane : step.before.Unpoisoned) {host : Host K} (told : step.act.host? = some host)
    (same : host.objectOf = objectOf) : ∃ reach, step.Moved objectOf host reach := by
  have effect := Step.effect valid sane
  obtain ⟨deed, before, done, after⟩ := step
  cases deed with
  | release frame => cases told
  | sweep host =>
    cases told
    refine ⟨{}, effect, fun _ => False.elim, trivial, fun _ _ => rfl, ?_, ?_, ?_, ?_⟩ <;>
      rintro _ ⟨⟩
  | rule host c category =>
    cases told
    obtain ⟨reach, value, frames, objects, scopes, moves, near, done'⟩ := effect
    refine ⟨reach, moves, near, done', fun _ _ => rfl, fun f own => .inl (frames f own).symm,
      fun o own => ?_, scopes, fun o behind => ?_⟩
    · obtain ⟨node, mem, behind⟩ := objects o own
      rw [objectBehind, same] at behind
      exact ⟨node, mem, behind⟩
    · rw [value] at behind
      obtain ⟨site, frame, moment⟩ := c
      cases moment with
      | leave v => exact ⟨v, rfl, behind⟩
      | enter => cases behind
      | unwind exception => cases behind

theorem Step.moved_of_release {step : Step K} (valid : step.Valid tracer)
    (sane : step.before.Unpoisoned) (told : step.act.host? = none) :
    ∃ reach, step.Moved objectOf .generous reach := by
  have effect := Step.effect valid sane
  obtain ⟨deed, before, done, after⟩ := step
  cases deed with
  | rule host c category => cases told
  | sweep host => cases told
  | release frame =>
    obtain ⟨moves, gone⟩ := effect .generous
    refine ⟨{ frame := some frame }, moves, fun x touched => ?_, gone,
      fun handle letsGo => absurd letsGo (Host.not_letsGo_generous handle), ?_, nofun, nofun, nofun⟩
    · cases x with
      | frameLocal f name => exact congrArg some (Eq.symm touched)
      | _ => cases touched
    · rintro f ⟨⟩
      exact .inr rfl

theorem Step.moved {step : Step K} (valid : step.Valid tracer) (sane : step.before.Unpoisoned)
    (same : ∀ host, step.act.host? = some host → host.objectOf = objectOf) :
    ∃ host reach, step.Moved objectOf host reach := by
  cases told : step.act.host? with
  | none => exact ⟨.generous, Step.moved_of_release valid sane told⟩
  | some host => exact ⟨host, Step.moved_of_host valid sane told (same host told)⟩

namespace Step.Moved

variable {step : Step K} {host : Host K} {reach : Reach K}

/-- The owner of a slot that has been used is known to the tracer. -/
theorem shows_owner (h : step.Moved objectOf host reach) {x : Slot K} {handle : Handle K}
    (near : reach.Near x) (owner : x.owner = some handle) :
    step.act.Shows objectOf handle ∨ (∃ f, handle = .frame f ∧ step.access = .resets f) ∨
      ∃ o, handle = .object o ∧
        ∃ node ∈ step.before.store.nodes, node.value.bind objectOf = some o := by
  cases x with
  | frameLocal f name =>
    cases owner
    exact (h.frame f near).imp_right fun resets => .inl ⟨f, rfl, resets⟩
  | property o name =>
    cases owner
    exact .inr (.inr ⟨o, rfl, h.object o near⟩)
  | classVariable c name =>
    cases owner
    exact .inl (h.scope c near)
  | global name => cases owner

/-- A slot that is not touched keeps its node, unless the host has let go of its owner. -/
theorem untouched (h : step.Moved objectOf host reach) (x : Slot K)
    (untouched : ¬ step.access.Touches x) :
    step.after.current x = step.before.current x ∨
      ∃ handle, x.owner = some handle ∧ handle.Dropped step.after ∧ host.LetsGo handle := by
  by_cases near : reach.Near x
  · exact .inl (h.moves.near x near untouched)
  · cases x with
    | frameLocal f name =>
      refine (h.moves.frames f near).imp (fun same => ?_) fun dropped => ⟨.frame f, rfl, dropped⟩
      rw [current, current, recordOf, recordOf]
      cases before : step.before.record? f with
      | none =>
        rw [before] at same
        rw [Option.map_eq_none_iff.mp same]
      | some record =>
        rw [before] at same
        obtain ⟨record', after, histories⟩ := Option.map_eq_some_iff.mp same
        rw [after]
        exact congrArg (fun histories => (histories.getD name []).head?) histories
    | property o name =>
      refine (h.moves.objects o near).imp (fun same => ?_) fun dropped => ⟨.object o, rfl, dropped⟩
      rw [current, current, objectSlots, objectSlots, same]
    | classVariable c name =>
      refine (h.moves.scopes c near).imp (fun same => ?_) fun dropped => ⟨.scope c, rfl, dropped⟩
      rw [current, current, scopeSlots, scopeSlots, same]
    | global name => exact absurd trivial near

end Step.Moved

/-! ### What a whole run keeps -/

/-- The host has let go of an entity after it had been shown. -/
def GivenUp (objectOf : K.Value → Option K.Object) (past : List (Step K)) (handle : Handle K) : Prop :=
  ∃ before step after host, past = before ++ step :: after ∧ step.act.host? = some host ∧
    Act.Shown objectOf ((before ++ [step]).map (·.act)) handle ∧ host.LetsGo handle

/-- No node refers to the entity. -/
def Handle.Absent (objectOf : K.Value → Option K.Object) (s : Shadow K) : Handle K → Prop
  | .object o => ∀ node ∈ s.store.nodes, node.value.bind objectOf ≠ some o
  | _ => True

variable {past : List (Step K)} {step : Step K} {handle : Handle K}

theorem GivenUp.later (h : GivenUp objectOf past handle) (step : Step K) :
    GivenUp objectOf (past ++ [step]) handle := by
  obtain ⟨before, last, after, host, rfl, rest⟩ := h
  exact ⟨before, last, after ++ [step], host, by simp, rest⟩

/-- A faithful host does not show what it has let go of. -/
theorem GivenUp.not_shows (h : GivenUp objectOf past handle)
    (faithful : Faithful objectOf ((past ++ [step]).map (·.act))) :
    ¬ step.act.Shows objectOf handle := by
  intro shows'
  obtain ⟨before, last, after, host, rfl, told, shown, letsGo⟩ := h
  refine faithful.keeps (before.map (·.act)) last.act ((after ++ [step]).map (·.act)) host handle
    (by simp) told ?_ ?_ letsGo
  · simpa using shown
  · exact ⟨step.act, by simp, shows'⟩

/-- After some steps every slot holds what they have made of it, unless it has been dropped with its
    owner; and all that the state knows of has been shown. -/
structure Told (objectOf : K.Value → Option K.Object) (past : List (Step K)) (s : Shadow K) :
    Prop where
  sane : s.Unpoisoned
  slots : ∀ x, Reaches x (Step.since x past) (s.current x) ∨
    ∃ handle, x.owner = some handle ∧ GivenUp objectOf past handle ∧ handle.Absent objectOf s
  owners : ∀ x node handle, s.current x = some node → x.owner = some handle →
    Act.Shown objectOf (past.map (·.act)) handle
  objects : ∀ node ∈ s.store.nodes, ∀ o, node.value.bind objectOf = some o →
    Act.Shown objectOf (past.map (·.act)) (.object o)

theorem Told.congr {s t : Shadow K} (h : Told objectOf past s) (same : SameState s t) :
    Told objectOf past t where
  sane := same.unpoisoned h.sane
  slots x := by
    rw [current_congr same.1]
    refine (h.slots x).imp_right ?_
    rintro ⟨handle, owner, given, absent⟩
    refine ⟨handle, owner, given, ?_⟩
    cases handle with
    | object o => exact fun node mem => absent node (same.nodes ▸ mem)
    | frame => trivial
    | scope => trivial
  owners x node handle now := h.owners x node handle (current_congr same.1 x ▸ now)
  objects node mem := h.objects node (same.nodes ▸ mem)

theorem shown_concat : Act.Shown objectOf ((past ++ [step]).map (·.act)) handle ↔
    Act.Shown objectOf (past.map (·.act)) handle ∨ step.act.Shows objectOf handle := by
  rw [List.map_append, List.map_singleton, Act.shown_append, Act.shown_singleton]

section Step

variable {host : Host K} {reach : Reach K} (h : Told objectOf past step.before)
  (moved : step.Moved objectOf host reach)

include h moved

theorem Told.objects_step (node : Node K.Value) (mem : node ∈ step.after.store.nodes) (o : K.Object)
    (behind : node.value.bind objectOf = some o) :
    Act.Shown objectOf ((past ++ [step]).map (·.act)) (.object o) := by
  refine shown_concat.mpr ?_
  rcases moved.moves.nodes node mem with none' | new | ⟨old, there, same⟩
  · rw [none'] at behind
    cases behind
  · exact .inr (moved.value o (new ▸ behind))
  · exact .inl (h.objects old there o (same ▸ behind))

theorem Told.owners_step (x : Slot K) (node : Node K.Value) (handle : Handle K)
    (now : step.after.current x = some node) (owner : x.owner = some handle) :
    Act.Shown objectOf ((past ++ [step]).map (·.act)) handle := by
  refine shown_concat.mpr ?_
  by_cases touched : step.access.Touches x
  · rcases moved.shows_owner (moved.near x touched) owner with
      shows' | ⟨f, rfl, resets⟩ | ⟨o, rfl, old, there, behind⟩
    · exact .inr shows'
    · have gone := moved.done
      rw [resets] at gone
      cases x with
      | frameLocal g name =>
        cases owner
        rw [gone name] at now
        cases now
      | _ => cases owner
    · exact .inl (h.objects old there o behind)
  · rcases moved.untouched x touched with same | ⟨handle', owner', dropped, -⟩
    · exact .inl (h.owners x node handle (same.symm.trans now) owner)
    · rw [dropped.current owner'] at now
      cases now

variable (faithful : Faithful objectOf ((past ++ [step]).map (·.act)))

include faithful

omit h in
/-- What no node refers to stays so once the host has let go of it. -/
theorem Told.absent_step (given : GivenUp objectOf past handle)
    (absent : handle.Absent objectOf step.before) : handle.Absent objectOf step.after := by
  cases handle with
  | object o =>
    intro node mem behind
    rcases moved.moves.nodes node mem with none' | new | ⟨old, there, same⟩
    · rw [none'] at behind
      cases behind
    · exact given.not_shows faithful (moved.value o (new ▸ behind))
    · exact absent old there (same ▸ behind)
  | frame => trivial
  | scope => trivial

/-- A slot that is dropped with its owner. -/
theorem Told.dropped (x : Slot K) (node : Node K.Value) (before : step.before.current x = some node)
    (owner : x.owner = some handle) (dropped : handle.Dropped step.after)
    (letsGo : host.LetsGo handle) :
    GivenUp objectOf (past ++ [step]) handle ∧ handle.Absent objectOf step.after := by
  have told : step.act.host? = some host := moved.host handle letsGo
  have shown : Act.Shown objectOf ((past ++ [step]).map (·.act)) handle :=
    shown_concat.mpr (.inl (h.owners x node handle before owner))
  refine ⟨⟨past, step, [], host, rfl, told, shown, letsGo⟩, ?_⟩
  cases x with
  | property o name =>
    cases owner
    have held : host.HeldByNodes o := faithful.nodes (past.map (·.act)) step.act [] host o (by simp)
      told (by simpa using shown)
    have there : step.before.store.objects.content? o ≠ none := by
      intro absent
      have gone : Handle.Dropped step.before (.object o) := absent
      rw [gone.current rfl] at before
      cases before
    intro other mem behind
    rcases moved.moves.lost o held there dropped other mem with new | elsewhere
    · -- the value has been shown in this very step, so the host has not let go of the object
      have shows' := moved.value o (new ▸ behind)
      refine faithful.keeps (past.map (·.act)) step.act [] host (.object o) (by simp) told
        (by simpa using shown) ⟨step.act, List.mem_singleton.mpr rfl, shows'⟩ letsGo
    · rw [objectBehind, faithful.same step.act (by simp) host told] at elsewhere
      exact elsewhere behind
  | frameLocal f name =>
    cases owner
    trivial
  | classVariable c name =>
    cases owner
    trivial
  | global name => cases owner

omit moved in
theorem Told.next (valid : step.Valid tracer) : Told objectOf (past ++ [step]) step.after := by
  obtain ⟨host, reach, moved⟩ := Step.moved valid h.sane
    (faithful.same step.act (by simp))
  refine ⟨moved.moves.sane, fun x => ?_, h.owners_step moved, h.objects_step moved⟩
  rcases h.slots x with reaches | ⟨handle, owner, given, absent⟩
  · by_cases touched : step.access.Touches x
    · exact .inl (reaches.step moved.done fun far => absurd touched far)
    · rcases moved.untouched x touched with same | ⟨handle, owner, dropped, letsGo⟩
      · exact .inl (reaches.step moved.done fun _ => same)
      · cases before : step.before.current x with
        | none =>
          have same := (dropped.current owner).trans before.symm
          exact .inl (reaches.step moved.done fun _ => same)
        | some node =>
          exact .inr ⟨handle, owner, h.dropped moved faithful x node before owner dropped letsGo⟩
  · exact .inr ⟨handle, owner, given.later step, Told.absent_step moved faithful given absent⟩

end Step

/-- All steps of a faithful host are told of, from a state that knows nothing. -/
theorem Shadow.told (acts : List (Act K)) (interval nextSeq : Nat) (log : Log)
    (faithful : Faithful objectOf acts) {earlier later : List (Step K)} {step : Step K}
    (split : (⟨.ofInterval interval, nextSeq, log⟩ : Shadow K).steps tracer acts =
      earlier ++ step :: later) :
    step.Valid tracer ∧ Told objectOf earlier step.before ∧
      Faithful objectOf ((earlier ++ [step]).map (·.act)) := by
  have start : Told objectOf [] (⟨.ofInterval interval, nextSeq, log⟩ : Shadow K) := by
    have nothing : ∀ x, (⟨.ofInterval interval, nextSeq, log⟩ : Shadow K).current x = none := by
      intro x
      cases x <;> rfl
    refine ⟨unpoisoned_ofInterval interval nextSeq log, fun x => .inl ?_, fun x node handle now => ?_,
      fun node mem => by cases mem⟩
    · rw [nothing x]
      exact ⟨.inl rfl, fun read mem => absurd mem List.not_mem_nil⟩
    · rw [nothing x] at now
      cases now
  have along : Step.Along tracer (fun past s => Faithful objectOf (past.map (·.act)) →
      Told objectOf past s) [] ((⟨.ofInterval interval, nextSeq, log⟩ : Shadow K).steps tracer acts) :=
    (Shadow.along (fun past s t same told faithful => ?_)
      (fun past step valid told faithful => ?_) acts [] _ fun _ => start).1
  · rw [split] at along
    obtain ⟨valid, told⟩ := along.split
    rw [List.nil_append] at told
    have all : Faithful objectOf ((earlier ++ [step]).map (·.act) ++ later.map (·.act)) := by
      have steps : Faithful objectOf (((⟨.ofInterval interval, nextSeq, log⟩ : Shadow K).steps tracer
          acts).map (·.act)) := faithful.steps
      rw [split] at steps
      simpa using steps
    refine ⟨valid, told ?_, all.left⟩
    have upTo := all.left
    rw [List.map_append] at upTo
    exact upTo.left
  · exact (told faithful).congr same
  · have upTo := faithful
    rw [List.map_append] at upTo
    exact (told upTo.left).next faithful valid

/-! ### Reads -/

/-- What can be seen of a read on the stack: its own node, whose origins show the slot. -/
def Tracer.ReadDone (host : Host K) (c : Checkpoint K) (value : K.Value) (category : Category)
    (t : Shadow K) : Prop :=
  ∃ node below, (t.recordOf c.frame).stack = node :: below ∧ node.creator = creatorOf c.site ∧
    node.value = some value ∧ (slotOrigin category node).isSome ∧
    (category ≠ .usePropertyStackDefStack → (slotOf host c.site c.frame node category).isSome)

section ReadDone

variable {host : Host K} {c : Checkpoint K} {value : K.Value} {category : Category} {s t : Shadow K}

/-- The node on top, once the rule has pushed it. -/
theorem Tracer.ReadDone.of_push {record : Record K.Value} {seq next : Nat}
    {origins : List (Node K.Value)}
    (on : OnRecord host.MayDrop c.frame s t (record.push (c.site.node seq value origins)) next)
    (origin : (slotOrigin category (c.site.node seq value origins)).isSome)
    (slot : category ≠ .usePropertyStackDefStack →
      (slotOf host c.site c.frame (c.site.node seq value origins) category).isSome) :
    ReadDone host c value category t :=
  ⟨_, record.stack, by rw [on.recordOf]; rfl, rfl, rfl, origin, slot⟩

/-- A rule that reads a slot fails or leaves its node. -/
theorem Tracer.leave_read (sane : s.Unpoisoned) (reads : category.readsSlot = true) :
    Ends (applyLeave tracer host c.site c.frame value category) s fun r t =>
      r.isOk = true → ReadDone host c value category t := by
  cases category with
  | useLocalDefStack =>
    cases found : c.site.localSlot with
    | none =>
      refine .of_run (run_leave_lacking rfl (congrArg Option.isSome found)) fun ok => ?_
      cases ok
    | some name =>
      refine (leave_readLocal sane name found).mono fun r t done _ => ?_
      exact .of_push done.2 rfl fun _ => by rw [slotOf, found]; rfl
  | usePropertyStackDefStack =>
    cases found : c.site.property with
    | none =>
      refine .of_run (run_leave_lacking rfl (congrArg Option.isSome found)) fun ok => ?_
      cases ok
    | some name =>
      rcases run : (takeReceiver c.site (.readWithoutReceiver c.site.id c.site.label)).run.run
        (s.recordOf c.frame, s.nextSeq) with ⟨operands, record, next⟩
      refine (leave_fetchProperty sane name found run).mono fun r t done ok => ?_
      cases operands with
      | error fault =>
        obtain ⟨rfl, -⟩ := done
        cases ok
      | ok operands =>
        obtain ⟨-, mid, late, slot, seq, -, -, on⟩ := done
        refine .of_push on ?_ (absurd rfl)
        rw [slotOrigin, if_pos rfl, Site.node, List.getLast?_concat]
        rfl
  | useClassVarDefStack =>
    cases found : c.site.classVariable with
    | none =>
      refine .of_run (run_leave_lacking rfl (congrArg Option.isSome found)) fun ok => ?_
      cases ok
    | some owned =>
      refine (leave_readClassVariable sane owned found).mono fun r t done _ => ?_
      obtain ⟨-, mid, -, on⟩ := done
      exact .of_push on rfl fun _ => by rw [slotOf, found]; rfl
  | useGlobalDefStack =>
    cases found : c.site.globalName with
    | none =>
      refine .of_run (run_leave_lacking rfl (congrArg Option.isSome found)) fun ok => ?_
      cases ok
    | some name =>
      refine (leave_readGlobal sane name found).mono fun r t done _ => ?_
      obtain ⟨-, mid, -, on⟩ := done
      exact .of_push on rfl fun _ => by rw [slotOf, found]; rfl
  | _ => cases reads

end ReadDone

/-- A slot that the rule of a step has read, at the node of the read. -/
theorem Step.access_of_read {step : Step K} {host : Host K} {c : Checkpoint K} {category : Category}
    {value : K.Value} {node origin : Node K.Value} {below : List (Node K.Value)} {slot : Slot K}
    (deed : step.deed = .rule host c category) (moment : c.moment = .leave value)
    (built : step.done = true) (reads : category.readsSlot = true)
    (stack : (step.after.recordOf c.frame).stack = node :: below)
    (used : slotOf host c.site c.frame node category = some slot)
    (found : slotOrigin category node = some origin) : step.access = .reads slot origin := by
  rw [access, deed, built]
  dsimp only
  rw [moment, if_pos rfl]
  dsimp only
  rw [accessOf, stack]
  dsimp only
  rw [used, found, reads]
  rfl

/-- What a faithful host has let go of is not read. -/
theorem Told.reaches {host : Host K} {reach : Reach K} {x : Slot K} (h : Told objectOf past step.before)
    (faithful : Faithful objectOf ((past ++ [step]).map (·.act)))
    (moved : step.Moved objectOf host reach) {origin : Node K.Value}
    (access : step.access = .reads x origin) :
    Reaches x (Step.since x past) (step.before.current x) := by
  refine (h.slots x).resolve_right ?_
  rintro ⟨handle, owner, given, absent⟩
  have touched : step.access.Touches x := by
    rw [access]
    rfl
  rcases moved.shows_owner (moved.near x touched) owner with
    shows' | ⟨f, -, resets⟩ | ⟨o, rfl, node, there, behind⟩
  · exact given.not_shows faithful shows'
  · rw [access] at resets
    cases resets
  · exact absent node there behind

/-- Whenever a rule reads a slot, the origin of its node that stands for the slot is the node written
    there last, if one has been since the slot was given up with its frame; otherwise it is an unknown
    node, which is the one that all reads since then have found. What counts as written is in the slot
    after the step that has written it. -/
theorem Shadow.reads_find_last_written {acts : List (Act K)} (faithful : Faithful objectOf acts)
    (interval nextSeq : Nat) (log : Log) {earlier later : List (Step K)} {step : Step K}
    (split : (⟨.ofInterval interval, nextSeq, log⟩ : Shadow K).steps tracer acts =
      earlier ++ step :: later)
    {host : Host K} {c : Checkpoint K} {category : Category} {value : K.Value}
    (deed : step.deed = .rule host c category) (moment : c.moment = .leave value)
    (built : step.done = true) (reads : category.readsSlot = true) :
    ∃ node below, (step.after.recordOf c.frame).stack = node :: below ∧
      node.creator = creatorOf c.site ∧ node.value = some value ∧
      (category ≠ .usePropertyStackDefStack →
        (slotOf host c.site c.frame node category).isSome) ∧
      ∀ slot, slotOf host c.site c.frame node category = some slot →
        ∃ origin, slotOrigin category node = some origin ∧
          (match (Step.since slot earlier).findSome? (·.access.written? slot) with
          | some written => origin = written
          | none => (∃ seq, origin = .unknown seq) ∧
              ∀ read ∈ Step.since slot earlier, ∀ other, read.access = .reads slot other →
                other = origin) ∧
          ∀ write ∈ earlier, ∀ written, write.access.written? slot = some written →
            write.after.current slot = some written := by
  obtain ⟨valid, told, upTo⟩ := Shadow.told acts interval nextSeq log faithful split
  obtain ⟨node, below, stack, creator, known, origin, isSlot⟩ :
      ReadDone host c value category step.after := by
    have rule : Ends (applyLeave tracer host c.site c.frame value category) step.before fun r t =>
        r.isOk = true → ReadDone host c value category t := leave_read told.sane reads
    rw [Step.Valid, deed] at valid
    dsimp only at valid
    rw [Tracer.rule, moment] at valid
    obtain ⟨after, done⟩ := valid
    rw [after]
    exact rule (done.symm.trans built)
  refine ⟨node, below, stack, creator, known, isSlot, fun slot used => ?_⟩
  obtain ⟨origin, found⟩ := Option.isSome_iff_exists.mp origin
  have access := Step.access_of_read deed moment built reads stack used found
  obtain ⟨host', reach, moved⟩ := Step.moved valid told.sane (upTo.same step.act (by simp))
  have done := moved.done
  rw [access] at done
  obtain ⟨-, before⟩ := done
  refine ⟨origin, found, ?_, fun write mem written wrote => ?_⟩
  · have reaches := told.reaches upTo moved access
    unfold Reaches at reaches
    cases last : (Step.since slot earlier).findSome? (·.access.written? slot) with
    | some written =>
      rw [last] at reaches
      rcases before with same | ⟨absent, -⟩
      · exact Option.some.inj (same.symm.trans reaches)
      · exact absurd (reaches.symm.trans absent) (Option.some_ne_none written)
    | none =>
      rw [last] at reaches
      obtain ⟨unknown, earlierReads⟩ := reaches
      rcases before with same | ⟨absent, seq, rfl⟩
      · rw [same] at unknown earlierReads
        refine ⟨?_, fun read mem other own => ?_⟩
        · obtain ⟨seq, isUnknown⟩ := unknown.resolve_left (Option.some_ne_none origin)
          exact ⟨seq, Option.some.inj isUnknown⟩
        · exact (Option.some.inj (earlierReads read mem other own)).symm
      · refine ⟨⟨seq, rfl⟩, fun read mem other own => ?_⟩
        rw [absent] at earlierReads
        cases earlierReads read mem other own
  · obtain ⟨first, rest, rfl⟩ := List.append_of_mem mem
    have at' : (⟨.ofInterval interval, nextSeq, log⟩ : Shadow K).steps tracer acts =
        first ++ write :: (rest ++ step :: later) := by
      rw [split, List.append_assoc]
      rfl
    obtain ⟨valid', told', upTo'⟩ := Shadow.told acts interval nextSeq log faithful at'
    obtain ⟨host', reach, moved'⟩ := Step.moved valid' told'.sane (upTo'.same write.act (by simp))
    have done := moved'.done
    cases access : write.access with
    | writes other node =>
      rw [access, Access.written?] at wrote
      rw [access] at done
      split at wrote
      · next same =>
        subst same
        exact done.trans wrote
      · cases wrote
    | _ =>
      rw [access] at wrote
      cases wrote

/-! A host that owns nothing but one frame: a local is written there, all tables are swept at every
insertion and once more, and the local is read. -/

namespace WriteThenRead

/-- Frames, objects, scopes and values are numbers. -/
abbrev numbers : Kinds where
  Frame := Nat
  Object := Nat
  Scope := Nat
  Value := Nat
  inspect := toString

def host : Host numbers where
  callerOf _ := none
  argumentCount _ := 0
  objectOf _ := none
  survivors _ := ⟨fun frame => frame = 0, fun _ => false, fun _ => false⟩

def checkpoint (id : Nat) (label : String) (category : Category) (moment : Moment Nat) :
    Checkpoint numbers :=
  ⟨{ id := ⟨id⟩, label, categories := .single category, localSlot := some "x" }, 0, moment⟩

def reading : Checkpoint numbers := checkpoint 3 "x" .useLocalDefStack (.leave 7)

def acts : List (Act numbers) := [
  .checkpoint host (checkpoint 0 "main" .functionBoundary .enter),
  .checkpoint host (checkpoint 1 "7" .noUseDefStack (.leave 7)),
  .checkpoint host (checkpoint 2 "x = 7" .useStackDefLocalStack (.leave 7)),
  .sweep host,
  .checkpoint host reading]

def steps : List (Step numbers) := (⟨.ofInterval 1, 1, {}⟩ : Shadow numbers).steps {} acts

theorem host_of_mem {act : Act numbers} (mem : act ∈ acts) {h : Host numbers}
    (told : act.host? = some h) : h = host := by
  simp only [acts, List.mem_cons, List.not_mem_nil, or_false] at mem
  rcases mem with rfl | rfl | rfl | rfl | rfl <;> exact (Option.some.inj told).symm

theorem shown_frame {handle : Handle numbers} (h : Act.Shown (fun _ => none) acts handle) :
    handle = .frame 0 := by
  obtain ⟨act, mem, shows'⟩ := h
  cases handle with
  | frame f =>
    simp only [acts, List.mem_cons, List.not_mem_nil, or_false] at mem
    rcases mem with rfl | rfl | rfl | rfl | rfl
    case inr.inr.inr.inl => cases shows'
    all_goals exact congrArg Handle.frame (Eq.symm shows')
  | object o =>
    cases act with
    | checkpoint =>
      obtain ⟨_, _, behind⟩ := shows'
      cases behind
    | _ => cases shows'
  | scope c =>
    simp only [acts, List.mem_cons, List.not_mem_nil, or_false] at mem
    rcases mem with rfl | rfl | rfl | rfl | rfl <;> cases shows'

theorem keeps_frame : ¬ host.LetsGo (.frame 0) := by
  rintro ⟨nodes, gone⟩
  cases gone

theorem faithful : Faithful (fun _ => none) acts := by
  refine .of_kept (fun act mem h told => ?_) (fun _ _ _ _ object object' => ?_)
    fun act mem h told handle handle' => ?_
  · rw [host_of_mem mem told]
    rfl
  · cases shown_frame object'
  · rw [host_of_mem mem told, shown_frame handle']
    exact keeps_frame

/-- The read finds the node of the assignment. -/
theorem reads_find_last_written_seven :
    ∃ earlier step node below written, steps = earlier ++ [step] ∧
      (step.after.recordOf 0).stack = node :: below ∧ node.origins = [written] ∧
      written.creator = some ⟨⟨2⟩, "x = 7"⟩ := by
  obtain ⟨earlier, step, split, deed, built, written, last, creator⟩ : ∃ earlier step,
      steps = earlier ++ [step] ∧ step.deed = .rule host reading .useLocalDefStack ∧
      step.done = true ∧ ∃ written,
      (Step.since (.frameLocal (0 : Nat) "x") earlier).findSome?
        (·.access.written? (.frameLocal (0 : Nat) "x")) = some written ∧
      written.creator = some ⟨⟨2⟩, "x = 7"⟩ :=
    ⟨steps.take 4, _, by with_unfolding_all rfl, by with_unfolding_all rfl,
      by with_unfolding_all rfl, _, by with_unfolding_all rfl, by with_unfolding_all rfl⟩
  obtain ⟨node, below, stack, -, -, -, reads⟩ := Shadow.reads_find_last_written faithful 1 1 {}
    split deed rfl built rfl
  obtain ⟨origin, found, reached, -⟩ := reads (.frameLocal 0 "x") rfl
  rw [last] at reached
  refine ⟨earlier, step, node, below, written, split, stack, ?_, creator⟩
  rw [← reached]
  unfold slotOrigin at found
  rw [if_neg (by decide)] at found
  split at found
  · next one =>
    rw [one, Option.some.inj found]
  · cases found

end WriteThenRead

end Lineage
