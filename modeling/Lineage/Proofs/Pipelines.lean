import Lineage.Proofs.Listening

/-!
# Pipelines within pipelines

However a pipeline is put together, it tells its leaves of a checkpoint as one flat list would: from
left to right, up to the first that refuses. What the nesting adds is in the log alone, where every
pipeline around the leaf that refused blames whom it stands around: `PipelinePlan.react_build`.
-/

namespace Lineage

variable {K : Kinds} {S : Type} {host : Host K} {c : Checkpoint K}

/-- The log once a pipeline has noted that its listener of that name refused the checkpoint. -/
def Log.blame (c : Checkpoint K) (fault : Fault) (log : Log) (name : String) : Log :=
  log.add .warn "Listener rejected checkpoint" <|
    [("listener", name), ("checkpoint", c.moment.name)] ++ Checkpoint.siteFields c.site ++
      [("error", fault.message)]

namespace Stage

/-- The stage once pipelines have noted a refusal, each with the name that it blames. -/
def blaming (c : Checkpoint K) (fault : Fault) (names : List String) (stage : Stage K S) :
    Stage K S :=
  { stage with shadow :=
      { stage.shadow with log := names.foldl (Log.blame c fault) stage.shadow.log } }

/-- The two stages differ in their log at most. -/
def SameState (stage stage' : Stage K S) : Prop :=
  Shadow.SameState stage.shadow stage'.shadow ∧ stage.own = stage'.own

/-- The stage with a tally of the leaves told so far. -/
def tallied (stage : Stage K S) (tally : List Nat) : Stage K (S × List Nat) where
  shadow := stage.shadow
  own := (stage.own, tally)

/-- The stage without its tally. -/
def untallied (stage : Stage K (S × List Nat)) : Stage K S where
  shadow := stage.shadow
  own := stage.own.1

end Stage

namespace Listener

/-- The listener does not look at the log. -/
def IgnoresLog (l : Listener K S) : Prop :=
  ∀ host c stage stage', Stage.SameState stage stage' →
    Twin Stage.SameState stage stage' (l.react host c) (l.react host c)

theorem own_ignoresLog (name : String) (react : Checkpoint K → ExceptT Fault (StateM S) Unit) :
    (own name react).IgnoresLog := by
  intro host c stage stage' same
  obtain ⟨shadow, own⟩ := stage
  obtain ⟨shadow', own'⟩ := stage'
  obtain ⟨same, rfl⟩ : Shadow.SameState shadow shadow' ∧ own = own' := same
  exact ⟨rfl, same, rfl⟩

theorem checkpointLog_ignoresLog : (checkpointLog : Listener K S).IgnoresLog :=
  fun _ _ _ _ same => ⟨rfl, ⟨same.1.1, same.1.2⟩, same.2⟩

theorem ofTracer_ignoresLog (tracer : Tracer) : (ofTracer tracer : Listener K S).IgnoresLog := by
  intro host c stage stage' same
  have blind : LogBlind stage.shadow stage'.shadow (tracer.react host c) (tracer.react host c) :=
    Tracer.twin_react tracer tracer c same.1
  obtain ⟨answer, after⟩ := blind
  exact ⟨answer, after, same.2⟩

/-- The listener writes the number down when it is told. -/
def tallied (l : Listener K S) (number : Nat) : Listener K (S × List Nat) where
  name := l.name
  react host c := fun stage =>
    let (result, after) := (l.react host c).run.run stage.untallied
    (result, after.tallied (stage.own.2 ++ [number]))

/-- All of the listeners accept the checkpoint, one after the other. -/
def AcceptOn (host : Host K) (c : Checkpoint K) : List (Listener K S) → Stage K S → Stage K S → Prop
  | [], stage, after => after = stage
  | l :: rest, stage, after =>
      ∃ mid, (l.react host c).run.run stage = (.ok (), mid) ∧ AcceptOn host c rest mid after

/-- How many of the listeners are told of the checkpoint until one refuses it. -/
def asked (host : Host K) (c : Checkpoint K) : List (Listener K S) → Stage K S → Nat
  | [], _ => 0
  | l :: rest, stage =>
      match (l.react host c).run.run stage with
      | (.ok _, mid) => asked host c rest mid + 1
      | (.error _, _) => 1

theorem asked_append {earlier rest : List (Listener K S)} {stage mid : Stage K S}
    (accepted : AcceptOn host c earlier stage mid) :
    asked host c (earlier ++ rest) stage = earlier.length + asked host c rest mid := by
  induction earlier generalizing stage with
  | nil =>
    obtain rfl : mid = stage := accepted
    simp
  | cons l earlier ih =>
    obtain ⟨next, told, accepted⟩ := accepted
    have := ih accepted
    simp only [List.cons_append, asked, told, List.length_cons]
    omega

theorem asked_of_accepting {listeners : List (Listener K S)} {stage after : Stage K S}
    (accepted : AcceptOn host c listeners stage after) :
    asked host c listeners stage = listeners.length := by
  have count : asked host c (listeners ++ []) stage = listeners.length + asked host c [] after :=
    asked_append accepted
  simpa [asked] using count

theorem asked_of_refusal {earlier later : List (Listener K S)} {l : Listener K S}
    {stage mid refused : Stage K S} {fault : Fault} (accepted : AcceptOn host c earlier stage mid)
    (told : (l.react host c).run.run mid = (.error fault, refused)) :
    asked host c (earlier ++ l :: later) stage = earlier.length + 1 := by
  rw [asked_append accepted, asked, told]

end Listener

open Listener

/-- The stage after a pipeline has been told of some checkpoints; the host goes on after refusals. -/
def Pipeline.afterAll (p : Pipeline K S) (stage : Stage K S) (told : List (Host K × Checkpoint K)) :
    Stage K S :=
  told.foldl (fun stage (host, c) => ((p.react host c).run.run stage).2) stage

theorem Pipeline.afterAll_cons (p : Pipeline K S) (stage : Stage K S)
    (told : List (Host K × Checkpoint K)) :
    p.afterAll stage ((host, c) :: told) =
      p.afterAll ((p.react host c).run.run stage).2 told := rfl

namespace PipelinePlan

/-- Whom pipelines blame that stand one inside the other around a leaf, innermost first. -/
def culprits (leaf : String) : Nat → List String
  | 0 => []
  | depth + 1 => leaf :: List.replicate depth "pipeline"

theorem length_culprits (leaf : String) (depth : Nat) : (culprits leaf depth).length = depth := by
  cases depth <;> simp [culprits]

theorem culprits_succ (leaf : String) {depth : Nat} (inside : 0 < depth) :
    culprits leaf (depth + 1) = culprits leaf depth ++ ["pipeline"] := by
  cases depth with
  | zero => exact absurd inside (Nat.lt_irrefl 0)
  | succ depth => simp [culprits, List.replicate_succ']

/-- A leaf and how many pipelines it stands in. -/
abbrev Place (K : Kinds) (S : Type) : Type := Listener K S × Nat

def Place.deeper (place : Place K S) : Place K S := (place.1, place.2 + 1)

/-- The leaves of the plan from left to right, each with the number of pipelines around it. -/
def places : PipelinePlan K S → List (Place K S)
  | done => []
  | listener l rest => (l, 1) :: rest.places
  | nested inner rest => inner.places.map Place.deeper ++ rest.places
  | merged inner rest => inner.places ++ rest.places

theorem map_fst_places (plan : PipelinePlan K S) : plan.places.map Prod.fst = plan.leaves := by
  induction plan with
  | done => rfl
  | listener l rest ih => simp [places, leaves, ih]
  | nested inner rest ihInner ihRest =>
    have forget : (Prod.fst ∘ Place.deeper : Place K S → Listener K S) = Prod.fst := rfl
    simp [places, leaves, forget, ihInner, ihRest]
  | merged inner rest ihInner ihRest => simp [places, leaves, ihInner, ihRest]

theorem inside_of_mem_places {plan : PipelinePlan K S} {place : Place K S}
    (mem : place ∈ plan.places) : 0 < place.2 := by
  induction plan generalizing place with
  | done => cases mem
  | listener l rest ih =>
    rcases List.mem_cons.mp mem with rfl | mem
    · exact Nat.one_pos
    · exact ih mem
  | nested inner rest ihInner ihRest =>
    rcases List.mem_append.mp mem with mem | mem
    · obtain ⟨place, -, rfl⟩ := List.mem_map.mp mem
      exact Nat.succ_pos _
    · exact ihRest mem
  | merged inner rest ihInner ihRest =>
    rcases List.mem_append.mp mem with mem | mem
    · exact ihInner mem
    · exact ihRest mem

/-! ### Leaves in a flat list -/

/-- Tells a leaf of a checkpoint; the pipelines around it note its refusal. -/
def tellAt (host : Host K) (c : Checkpoint K) (place : Place K S) : StageM K S Unit :=
  tryCatch (place.1.react host c) fun fault => do
    modify (Stage.blaming c fault (culprits place.1.name place.2))
    throw fault

/-- Tells the leaves one after the other until one refuses. -/
def tellAll (host : Host K) (c : Checkpoint K) (places : List (Place K S)) : StageM K S Unit :=
  places.forM (tellAt host c)

theorem run_tellAt (place : Place K S) (stage : Stage K S) :
    (tellAt host c place).run.run stage =
      match (place.1.react host c).run.run stage with
      | (.ok _, after) => (.ok (), after)
      | (.error fault, after) =>
          (.error fault, after.blaming c fault (culprits place.1.name place.2)) := by
  unfold tellAt
  rw [run_tryCatch]
  rcases (place.1.react host c).run.run stage with ⟨fault | _, after⟩ <;> rfl

theorem run_tellAll_cons (place : Place K S) (rest : List (Place K S)) (stage : Stage K S) :
    (tellAll host c (place :: rest)).run.run stage =
      match (place.1.react host c).run.run stage with
      | (.ok _, mid) => (tellAll host c rest).run.run mid
      | (.error fault, after) =>
          (.error fault, after.blaming c fault (culprits place.1.name place.2)) := by
  change (tellAt host c place >>= fun _ => tellAll host c rest).run.run stage = _
  rw [run_bind, run_tellAt]
  rcases (place.1.react host c).run.run stage with ⟨fault | _, after⟩ <;> rfl

theorem tellAll_append (places later : List (Place K S)) :
    tellAll host c (places ++ later) = tellAll host c places >>= fun _ => tellAll host c later :=
  List.forM_append

theorem run_tellAll_ok_iff {places : List (Place K S)} {stage after : Stage K S} :
    (tellAll host c places).run.run stage = (.ok (), after) ↔
      AcceptOn host c (places.map Prod.fst) stage after := by
  induction places generalizing stage with
  | nil => exact ⟨fun h => (Prod.mk.inj h).2.symm, fun h => congrArg _ h.symm⟩
  | cons place rest ih =>
    rw [run_tellAll_cons, List.map_cons]
    unfold AcceptOn
    rcases (place.1.react host c).run.run stage with ⟨fault | _, mid⟩
    · exact ⟨nofun, nofun⟩
    · dsimp only
      rw [ih]
      constructor
      · intro accepted
        exact ⟨mid, rfl, accepted⟩
      · intro ⟨next, same, accepted⟩
        cases same
        exact accepted

/-- What the flat list answers is the refusal of its first leaf that does not accept. -/
theorem run_tellAll_error_iff {places : List (Place K S)} {stage after : Stage K S} {fault : Fault} :
    (tellAll host c places).run.run stage = (.error fault, after) ↔
      ∃ earlier l depth later mid refused, places = earlier ++ (l, depth) :: later ∧
        AcceptOn host c (earlier.map Prod.fst) stage mid ∧
        (l.react host c).run.run mid = (.error fault, refused) ∧
        after = refused.blaming c fault (culprits l.name depth) := by
  induction places generalizing stage with
  | nil =>
    constructor
    · intro ran
      cases ran
    · intro ⟨earlier, _, _, _, _, _, split, _⟩
      cases earlier <;> cases split
  | cons place rest ih =>
    rw [run_tellAll_cons]
    constructor
    · intro ran
      rcases told : (place.1.react host c).run.run stage with ⟨refusal | _, mid⟩
      · rw [told] at ran
        cases ran
        exact ⟨[], place.1, place.2, rest, stage, mid, rfl, rfl, told, rfl⟩
      · rw [told] at ran
        obtain ⟨earlier, l, depth, later, mid', refused, rfl, accepted, refusal, last⟩ := ih.mp ran
        exact ⟨place :: earlier, l, depth, later, mid', refused, rfl, ⟨mid, told, accepted⟩,
          refusal, last⟩
    · intro ⟨earlier, l, depth, later, mid, refused, split, accepted, refusal, last⟩
      cases earlier with
      | nil =>
        obtain ⟨rfl, rfl⟩ := List.cons.inj split
        obtain rfl : mid = stage := accepted
        rw [refusal, last]
      | cons first earlier =>
        obtain ⟨rfl, rfl⟩ := List.cons.inj split
        obtain ⟨next, told, accepted⟩ := accepted
        rw [told]
        exact ih.mpr ⟨earlier, l, depth, later, mid, refused, rfl, accepted, refusal, last⟩

/-! ### A plan as a flat list -/

/-- A pipeline as a listener passes on what its listeners say, and is blamed in its turn. -/
theorem tell_asListener {p : Pipeline K S} {inner : List (Place K S)}
    (inside : ∀ place ∈ inner, 0 < place.2) (h : p.react host c = tellAll host c inner) :
    Pipeline.tell host c p.asListener = tellAll host c (inner.map Place.deeper) := by
  funext stage
  refine (run_tellAt (p.asListener, 1) stage).trans ?_
  change (match (p.react host c).run.run stage with
    | (.ok _, after) => ((.ok (), after) : Except Fault Unit × Stage K S)
    | (.error fault, after) => (.error fault, after.blaming c fault ["pipeline"])) =
      (tellAll host c (inner.map Place.deeper)).run.run stage
  rw [h]
  clear h
  induction inner generalizing stage with
  | nil => rfl
  | cons place rest ih =>
    rw [List.map_cons, run_tellAll_cons, run_tellAll_cons]
    unfold Place.deeper
    dsimp only
    rw [culprits_succ _ (inside place List.mem_cons_self)]
    rcases (place.1.react host c).run.run stage with ⟨fault | _, mid⟩
    · simp [Stage.blaming]
    · exact ih (fun place mem => inside place (List.mem_cons_of_mem _ mem)) mid

theorem react_push (p : Pipeline K S) (l : Listener K S) :
    (p.push l).react host c = p.react host c >>= fun _ => Pipeline.tell host c l := by
  have last : [l].forM (Pipeline.tell host c) = Pipeline.tell host c l := bind_pure_unit
  exact List.forM_append.trans (congrArg _ (funext fun _ => last))

theorem react_merge (p q : Pipeline K S) :
    (p.merge q).react host c = p.react host c >>= fun _ => q.react host c :=
  List.forM_append

theorem react_extend (plan : PipelinePlan K S) (p : Pipeline K S) :
    (plan.extend p).react host c =
      p.react host c >>= fun _ => tellAll host c plan.places := by
  induction plan generalizing p with
  | done => exact bind_pure_unit.symm
  | listener l rest ih =>
    rw [extend, ih, react_push, bind_assoc]
    rfl
  | nested inner rest ihInner ihRest =>
    have built : (inner.extend {}).react host c = tellAll host c inner.places := ihInner {}
    rw [extend, ihRest, react_push, bind_assoc,
      tell_asListener (fun _ => inside_of_mem_places) built, places, tellAll_append]
  | merged inner rest ihInner ihRest =>
    have built : (inner.extend {}).react host c = tellAll host c inner.places := ihInner {}
    rw [extend, ihRest, react_merge, bind_assoc, built, places, tellAll_append]

/-- A pipeline tells its leaves as a flat list, whatever pipelines they stand in. -/
theorem react_build (plan : PipelinePlan K S) :
    plan.build.react host c = tellAll host c plan.places := react_extend plan {}

/-! ### Which leaves are told -/

/-- The plan with its leaves numbered from left to right, each of which writes its number down when it
    is told. -/
def tallied : PipelinePlan K S → Nat → PipelinePlan K (S × List Nat)
  | done, _ => done
  | listener l rest, first => listener (l.tallied first) (rest.tallied (first + 1))
  | nested inner rest, first =>
      nested (inner.tallied first) (rest.tallied (first + inner.leaves.length))
  | merged inner rest, first =>
      merged (inner.tallied first) (rest.tallied (first + inner.leaves.length))

def Place.tallied (numbered : Place K S × Nat) : Place K (S × List Nat) :=
  (numbered.1.1.tallied numbered.2, numbered.1.2)

theorem places_tallied (plan : PipelinePlan K S) (first : Nat) :
    (plan.tallied first).places = (plan.places.zipIdx first).map Place.tallied := by
  induction plan generalizing first with
  | done => rfl
  | listener l rest ih => simp [places, tallied, Place.tallied, ih]
  | nested inner rest ihInner ihRest =>
    have deeper : (Place.deeper ∘ Place.tallied : Place K S × Nat → _) =
        Place.tallied ∘ Prod.map Place.deeper id := rfl
    simp [places, tallied, ihInner, ihRest, List.zipIdx_append, List.zipIdx_map, deeper,
      ← map_fst_places inner]
  | merged inner rest ihInner ihRest =>
    simp [places, tallied, ihInner, ihRest, List.zipIdx_append, ← map_fst_places inner]

theorem run_placeTallied (place : Place K S) (number : Nat) (stage : Stage K (S × List Nat)) :
    ((Place.tallied (place, number)).1.react host c).run.run stage =
      let ran := (place.1.react host c).run.run stage.untallied
      (ran.1, ran.2.tallied (stage.own.2 ++ [number])) := rfl

/-- The tally shows which leaves were told, and makes no difference otherwise. -/
theorem run_tellAll_tallied (places : List (Place K S)) (first : Nat)
    (stage : Stage K (S × List Nat)) :
    (tellAll host c ((places.zipIdx first).map Place.tallied)).run.run stage =
      let ran := (tellAll host c places).run.run stage.untallied
      let told := asked host c (places.map Prod.fst) stage.untallied
      (ran.1, ran.2.tallied (stage.own.2 ++ List.range' first told)) := by
  induction places generalizing first stage with
  | nil =>
    change (Except.ok (), stage) = (Except.ok (), stage.untallied.tallied (stage.own.2 ++ []))
    rw [List.append_nil]
    rfl
  | cons place rest ih =>
    rw [List.zipIdx_cons, List.map_cons, List.map_cons, run_tellAll_cons, run_tellAll_cons]
    unfold asked
    rw [run_placeTallied]
    rcases (place.1.react host c).run.run stage.untallied with ⟨fault | _, mid⟩
    · rfl
    · dsimp only
      rw [ih]
      simp [Stage.tallied, Stage.untallied, List.range'_succ]

/-! ### The flat pipeline of the same leaves -/

theorem react_flat (listeners : List (Listener K S)) :
    (⟨listeners⟩ : Pipeline K S).react host c = tellAll host c (listeners.map (·, 1)) := by
  induction listeners with
  | nil => rfl
  | cons l rest ih => exact congrArg (tellAt host c (l, 1) >>= fun _ => ·) ih

/-- To leaves that do not look at the log it is all the same how often they are blamed. -/
theorem twin_tellAll {places : List (Place K S)} (ignores : ∀ place ∈ places, place.1.IgnoresLog)
    {stage stage' : Stage K S} (same : Stage.SameState stage stage') :
    Twin Stage.SameState stage stage' (tellAll host c places)
      (tellAll host c ((places.map Prod.fst).map (·, 1))) := by
  induction places generalizing stage stage' with
  | nil => exact twin_pure same ()
  | cons place rest ih =>
    obtain ⟨answer, after⟩ := ignores place List.mem_cons_self host c stage stage' same
    unfold Twin
    rw [List.map_cons, List.map_cons, run_tellAll_cons, run_tellAll_cons]
    dsimp only
    revert answer after
    rcases (place.1.react host c).run.run stage with ⟨r, mid⟩
    rcases (place.1.react host c).run.run stage' with ⟨r', mid'⟩
    intro answer after
    obtain rfl : r = r' := answer
    cases r with
    | error fault => exact ⟨rfl, after⟩
    | ok _ => exact ih (fun place mem => ignores place (List.mem_cons_of_mem _ mem)) after

/-- A pipeline and the flat one of the same leaves go on alike. -/
theorem twin_react (plan : PipelinePlan K S) (ignores : ∀ l ∈ plan.leaves, l.IgnoresLog)
    {stage stage' : Stage K S} (same : Stage.SameState stage stage') :
    Twin Stage.SameState stage stage' (plan.build.react host c)
      ((⟨plan.leaves⟩ : Pipeline K S).react host c) := by
  rw [react_build, react_flat, ← map_fst_places]
  apply twin_tellAll _ same
  intro place mem
  apply ignores
  rw [← map_fst_places]
  exact List.mem_map_of_mem mem

/-! ### Checkpoint after checkpoint -/

section

variable (plan : PipelinePlan K S) (stage : Stage K S) (told : List (Host K × Checkpoint K))

theorem untallied_afterAll (stage : Stage K (S × List Nat)) :
    ((plan.tallied 0).build.afterAll stage told).untallied =
      plan.build.afterAll stage.untallied told := by
  induction told generalizing stage with
  | nil => rfl
  | cons first rest ih =>
    obtain ⟨host, c⟩ := first
    rw [Pipeline.afterAll_cons, Pipeline.afterAll_cons, ih, react_build, places_tallied,
      run_tellAll_tallied, ← react_build]
    rfl

theorem sameState_afterAll (ignores : ∀ l ∈ plan.leaves, l.IgnoresLog) {stage stage' : Stage K S}
    (same : Stage.SameState stage stage') :
    Stage.SameState (plan.build.afterAll stage told)
      ((⟨plan.leaves⟩ : Pipeline K S).afterAll stage' told) := by
  induction told generalizing stage stage' with
  | nil => exact same
  | cons first rest ih =>
    obtain ⟨host, c⟩ := first
    exact ih (plan.twin_react ignores same).2

/-- Whatever pipelines its leaves stand in, a pipeline tells them of a checkpoint from left to right,
    each once, up to and with the first that refuses. Its answer is that leaf's refusal, and what it
    does beyond telling the leaves is that every pipeline around that leaf notes the refusal,
    innermost first. Leaves that do not look at the log are thus as one flat pipeline would leave
    them. -/
theorem tells_leaves_in_order (host : Host K) (c : Checkpoint K) :
    let before := plan.build.afterAll stage told
    let answer := ((plan.build.react host c).run.run before).1
    let after := ((plan.build.react host c).run.run before).2
    -- the same with leaves that write down their number when they are told
    let tallied := (plan.tallied 0).build.afterAll (stage.tallied []) told
    let tallying := ((plan.tallied 0).build.react host c).run.run tallied
    (tallied.untallied = before ∧ tallying.1 = answer ∧ tallying.2.untallied = after) ∧
      (AcceptOn host c plan.leaves before after ∧ answer = .ok () ∧
          tallying.2.own.2 = tallied.own.2 ++ List.range plan.leaves.length ∨
        ∃ earlier l depth later mid refused fault,
          plan.places = earlier ++ (l, depth) :: later ∧
            AcceptOn host c (earlier.map Prod.fst) before mid ∧
            (l.react host c).run.run mid = (.error fault, refused) ∧
            answer = .error fault ∧
            after = refused.blaming c fault (culprits l.name depth) ∧
            (culprits l.name depth).length = depth ∧
            tallying.2.own.2 = tallied.own.2 ++ List.range (earlier.length + 1)) ∧
      ((∀ l ∈ plan.leaves, l.IgnoresLog) →
        let flat : Pipeline K S := ⟨plan.leaves⟩
        let flatly := (flat.react host c).run.run (flat.afterAll stage told)
        Stage.SameState before (flat.afterAll stage told) ∧ answer = flatly.1 ∧
          Stage.SameState after flatly.2) := by
  intro before answer after tallied tallying
  have bare : tallied.untallied = before := plan.untallied_afterAll told (stage.tallied [])
  have tally : tallying = (answer, after.tallied
      (tallied.own.2 ++ List.range (asked host c plan.leaves before))) := by
    unfold tallying
    rw [react_build, places_tallied, run_tellAll_tallied, bare, ← react_build, map_fst_places,
      List.range_eq_range']
  refine ⟨⟨bare, by rw [tally], by rw [tally]; rfl⟩, ?_, ?_⟩
  · rw [tally]
    have ran : (tellAll host c plan.places).run.run before = (answer, after) := by
      rw [← react_build]
      rfl
    cases outcome : answer with
    | ok _ =>
      rw [outcome] at ran
      have accepted := run_tellAll_ok_iff.mp ran
      rw [map_fst_places] at accepted
      apply Or.inl
      refine ⟨accepted, rfl, ?_⟩
      rw [asked_of_accepting accepted]
      rfl
    | error fault =>
      rw [outcome] at ran
      obtain ⟨earlier, l, depth, later, mid, refused, split, accepted, refusal, last⟩ :=
        run_tellAll_error_iff.mp ran
      apply Or.inr
      refine ⟨earlier, l, depth, later, mid, refused, fault, split, accepted, refusal, rfl, last,
        length_culprits .., ?_⟩
      rw [← map_fst_places, split, List.map_append, List.map_cons,
        asked_of_refusal accepted refusal, List.length_map]
      rfl
  · intro ignores
    have same : Stage.SameState (plan.build.afterAll stage told)
        ((⟨plan.leaves⟩ : Pipeline K S).afterAll stage told) :=
      plan.sameState_afterAll told ignores ⟨.refl _, rfl⟩
    exact ⟨same, plan.twin_react ignores same⟩

end

/-! Of three recorders the second stands in a pipeline of its own, after an empty one, and refuses the
entry. Two pipelines note it, and the third recorder has not been told. -/

namespace InnerRefusal

open Session.RefusedEntry (numbers interpreter entry refusing)

def plan : PipelinePlan numbers Journal :=
  .listener (Recorder.listener { number := 2, name := "outer" }) <|
    .merged (.nested .done (.nested (.listener refusing.listener .done) .done)) <|
      .listener (Recorder.listener { number := 3, name := "last" }) .done

def stage : Stage numbers Journal := ⟨{ log := { limit := some .warn } }, {}⟩

theorem plan_ignoresLog : ∀ l ∈ plan.leaves, l.IgnoresLog := by
  intro l mem
  simp only [plan, leaves, List.mem_cons, List.mem_append, List.not_mem_nil, or_false,
    false_or] at mem
  rcases mem with rfl | rfl | rfl <;> exact own_ignoresLog _ _

theorem tells_leaves_in_order_inner :
    (∀ l ∈ plan.leaves, l.IgnoresLog) ∧
      let (answer, after) := (plan.build.react interpreter entry).run.run stage
      let flatly := (Pipeline.react ⟨plan.leaves⟩ interpreter entry).run.run stage
      answer = flatly.1 ∧ Stage.SameState after flatly.2 ∧
        answer = .error (.violation (.reported "first rejected")) ∧
        after.shadow.log.events.map (·.fields.head?) =
          [some ("listener", "pipeline"), some ("listener", "first")] ∧
        (after.own.counts.get? 1, after.own.counts.get? 2, after.own.counts.get? 3) =
          (some 1, some 1, none) := by
  obtain ⟨-, -, flatly⟩ := plan.tells_leaves_in_order stage [] interpreter entry
  obtain ⟨-, answer, after⟩ := flatly plan_ignoresLog
  exact ⟨plan_ignoresLog, answer, after, rfl, rfl, rfl⟩

end InnerRefusal

end PipelinePlan

end Lineage
