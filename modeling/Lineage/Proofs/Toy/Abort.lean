import Lineage.Proofs.Toy.Stream
import Lineage.Recorder

/-!
# A refusal ends the run

What a program tells a listener that accepts everything is what it tells any other listener, up to the
first refusal. There the run is over: no code catches the refusal, and nothing is told any more.
-/

namespace Lineage.Toy

variable {S T : Type}

/-- From this stage on the listener accepts so many checkpoints, whatever they are and whatever is
    logged meanwhile, and refuses the one after them. -/
def RefusesAfter (l : Listener kinds S) : Nat → Stage kinds S → Prop
  | 0, stage => ∀ log host c, ∃ fault after,
      (l.react host c).run.run { stage with shadow := { stage.shadow with log } } =
        (.error fault, after)
  | k + 1, stage => ∀ log host c, ∃ after,
      (l.react host c).run.run { stage with shadow := { stage.shadow with log } } = (.ok (), after) ∧
        RefusesAfter l k after

namespace RefusesAfter

variable {l : Listener kinds S} {k : Nat} {stage : Stage kinds S}

theorem noted (h : RefusesAfter l k stage) (severity : Severity) (message : String)
    (fields : Fields) : RefusesAfter l k (stage.noted severity message fields) := by
  cases k with
  | zero => exact h
  | succ k => exact h

theorem refuses (h : RefusesAfter l 0 stage) (host : Host kinds) (c : Checkpoint kinds) :
    ∃ fault after, (l.react host c).run.run stage = (.error fault, after) :=
  h stage.shadow.log host c

theorem accepts (h : RefusesAfter l (k + 1) stage) (host : Host kinds) (c : Checkpoint kinds) :
    ∃ after, (l.react host c).run.run stage = (.ok (), after) ∧ RefusesAfter l k after :=
  h stage.shadow.log host c

end RefusesAfter

/-! ### The two runs -/

/-- Both listeners have been told the same, and the second will refuse after `k` checkpoints in all. -/
def Onward (l' : Listener kinds T) (k : Nat) (stage : Stage kinds (Journaled S))
    (stage' : Stage kinds (Journaled T)) : Prop :=
  stage'.own.2 = stage.own.2 ∧ ∃ left, stage'.own.2.length + left = k ∧ RefusesAfter l' left stage'.bare

/-- The second listener has been told what the first was told, up to the checkpoint that it refused. -/
def Aborted (l' : Listener kinds T) (k : Nat) (stage : Stage kinds (Journaled S)) (fault : Fault)
    (stage' : Stage kinds (Journaled T)) : Prop :=
  k < stage.own.2.length ∧ stage'.own.2 = stage.own.2.take (k + 1) ∧
    ∃ host c before, stage.own.2[k]? = some c ∧ RefusesAfter l' 0 before ∧
      (l'.react host c).run.run before = (.error fault, stage'.bare)

theorem Aborted.told {l' : Listener kinds T} {k : Nat} {stage after : Stage kinds (Journaled S)}
    {fault : Fault} {stage' : Stage kinds (Journaled T)} (h : Aborted l' k stage fault stage')
    {more : List (Checkpoint kinds)} (told : after.own.2 = stage.own.2 ++ more) :
    Aborted l' k after fault stage' := by
  obtain ⟨long, cut, host, c, before, last, due, refused⟩ := h
  refine ⟨?_, ?_, host, c, before, ?_, due, refused⟩
  · rw [told, List.length_append]
    omega
  · rw [cut, told, List.take_append_of_le_length long]
  · rw [told, List.getElem?_append_left long, last]

/-- A listener that accepts everything and one that is due to refuse are told the same so long. -/
theorem escorts_refusing {l : Listener kinds S} (accepts : AcceptsAll l) (l' : Listener kinds T)
    (k : Nat) : Escorts (Onward l' k) (Aborted l' k) l.journaled l'.journaled where
  both host c stage stage' onward := by
    obtain ⟨same, left, due, refuses⟩ := onward
    have accepted := accepts host c stage.bare
    rw [Listener.run_journaled, Listener.run_journaled]
    cases left with
    | zero =>
      obtain ⟨fault, after, refused⟩ := refuses.refuses host c
      have reached : k = stage.own.2.length := by rw [← same]; exact due.symm
      rw [refused]
      refine .inr ⟨fault, rfl, ?_, ?_, host, c, stage'.bare, ?_, refuses, refused⟩
      · rw [List.length_append, reached]
        exact Nat.lt_succ_self _
      · rw [same, reached, List.take_of_length_le]
        rw [List.length_append]
        exact Nat.le_refl _
      · rw [reached, List.getElem?_concat_length]
    | succ left =>
      obtain ⟨after, accepted', refuses⟩ := refuses.accepts host c
      rw [accepted']
      refine .inl ⟨accepted.symm, ?_, left, ?_, refuses⟩
      · rw [same]
      · rw [List.length_append, List.length_singleton]
        omega
  first host c stage fault stage' aborted := aborted.told rfl
  noted severity message fields stage stage' onward := by
    obtain ⟨same, left, due, refuses⟩ := onward
    exact ⟨same, left, due, refuses.noted severity message fields⟩
  notedFirst _ _ _ stage fault stage' aborted := aborted

namespace Program

/-- Let one listener accept everything and another refuse after `k` checkpoints. The run next to the
    second is told the checkpoints of the first up to the one that it refuses, with which it ends; if
    there are no more than `k`, the two runs are told the same and compute the same. -/
theorem refusal_aborts (p : Program) (fuel : Nat) {l : Listener kinds S} (accepts : AcceptsAll l)
    {l' : Listener kinds T} {k : Nat} {stage' : Stage kinds T} (refuses : RefusesAfter l' k stage')
    (owned : List Entity) (world : World) (stage : Stage kinds S) :
    let whole := p.stream fuel l owned world stage
    let delivered := p.stream fuel l' owned world stage'
    let ran := p.run fuel l owned world stage
    let stopped := p.run fuel l' owned world stage'
    (k < whole.length → delivered = whole.take (k + 1) ∧
      ∃ host c before fault, whole[k]? = some c ∧ RefusesAfter l' 0 before ∧
        (l'.react host c).run.run before = (.error fault, stopped.2.2) ∧
        stopped.1 = .failed (.refused fault)) ∧
    (whole.length ≤ k → delivered = whole ∧ stopped.1 = ran.1 ∧ stopped.2.1 = ran.2.1) := by
  have onward : Onward l' k stage.journaled stage'.journaled := ⟨rfl, k, Nat.zero_add k, refuses⟩
  have both := p.run_side_by_side fuel (escorts_refusing accepts l' k) owned world onward
  rw [p.run_journaled fuel l, p.run_journaled fuel l']
  unfold stream
  revert both
  generalize p.run fuel l.journaled owned world stage.journaled = ran
  generalize p.run fuel l'.journaled owned world stage'.journaled = ran'
  intro both
  cases both with
  | alike onward =>
    obtain ⟨same, left, due, _⟩ := onward
    rw [same] at due
    constructor
    · intro long
      dsimp only at long
      omega
    · exact fun _ => ⟨same, rfl, rfl⟩
  | refused aborted =>
    obtain ⟨long, cut, host, c, before, last, due, refused⟩ := aborted
    constructor
    · exact fun _ => ⟨cut, host, c, before, _, last, due, refused, rfl⟩
    · exact fun short => absurd long (Nat.not_lt.mpr short)

end Program

/-! ### A recorder with a limit -/

/-- The journal after a recorder has been told of a checkpoint. -/
def written (recorder : Recorder) (c : Checkpoint kinds) (journal : Journal) : Journal where
  lines := recorder.line c :: journal.lines
  counts := journal.counts.set recorder.number (journal.counts.getD recorder.number 0 + 1)

theorem run_recorder {recorder : Recorder} (refuses : recorder.refuses = []) {limit : Nat}
    (limited : recorder.limit = some limit) (host : Host kinds) (c : Checkpoint kinds)
    (stage : Stage kinds Journal) :
    (recorder.listener.react host c).run.run stage =
      (if limit < stage.own.counts.getD recorder.number 0 + 1 then
        .error (.violation (.reported (recorder.name ++ " limit"))) else .ok (),
        { stage with own := written recorder c stage.own }) := by
  have ran : (recorder.react c).run.run stage.own =
      (if limit < stage.own.counts.getD recorder.number 0 + 1 then
        .error (.violation (.reported (recorder.name ++ " limit"))) else .ok (),
        written recorder c stage.own) := by
    unfold Recorder.react
    rw [refuses, limited, run_bind, run_get]
    by_cases beyond : limit < stage.own.counts.getD recorder.number 0 + 1
    · simp only [List.contains_eq_mem, List.not_mem_nil, decide_false, Bool.false_eq_true, if_false,
        Option.any_some, beyond, decide_true, if_true, run_bind]
      rfl
    · simp only [List.contains_eq_mem, List.not_mem_nil, decide_false, Bool.false_eq_true, if_false,
        Option.any_some, beyond]
      rfl
  change StageM.onOwn (recorder.react c) stage = _
  unfold StageM.onOwn
  rw [ran]

theorem getD_written (recorder : Recorder) (c : Checkpoint kinds) (journal : Journal) :
    (written recorder c journal).counts.getD recorder.number 0 =
      journal.counts.getD recorder.number 0 + 1 := by
  simp [written, Dict.getD, Dict.get?_set]

/-- A recorder refuses when it has been told of as many checkpoints as its limit says. -/
theorem refusesAfter_recorder {recorder : Recorder} (refuses : recorder.refuses = []) {k : Nat}
    {stage : Stage kinds Journal}
    (limited : recorder.limit = some (stage.own.counts.getD recorder.number 0 + k)) :
    RefusesAfter recorder.listener k stage := by
  induction k generalizing stage with
  | zero =>
    intro log host c
    have ran := run_recorder refuses limited host c { stage with shadow := { stage.shadow with log } }
    rw [if_pos (Nat.lt_succ_self _)] at ran
    exact ⟨_, _, ran⟩
  | succ k ih =>
    intro log host c
    have ran := run_recorder refuses limited host c { stage with shadow := { stage.shadow with log } }
    rw [if_neg (by dsimp only; omega)] at ran
    refine ⟨_, ran, ih (limited.trans (congrArg some ?_))⟩
    have := getD_written recorder c stage.own
    dsimp only
    omega

/-- Eighteen checkpoints are accepted; the next reports the `return` that is about to leave a call. -/
def patient : Recorder := { number := 1, name := "patient", limit := some 18 }

theorem Program.refusal_aborts_calling :
    let stage : Stage kinds Journal := ⟨callingStage.shadow, {}⟩
    let whole := callingProgram.stream 20 .checkpointLog [] callingWorld callingStage
    AcceptsAll (.checkpointLog : Listener kinds Unit) ∧ RefusesAfter patient.listener 18 stage ∧
      18 < whole.length ∧
      callingProgram.stream 20 patient.listener [] callingWorld stage = whole.take 19 ∧
      ∃ fault, (callingProgram.run 20 patient.listener [] callingWorld stage).1 =
        .failed (.refused fault) := by
  intro stage whole
  have accepts : AcceptsAll (.checkpointLog : Listener kinds Unit) := fun _ _ _ => rfl
  have refuses : RefusesAfter patient.listener 18 stage := refusesAfter_recorder rfl rfl
  have long : 18 < whole.length := by decide +kernel
  have aborts := callingProgram.refusal_aborts 20 accepts refuses [] callingWorld callingStage
  obtain ⟨cut, _, _, _, fault, _, _, _, failed⟩ := aborts.1 long
  exact ⟨accepts, refuses, long, cut, fault, failed⟩

end Lineage.Toy
