import Mathlib.Data.List.Forall2
import Lineage.Proofs.Footprint

/-!
# Histories are logs

The history of a local has one node for each write of the local that has succeeded since its frame began
or was released, in the order of the writes, and nothing else but for a first unknown node: a read that
finds no history starts one. This holds of a frame that has an owner all the while, whatever else the
tracer is told of.
-/

namespace Lineage

open Tracer

variable {K : Kinds}

namespace Shadow

/-- The nodes that have been written to a local of a frame, oldest first. -/
def history (s : Shadow K) (frame : K.Frame) (name : String) : List (Node K.Value) :=
  (s.recordOf frame).history name

theorem history_congr {s t : Shadow K} {frame : K.Frame} (same : t.record? frame = s.record? frame)
    (name : String) : t.history frame name = s.history frame name := by
  rw [history, history, recordOf, recordOf, same]

theorem history_of_getD {s t : Shadow K} {frame : K.Frame} {name : String}
    (same : (t.recordOf frame).histories.getD name [] = (s.recordOf frame).histories.getD name []) :
    t.history frame name = s.history frame name := congrArg List.reverse same

theorem SameState.history {s t : Shadow K} (same : SameState s t) (frame : K.Frame) (name : String) :
    t.history frame name = s.history frame name := history_congr (same.record?_eq frame) name

end Shadow

namespace Step

/-- The step writes the local: the rule of a write has been applied without failing. -/
def writesLocal (frame : K.Frame) (name : String) (step : Step K) : Bool :=
  match step.deed with
  | .rule _ ⟨site, f, .leave _⟩ .useStackDefLocalStack =>
      step.done && f = frame && site.localSlot = some name
  | _ => false

/-- The step reads the local. -/
def readsLocal (frame : K.Frame) (name : String) (step : Step K) : Bool :=
  match step.deed with
  | .rule _ ⟨site, f, .leave _⟩ .useLocalDefStack => f = frame && site.localSlot = some name
  | _ => false

/-- The node that the rule of a write makes: of the value that the site returns, from the operand on top
    of the stack, which it replaces. -/
def Makes (step : Step K) (node : Node K.Value) : Prop :=
  match step.deed with
  | .rule _ ⟨site, frame, .leave value⟩ _ => ∃ operand below,
      (step.before.recordOf frame).stack = operand :: below ∧
      node = site.node step.before.nextSeq value [operand] ∧
      (step.after.recordOf frame).stack = node :: below
  | _ => False

/-- The frame has an owner throughout the step. -/
def Keeps (frame : K.Frame) (step : Step K) : Prop :=
  ∀ host, step.act.host? = some host →
    ¬ host.Loses (step.before.holdings []) (step.after.holdings []) (.frame frame)

/-- What a step adds to the history of a local. -/
inductive Logs (frame : K.Frame) (name : String) (step : Step K) : Prop
  | written (node : Node K.Value) (writes : step.writesLocal frame name = true)
      (unread : step.readsLocal frame name = false) (makes : step.Makes node)
      (number : node.seq = step.before.nextSeq)
      (added : step.after.history frame name = step.before.history frame name ++ [node])
      (later : step.before.nextSeq < step.after.nextSeq)
  | opened (unwritten : step.writesLocal frame name = false) (reads : step.readsLocal frame name = true)
      (empty : step.before.history frame name = [])
      (added : step.after.history frame name = [.unknown step.before.nextSeq])
      (later : step.before.nextSeq < step.after.nextSeq)
  | kept (unwritten : step.writesLocal frame name = false)
      (known : step.readsLocal frame name = true → step.before.history frame name ≠ [])
      (same : step.after.history frame name = step.before.history frame name)
      (later : step.before.nextSeq ≤ step.after.nextSeq)

end Step

/-! ### One step -/

namespace Tracer

open Shadow ShadowM

variable {tracer : Tracer} {host : Host K} {c : Checkpoint K} {s t : Shadow K}

/-- A rule that is not the one of the function itself is confined to what it touches. -/
theorem confined_rule {category : Category} (sane : s.Unpoisoned)
    (other : category = .functionBoundary → c.moment.kind = .unwind) :
    Ends (tracer.rule host c category) s fun _ t => Confined host c.frame
      ⟨fun x => c.moment.kind = .leave ∧ Touches host c.site c.frame s category x, True⟩
      s.nextSeq s [] t [] := by
  let foot : Footprint K :=
    ⟨fun x => c.moment.kind = .leave ∧ Touches host c.site c.frame s category x, True⟩
  have stays : Bounded host c.frame foot s.nextSeq s [] (tracer.rule host c category) (fun _ => [])
      fun _ => True := stays_rule sane (Nat.le_refl _) other
    (fun leaves x touches => ⟨leaves, touches⟩) fun _ _ => trivial
  refine stays.mono ?_
  rintro (fault | _) t confined
  · exact confined
  · exact confined.1

/-- A frame that has an owner keeps its record when another one gets an empty one. -/
theorem record?_of_kept {f frame : K.Frame}
    (on : OnRecord (host.LostFrame [] s t f) f s t {} s.nextSeq) (other : frame ≠ f)
    (keeps : ¬ host.Loses (s.holdings []) (t.holdings []) (.frame frame)) :
    t.record? frame = s.record? frame := by
  rcases on.frames.others frame other with same | ⟨-, dropped⟩
  · rw [record?, Table.content?, same]
    rfl
  · exact absurd (Confined.loses_of_emptied on dropped) keeps

/-- Work on the operands of a record. -/
theorem history_of_operands {f : K.Frame} {record : Record K.Value} {n : Nat}
    (on : OnRecord (fun _ => False) f s t record n)
    (same : record.histories = (s.recordOf f).histories) (frame : K.Frame) (name : String) :
    t.history frame name = s.history frame name := by
  by_cases own : frame = f
  · subst own
    refine history_of_getD ?_
    rw [on.recordOf, same]
  · exact history_congr ((on.frames.others frame own).content?_eq id) name

end Tracer

namespace Step

open Shadow

variable {tracer : Tracer} {frame : K.Frame} {name : String} {step : Step K}

theorem touches_of_writesLocal (writes : step.writesLocal frame name = true) :
    step.Touches (.frameLocal frame name) := by
  obtain ⟨deed, before, done, after⟩ := step
  unfold writesLocal at writes
  split at writes
  · next site f value same =>
    simp only [Bool.and_eq_true, decide_eq_true_eq] at writes
    obtain rfl : deed = _ := same
    exact ⟨rfl, .inr rfl, writes.1.2.symm, writes.2⟩
  · cases writes

theorem touches_of_readsLocal (reads : step.readsLocal frame name = true) :
    step.Touches (.frameLocal frame name) := by
  obtain ⟨deed, before, done, after⟩ := step
  unfold readsLocal at reads
  split at reads
  · next site f value same =>
    simp only [Bool.and_eq_true, decide_eq_true_eq] at reads
    obtain rfl : deed = _ := same
    exact ⟨rfl, .inl rfl, reads.1.symm, reads.2⟩
  · cases reads

/-- A step that does not touch the local adds nothing. -/
theorem Logs.of_untouched (untouched : ¬ step.Touches (.frameLocal frame name))
    (same : step.after.history frame name = step.before.history frame name)
    (later : step.before.nextSeq ≤ step.after.nextSeq) : step.Logs frame name := by
  refine .kept ?_ (fun reads => absurd (touches_of_readsLocal reads) untouched) same later
  exact Bool.eq_false_iff.mpr fun writes => untouched (touches_of_writesLocal writes)

theorem logs_readLocal {host : Host K} {site : Site K} {value : K.Value} {s : Shadow K}
    (sane : s.Unpoisoned) (found : site.localSlot = some name) :
    Ends (tracer.rule host ⟨site, frame, .leave value⟩ .useLocalDefStack) s fun r t =>
      Logs frame name ⟨.rule host ⟨site, frame, .leave value⟩ .useLocalDefStack, s, r.isOk, t⟩ := by
  have reads : ∀ done t, readsLocal frame name
      ⟨.rule host ⟨site, frame, .leave value⟩ .useLocalDefStack, s, done, t⟩ = true := by
    simp [readsLocal, found]
  have ends : Ends (applyLeave tracer host site frame value .useLocalDefStack) s _ :=
    leave_readLocal sane name found
  refine ends.mono ?_
  rintro r t ⟨rfl, on⟩
  cases before : (s.recordOf frame).histories.getD name [] with
  | nil =>
    rw [Record.current_of_nil before] at on
    refine .opened rfl (reads _ _) (congrArg List.reverse before) ?_ ?_
    · rw [history, on.recordOf, Record.history, Record.push_histories, Record.history_write, if_pos rfl,
        before]
      rfl
    · rw [on.nextSeq]
      exact Nat.lt_succ_of_le (Nat.le_succ _)
  | cons node older =>
    rw [Record.current_of_cons before] at on
    refine .kept rfl (fun _ => ?_) (history_of_getD ?_) ?_
    · rw [history, Record.history, before]
      exact List.reverse_ne_nil_iff.mpr (List.cons_ne_nil _ _)
    · rw [on.recordOf, Record.push_histories]
    · rw [on.nextSeq]
      exact Nat.le_succ _

theorem logs_writeLocal {host : Host K} {site : Site K} {value : K.Value} {s : Shadow K}
    (sane : s.Unpoisoned) (found : site.localSlot = some name) :
    Ends (tracer.rule host ⟨site, frame, .leave value⟩ .useStackDefLocalStack) s fun r t =>
      Logs frame name
        ⟨.rule host ⟨site, frame, .leave value⟩ .useStackDefLocalStack, s, r.isOk, t⟩ := by
  have ends : Ends (applyLeave tracer host site frame value .useStackDefLocalStack) s _ :=
    leave_writeLocal sane name found
  refine ends.mono fun r t done => ?_
  cases stack : (s.recordOf frame).stack with
  | nil =>
    rw [stack] at done
    obtain ⟨rfl, on⟩ := done
    refine .kept rfl nofun (history_of_getD ?_) ?_
    · rw [on.recordOf]
    · exact Nat.le_of_eq on.nextSeq.symm
  | cons top below =>
    rw [stack] at done
    obtain ⟨rfl, on⟩ := done
    refine .written (site.node s.nextSeq value [top]) ?_ rfl ⟨top, below, stack, rfl, ?_⟩ rfl ?_ ?_
    · simp [writesLocal, found, Except.isOk, Except.toBool]
    · rw [on.recordOf]
      rfl
    · rw [history, on.recordOf, Record.history, Record.push_histories, Record.history_write, if_pos rfl,
        List.reverse_cons]
      rfl
    · rw [on.nextSeq]
      exact Nat.lt_succ_self _

/-- The rule of the function itself leaves the locals of the other frames alone, and on return also those
    of its own. -/
theorem logs_boundary {host : Host K} {c : Checkpoint K} {s : Shadow K} (sane : s.Unpoisoned)
    (other : c.moment.kind ≠ .unwind) (far : c.moment.kind = .enter → frame ≠ c.frame) :
    Ends (tracer.rule host c .functionBoundary) s fun r t =>
      ¬ host.Loses (s.holdings []) (t.holdings []) (.frame frame) →
        Logs frame name ⟨.rule host c .functionBoundary, s, r.isOk, t⟩ := by
  obtain ⟨site, f, moment⟩ := c
  have untouched : ∀ done t, ¬ Touches
      ⟨.rule host ⟨site, f, moment⟩ .functionBoundary, s, done, t⟩ (.frameLocal frame name) := by
    rintro done t ⟨-, local', -⟩
    exact local'.elim nofun nofun
  cases moment with
  | unwind exception => exact absurd rfl other
  | enter =>
    refine (enter_boundary_lost sane).mono ?_
    rintro r t ⟨-, on⟩ keeps
    exact .of_untouched (untouched _ _)
      (history_congr (record?_of_kept on (far rfl) keeps) name) (Nat.le_of_eq on.nextSeq.symm)
  | leave value =>
    have ends : Ends (applyLeave tracer host site f value .functionBoundary) s _ := leave_boundary sane
    refine ends.mono ?_
    rintro r t ⟨-, ends⟩ -
    cases given : handedBack? host s f with
    | none =>
      rw [given] at ends
      exact .of_untouched (untouched _ _) (ends.history frame name) (Nat.le_of_eq ends.2.symm)
    | some pair =>
      obtain ⟨caller, node⟩ := pair
      rw [given] at ends
      obtain ⟨mid, taken, put⟩ := ends
      refine .of_untouched (untouched _ _) ?_ (Nat.le_of_eq put.nextSeq.symm)
      exact (history_of_operands put rfl frame name).trans (history_of_operands taken rfl frame name)

/-- Any other rule adds to the history of a local of its own frame at most, and only if it touches that
    local. -/
theorem logs_rule {host : Host K} {c : Checkpoint K} {category : Category} {s : Shadow K}
    (sane : s.Unpoisoned) (other : category = .functionBoundary → c.moment.kind = .unwind) :
    Ends (tracer.rule host c category) s fun r t =>
      ¬ host.Loses (s.holdings []) (t.holdings []) (.frame frame) →
        Logs frame name ⟨.rule host c category, s, r.isOk, t⟩ := by
  by_cases touches : c.moment.kind = .leave ∧
      Tracer.Touches host c.site c.frame s category (.frameLocal frame name)
  · obtain ⟨site, f, moment⟩ := c
    obtain ⟨leaves, local', rfl, found⟩ := touches
    cases moment with
    | enter => cases leaves
    | unwind exception => cases leaves
    | leave value =>
      rcases local' with rfl | rfl
      · exact (logs_readLocal sane found).mono fun r t logs _ => logs
      · exact (logs_writeLocal sane found).mono fun r t logs _ => logs
  · refine (confined_rule sane other).mono fun r t confined keeps => ?_
    refine .of_untouched touches ?_ confined.leads.next
    by_cases own : frame = c.frame
    · subst own
      exact history_of_getD (confined.histories name touches)
    · refine history_congr ((confined.frames frame own).resolve_right ?_) name
      exact fun ⟨_, loses⟩ => keeps loses

/-- A function that begins gives up the locals of its frame. -/
theorem access_begins {host : Host K} {c : Checkpoint K} {s : Shadow K} (sane : s.Unpoisoned)
    (enters : c.moment.kind = .enter) :
    (⟨.rule host c .functionBoundary, s,
      ((tracer.rule host c .functionBoundary).run.run s).1.isOk,
      ((tracer.rule host c .functionBoundary).run.run s).2⟩ : Step K).access = .resets c.frame := by
  obtain ⟨site, f, moment⟩ := c
  obtain rfl : moment = .enter := Moment.eq_enter enters
  have done : ((applyEnter host site f .functionBoundary).run.run s).1 = .ok () :=
    (enter_boundary_lost sane).1
  rw [access]
  dsimp only
  rw [Tracer.rule]
  dsimp only
  rw [done]
  rfl

/-- What a step adds to the history of a local, if it does not give up the locals of the frame. -/
theorem logs (valid : step.Valid tracer) (sane : step.before.Unpoisoned) (keeps : step.Keeps frame)
    (stays : step.access.givesUp (.frameLocal frame name) = false) : step.Logs frame name := by
  obtain ⟨deed, before, done, after⟩ := step
  cases deed with
  | sweep host =>
    simp only [Valid] at valid
    obtain ⟨-, rfl⟩ := valid
    refine .of_untouched id (history_congr ?_ name) (Nat.le_refl _)
    refine (before.record?_sweep host frame).resolve_right ?_
    rintro ⟨-, kept, given, left, dead⟩
    apply keeps host rfl
    refine Confined.loses_of_kept given ⟨Nat.le_refl _, fun node mem => .of_mem (left mem)⟩ ?_
    exact fun owned => Bool.false_ne_true (dead.symm.trans owned)
  | release f =>
    simp only [Valid] at valid
    obtain ⟨-, rfl⟩ := valid
    have ne : frame ≠ f := of_decide_eq_false stays
    refine .of_untouched id (history_congr ?_ name) (Nat.le_refl _)
    change ((before.store.frames.remove f).2.find? frame).map _ = _
    rw [Table.find?_remove, if_neg ne.symm]
    rfl
  | rule host c category =>
    have lost := keeps host rfl
    simp only [Valid] at valid
    obtain ⟨rfl, rfl⟩ := valid
    by_cases bounds : category = .functionBoundary ∧ c.moment.kind ≠ .unwind
    · obtain ⟨rfl, other⟩ := bounds
      have far : c.moment.kind = .enter → frame ≠ c.frame := by
        rintro enters rfl
        rw [access_begins sane enters] at stays
        exact of_decide_eq_false stays rfl
      exact logs_boundary sane other far lost
    · refine logs_rule sane (fun boundary => ?_) lost
      exact Classical.byContradiction fun other => bounds ⟨boundary, other⟩

theorem Logs.grows (logs : step.Logs frame name) :
    step.before.history frame name <+: step.after.history frame name := by
  cases logs with
  | written node _ _ _ _ added => exact added ▸ List.prefix_append _ _
  | opened _ _ empty => exact empty ▸ List.nil_prefix
  | kept _ _ same => exact same ▸ List.prefix_refl _

/-- A step that gives up the locals of the frame leaves no history. -/
theorem history_of_givesUp (valid : step.Valid tracer) (sane : step.before.Unpoisoned)
    (resets : step.access.givesUp (.frameLocal frame name) = true) :
    step.after.history frame name = [] := by
  obtain ⟨-, gone⟩ := Access.touches_of_givesUp resets
  have done : ∃ s, step.access.Done s step.after := by
    have effect := Step.effect valid sane
    obtain ⟨deed, before, done, after⟩ := step
    cases deed with
    | sweep host => cases resets
    | release f =>
      exact ⟨before, (effect (.still K)).2⟩
    | rule host c category =>
      obtain ⟨reach, -, -, -, -, -, -, done⟩ := effect
      exact ⟨before, done⟩
  obtain ⟨s, done⟩ := done
  have none' : ((step.after.recordOf frame).histories.getD name []).head? = none := gone s _ done
  rw [history, Record.history, List.head?_eq_none_iff.mp none']
  rfl

end Step

/-! ### Whole runs -/

/-- The local is read before it is written. -/
def ReadFirst (frame : K.Frame) (name : String) (steps : List (Step K)) : Prop :=
  ∃ earlier read later, steps = earlier ++ read :: later ∧ read.readsLocal frame name = true ∧
    ∀ step ∈ earlier, step.writesLocal frame name = false

/-- The history of a local in the state is the log of the steps. -/
structure IsLog (frame : K.Frame) (name : String) (steps : List (Step K)) (s : Shadow K)
    (opening : Option Nat) (written : List (Node K.Value)) : Prop where
  /-- It may begin with an unknown node, and goes on with nodes that have been written. -/
  history : s.history frame name = (opening.map Node.unknown).toList ++ written
  /-- It does so just if the local has been read before it was written. -/
  opening : opening.isSome = true ↔ ReadFirst frame name steps
  /-- There is one node for each step that has written the local, in the order of the steps. -/
  written : List.Forall₂ Step.Makes (steps.filter (·.writesLocal frame name)) written
  increasing : (s.history frame name).Pairwise fun a b => a.seq < b.seq
  counted : ∀ node ∈ s.history frame name, node.seq < s.nextSeq

section

variable {frame : K.Frame} {name : String} {steps : List (Step K)} {step : Step K}

theorem readFirst_concat : ReadFirst frame name (steps ++ [step]) ↔ ReadFirst frame name steps ∨
    step.readsLocal frame name = true ∧ ∀ earlier ∈ steps, earlier.writesLocal frame name = false := by
  constructor
  · rintro ⟨earlier, read, later, split, reads, unwritten⟩
    rcases later.eq_nil_or_concat with rfl | ⟨later, last, rfl⟩
    · obtain ⟨rfl, same⟩ := List.append_inj' split rfl
      obtain rfl : step = read := List.singleton_inj.mp same
      exact .inr ⟨reads, unwritten⟩
    · rw [List.concat_eq_append, ← List.cons_append, ← List.append_assoc] at split
      obtain ⟨rfl, -⟩ := List.append_inj' split rfl
      exact .inl ⟨earlier, read, later, rfl, reads, unwritten⟩
  · rintro (⟨earlier, read, later, rfl, found⟩ | ⟨reads, unwritten⟩)
    · exact ⟨earlier, read, later ++ [step], by simp, found⟩
    · exact ⟨steps, step, [], rfl, reads, unwritten⟩

theorem filter_concat (unwritten : step.writesLocal frame name = false) :
    (steps ++ [step]).filter (·.writesLocal frame name) = steps.filter (·.writesLocal frame name) := by
  rw [List.filter_append, List.filter_cons_of_neg (Bool.eq_false_iff.mp unwritten), List.filter_nil,
    List.append_nil]

namespace IsLog

theorem nil {s : Shadow K} (empty : s.history frame name = []) : IsLog frame name [] s none [] where
  history := empty
  opening := by
    refine ⟨nofun, ?_⟩
    rintro ⟨earlier, read, later, split, -⟩
    simp at split
  written := .nil
  increasing := empty ▸ .nil
  counted := empty ▸ List.forall_mem_nil _

/-- Only as long as nothing has been written or read there is no history. -/
theorem unwritten {s : Shadow K} {opening : Option Nat} (log : IsLog frame name steps s opening []) :
    ∀ step ∈ steps, step.writesLocal frame name = false := by
  have none' := List.forall₂_nil_right_iff.mp log.written
  exact fun step mem => Bool.eq_false_iff.mpr (List.filter_eq_nil_iff.mp none' step mem)

variable {opening : Option Nat} {written : List (Node K.Value)}

theorem written_of_unwritten {s : Shadow K} (log : IsLog frame name steps s opening written)
    (unwritten : ∀ step ∈ steps, step.writesLocal frame name = false) : written = [] := by
  have none' : steps.filter (·.writesLocal frame name) = [] :=
    List.filter_eq_nil_iff.mpr fun step mem => Bool.eq_false_iff.mp (unwritten step mem)
  exact List.forall₂_nil_left_iff.mp (none' ▸ log.written)

/-- One more step that does not give up the locals of the frame. -/
theorem concat (log : IsLog frame name steps step.before opening written) (logs : step.Logs frame name) :
    ∃ opening written, IsLog frame name (steps ++ [step]) step.after opening written := by
  cases logs with
  | written node writes unread makes number added later =>
    refine ⟨opening, written ++ [node], ?_, ?_, ?_, ?_, ?_⟩
    · rw [added, log.history, List.append_assoc]
    · rw [readFirst_concat, log.opening]
      exact ⟨.inl, fun reads => reads.resolve_right fun ⟨reads, _⟩ => by
        rw [unread] at reads
        cases reads⟩
    · rw [List.filter_append, List.filter_cons_of_pos writes]
      exact List.rel_append log.written (.cons makes .nil)
    · rw [added]
      refine List.pairwise_append.mpr ⟨log.increasing, List.pairwise_singleton _ _, ?_⟩
      intro old mem new made
      rw [List.mem_singleton.mp made, number]
      exact log.counted old mem
    · rw [added]
      refine List.forall_mem_append.mpr ⟨fun old mem => (log.counted old mem).trans later, ?_⟩
      exact List.forall_mem_singleton.mpr (number ▸ later)
  | opened unwritten reads empty added later =>
    obtain ⟨nothing, rfl⟩ := List.append_eq_nil_iff.mp (log.history.symm.trans empty)
    refine ⟨some step.before.nextSeq, [], added, ⟨fun _ => ?_, fun _ => rfl⟩, ?_, ?_, ?_⟩
    · exact readFirst_concat.mpr (.inr ⟨reads, log.unwritten⟩)
    · rw [filter_concat unwritten]
      exact log.written
    · rw [added]
      exact List.pairwise_singleton _ _
    · rw [added]
      exact List.forall_mem_singleton.mpr later
  | kept unwritten known same later =>
    refine ⟨opening, written, same.trans log.history, ?_, ?_, ?_, ?_⟩
    · rw [readFirst_concat, ← log.opening]
      refine ⟨.inl, fun reads => reads.elim id fun ⟨reads, none'⟩ => ?_⟩
      -- nothing has been written, so what has been found is an unknown node
      have before := known reads
      rw [log.history, log.written_of_unwritten none', List.append_nil] at before
      cases opening with
      | some seq => rfl
      | none => exact absurd rfl before
    · rw [filter_concat unwritten]
      exact log.written
    · rw [same]
      exact log.increasing
    · rw [same]
      exact fun node mem => (log.counted node mem).trans_le later

end IsLog

/-- The steps since the frame began or was released, oldest first. -/
def Step.recent (frame : K.Frame) (name : String) (past : List (Step K)) : List (Step K) :=
  (since (.frameLocal frame name) past).reverse

theorem Step.recent_concat (frame : K.Frame) (name : String) (past : List (Step K)) (step : Step K) :
    recent frame name (past ++ [step]) =
      if step.access.givesUp (.frameLocal frame name) then [] else recent frame name past ++ [step] := by
  rw [recent, since_concat]
  split
  · rfl
  · rw [List.reverse_cons, recent]

end

namespace Shadow

variable {tracer : Tracer} {frame : K.Frame} {name : String}

theorem isLog_afterAll (interval nextSeq : Nat) (log : Log) (acts : List (Act K)) :
    let start : Shadow K := ⟨.ofInterval interval, nextSeq, log⟩
    let recent := Step.recent frame name (start.steps tracer acts)
    (start.afterAll tracer acts).Unpoisoned ∧ ((∀ step ∈ recent, step.Keeps frame) →
      ∃ opening written, IsLog frame name recent (start.afterAll tracer acts) opening written) := by
  intro start recent
  let P : List (Step K) → Shadow K → Prop := fun past s => s.Unpoisoned ∧
    ((∀ step ∈ Step.recent frame name past, step.Keeps frame) →
      ∃ opening written, IsLog frame name (Step.recent frame name past) s opening written)
  have same : ∀ past s t, SameState s t → P past s → P past t := by
    rintro past s t same ⟨sane, log⟩
    refine ⟨same.unpoisoned sane, fun keeps => ?_⟩
    obtain ⟨opening, written, log⟩ := log keeps
    have history := same.history frame name
    exact ⟨opening, written, history.trans log.history, log.opening, log.written,
      history ▸ log.increasing, by rw [history, same.2]; exact log.counted⟩
  have next : ∀ past step, step.Valid tracer → P past step.before → P (past ++ [step]) step.after := by
    rintro past step valid ⟨sane, log⟩
    refine ⟨(Step.keeps valid sane).1, fun keeps => ?_⟩
    rw [Step.recent_concat] at keeps ⊢
    cases resets : step.access.givesUp (.frameLocal frame name) with
    | true => exact ⟨none, [], .nil (Step.history_of_givesUp valid sane resets)⟩
    | false =>
      rw [resets, if_neg Bool.false_ne_true] at keeps
      rw [if_neg Bool.false_ne_true]
      obtain ⟨before, here⟩ := List.forall_mem_append.mp keeps
      obtain ⟨opening, written, log⟩ := log before
      exact log.concat (Step.logs valid sane (here step List.mem_cons_self) resets)
  exact (along same next acts [] start ⟨unpoisoned_ofInterval interval nextSeq log,
    fun _ => ⟨none, [], .nil rfl⟩⟩).2

/-- As long as the locals of the frame are not given up their histories grow. -/
theorem history_grows {s : Shadow K} (sane : s.Unpoisoned) (acts : List (Act K))
    (keeps : ∀ step ∈ s.steps tracer acts,
      step.access.givesUp (.frameLocal frame name) = false ∧ step.Keeps frame) :
    s.history frame name <+: (s.afterAll tracer acts).history frame name := by
  let P : List (Step K) → Shadow K → Prop := fun past t => t.Unpoisoned ∧
    ((∀ step ∈ past, step.access.givesUp (.frameLocal frame name) = false ∧ step.Keeps frame) →
      s.history frame name <+: t.history frame name)
  have same : ∀ past t u, SameState t u → P past t → P past u := by
    rintro past t u same ⟨sane, grows⟩
    exact ⟨same.unpoisoned sane, same.history frame name ▸ grows⟩
  have next : ∀ past step, step.Valid tracer → P past step.before → P (past ++ [step]) step.after := by
    rintro past step valid ⟨sane, grows⟩
    refine ⟨(Step.keeps valid sane).1, fun keeps => ?_⟩
    obtain ⟨before, here⟩ := List.forall_mem_append.mp keeps
    obtain ⟨stays, kept⟩ := here step List.mem_cons_self
    exact (grows before).trans (Step.logs valid sane kept stays).grows
  exact (along same next acts [] s ⟨sane, fun _ => List.prefix_refl _⟩).2.2 keeps

/-- From an empty store on, whatever checkpoints the tracer is told of, refused ones included, and
    whenever its store is swept or a frame is released: if a frame has had an owner since it began last or
    was released, then the history of a local is the log of what has been done to it since. It has the
    nodes that have been written, in that order, behind an unknown node if the local was read before. And
    until the frame begins again or is released the history only grows. -/
theorem history_logs (tracer : Tracer) (interval nextSeq : Nat) (log : Log) (acts : List (Act K))
    (frame : K.Frame) (name : String)
    (owned : ∀ step ∈ Step.recent frame name
      ((⟨.ofInterval interval, nextSeq, log⟩ : Shadow K).steps tracer acts), step.Keeps frame) :
    let start : Shadow K := ⟨.ofInterval interval, nextSeq, log⟩
    let s := start.afterAll tracer acts
    (∃ opening written,
      IsLog frame name (Step.recent frame name (start.steps tracer acts)) s opening written) ∧
    ∀ more, (∀ step ∈ s.steps tracer more,
        step.access.givesUp (.frameLocal frame name) = false ∧ step.Keeps frame) →
      s.history frame name <+: (s.afterAll tracer more).history frame name := by
  obtain ⟨sane, logs⟩ := isLog_afterAll interval nextSeq log acts
  exact ⟨logs owned, fun more => history_grows sane more⟩

end Shadow

/-! An assignment without an operand is refused. Then the local is read, and written twice, with a sweep
in between. -/

namespace ReadThenWrite

open WriteThenRead (numbers host checkpoint reading)

def writing (id : Nat) : Checkpoint numbers := checkpoint id "x = 7" .useStackDefLocalStack (.leave 7)

def acts : List (Act numbers) := [
  .checkpoint host (checkpoint 0 "main" .functionBoundary .enter),
  .checkpoint host (writing 1),
  .checkpoint host reading,
  .checkpoint host (writing 2),
  .sweep host,
  .checkpoint host (writing 4)]

def start : Shadow numbers := ⟨.ofInterval 1, 1, {}⟩

def recent : List (Step numbers) := Step.recent (0 : Nat) "x" (start.steps {} acts)

theorem keeps (step : Step numbers) (mem : step ∈ recent) : step.Keeps (0 : Nat) := by
  have inside : step ∈ start.steps {} acts :=
    List.mem_reverse.mp ((List.takeWhile_sublist _).subset (List.mem_reverse.mp mem))
  have told : step.act ∈ acts := Shadow.act_of_steps inside
  rintro h shown ⟨between, -, -, without⟩
  have same : h = host := by
    simp only [acts, List.mem_cons, List.not_mem_nil, or_false] at told
    rcases told with told | told | told | told | told | told <;> rw [told] at shown <;>
      exact (Option.some.inj shown).symm
  exact without (same ▸ rfl)

theorem history_logs_seven : ∃ seq first second,
    (start.afterAll {} acts).history (0 : Nat) "x" = [.unknown seq, first, second] ∧
      seq < first.seq ∧ first.seq < second.seq := by
  obtain ⟨⟨opening, written, log⟩, -⟩ := Shadow.history_logs {} 1 1 {} acts (0 : Nat) "x" keeps
  have opens : opening.isSome = true :=
    log.opening.mpr ⟨[_], _, recent.drop 2, by with_unfolding_all rfl, by with_unfolding_all rfl,
      List.forall_mem_singleton.mpr (by with_unfolding_all rfl)⟩
  have count : written.length = 2 := by
    rw [← log.written.length_eq]
    with_unfolding_all rfl
  obtain ⟨seq, rfl⟩ := Option.isSome_iff_exists.mp opens
  obtain ⟨first, second, rfl⟩ := List.length_eq_two.mp count
  have increasing := log.increasing
  have history := log.history
  rw [history] at increasing
  refine ⟨seq, first, second, history, ?_, ?_⟩
  · exact List.rel_of_pairwise_cons increasing List.mem_cons_self
  · exact List.rel_of_pairwise_cons increasing.of_cons List.mem_cons_self

end ReadThenWrite

end Lineage
