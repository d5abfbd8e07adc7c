import Lineage.Proofs.Brackets
import Lineage.Proofs.Graph
import Lineage.Proofs.Reaching

/-!
# Depth marks match their own enter

A site whose categories consume operands notes the depth of the stack when it is entered, once for
each such category, and a return looks for the innermost mark with the identity of the site. If the
checkpoints of a frame are well bracketed, the mark that is found is the one made on the matching
enter: what a bracketed stretch of checkpoints has marked it has unmarked again, so each site finds
its own marks on top. Other frames do not touch the marks, not even when they hand a result back.
-/

namespace Lineage

open Tracer

variable {K : Kinds}

namespace Shadow

/-- The depths noted on the record of a frame, if it has one. -/
def marks? (s : Shadow K) (frame : K.Frame) : Option (List DepthMark) :=
  (s.record? frame).map (·.marks)

/-- A change made for `frame`, which keeps its record. The other frames keep their marks, unless their
    records are dropped. -/
structure Aside (host : Host K) (frame : K.Frame) (s t : Shadow K) : Prop where
  sane : t.Unpoisoned
  own : s.record? frame ≠ none → t.record? frame ≠ none
  others : ∀ g, g ≠ frame → t.marks? g = s.marks? g ∨ t.record? g = none ∧ host.MayDrop g

variable {host : Host K} {frame : K.Frame} {s t u : Shadow K} {record : Record K.Value} {n : Nat}

theorem marks?_eq_none : s.marks? frame = none ↔ s.record? frame = none := Option.map_eq_none_iff

theorem marks_of_marks? (h : t.marks? frame = s.marks? frame) :
    (t.recordOf frame).marks = (s.recordOf frame).marks := by
  unfold marks? at h
  unfold recordOf
  cases before : s.record? frame <;> cases after : t.record? frame <;> rw [before, after] at h <;>
    simp_all

/-- Work on a record that was there, which drops no other and leaves the marks. -/
theorem marks?_of_onRecord (on : OnRecord (fun _ => False) frame s t record n)
    (known : s.record? frame ≠ none) (marks : record.marks = (s.recordOf frame).marks)
    (g : K.Frame) : t.marks? g = s.marks? g := by
  by_cases own : g = frame
  · subst own
    obtain ⟨before, there⟩ := Option.ne_none_iff_exists'.mp known
    rw [marks?, marks?, on.record?, there, Option.map_some, Option.map_some, marks,
      recordOf_eq there]
  · exact congrArg (Option.map _) ((on.frames.others g own).content?_eq id)

namespace Aside

theorem of_marks? (sane : t.Unpoisoned) (marks : ∀ g, t.marks? g = s.marks? g) :
    Aside host frame s t :=
  ⟨sane, fun there gone => there <| marks?_eq_none.mp <|
    (marks frame).symm.trans (marks?_eq_none.mpr gone), fun g _ => .inl (marks g)⟩

theorem of_frames (sane : t.Unpoisoned) (frames : t.store.frames = s.store.frames) :
    Aside host frame s t :=
  .of_marks? sane fun g => congrArg (Option.map _) (record?_congr frames g)

theorem of_same (sane : s.Unpoisoned) (same : SameState s t) : Aside host frame s t :=
  .of_frames (same.unpoisoned sane) (by rw [same.1])

theorem of_onRecord (sane : s.Unpoisoned) (on : OnRecord host.MayDrop frame s t record n) :
    Aside host frame s t where
  sane := on.unpoisoned sane
  own _ gone := by cases on.record?.symm.trans gone
  others g other := by
    rcases on.frames.others g other with same | ⟨gone, dropped⟩
    · exact .inl (congrArg (fun found => (found.map Entry.content).map Record.marks) same)
    · exact .inr ⟨by rw [record?, Table.content?, gone]; rfl, dropped⟩

theorem trans (first : Aside host frame s t) (second : Aside host frame t u) :
    Aside host frame s u where
  sane := second.sane
  own := second.own ∘ first.own
  others g other := by
    rcases second.others g other with same | gone
    · rw [same, ← marks?_eq_none, same, marks?_eq_none]
      exact first.others g other
    · exact .inr gone

end Aside

end Shadow

open Shadow

namespace Tracer

variable {tracer : Tracer} {host : Host K} {site : Site K} {frame : K.Frame} {value : K.Value}
  {s t u : Shadow K} {category : Category} {record : Record K.Value} {n : Nat}

/-- What a successful rule of the category does on return to the marks of its frame: one that consumes
    operands has used up the mark by which it told them, the others use no mark. -/
def Unmarks (site : Site K) (frame : K.Frame) (category : Category) (s t : Shadow K) : Prop :=
  if category.marksDepth then
    ∃ operands rest, (takeOperands site).run.run (s.recordOf frame, s.nextSeq) = (.ok operands, rest) ∧
      (t.recordOf frame).marks = rest.1.marks
  else (t.recordOf frame).marks = (s.recordOf frame).marks

/-- What is known of the marks after a rule applied on return. -/
def MarksLeft (host : Host K) (site : Site K) (frame : K.Frame) (category : Category) (s : Shadow K)
    (r : Except Fault Unit) (t : Shadow K) : Prop :=
  s.Aside host frame t ∧ (r = .ok () → Unmarks site frame category s t)

/-- A rule that uses no mark ends by changing the record of its frame. -/
theorem marksLeft_record {r : Except Fault Unit} (unmarking : category.marksDepth = false)
    (before : s.Aside host frame t) (on : OnRecord host.MayDrop frame t u record n)
    (marks : record.marks = (s.recordOf frame).marks) :
    MarksLeft host site frame category s r u := by
  refine ⟨before.trans (.of_onRecord before.sane on), fun _ => ?_⟩
  rw [Unmarks, unmarking, on.recordOf]
  exact marks

/-- As `marksLeft_record`, for a rule that consumes the operands of its site. -/
theorem marksLeft_taken {r : Except Fault Unit} {operands : List (Node K.Value)}
    {rest : Record K.Value × Nat} (marking : category.marksDepth = true)
    (run : (takeOperands site).run.run (s.recordOf frame, s.nextSeq) = (.ok operands, rest))
    (before : s.Aside host frame t) (on : OnRecord host.MayDrop frame t u record n)
    (marks : record.marks = rest.1.marks) : MarksLeft host site frame category s r u := by
  refine ⟨before.trans (.of_onRecord before.sane on), fun _ => ?_⟩
  rw [Unmarks, marking, on.recordOf]
  exact ⟨operands, rest, run, marks⟩

theorem marksLeft_failed {fault : Fault} (aside : s.Aside host frame t) :
    MarksLeft host site frame category s (.error fault) t :=
  ⟨aside, nofun⟩

theorem marksLeft_lacking {what : Capability} (sane : s.Unpoisoned)
    (reads : category.capability? = some what) (lacks : site.has what = false) :
    Ends (applyLeave tracer host site frame value category) s
      (MarksLeft host site frame category s) :=
  .of_run (run_leave_lacking reads lacks) (marksLeft_failed (.of_same sane (.refl s)))

theorem marksLeft_operands (sane : s.Unpoisoned) :
    Ends (applyLeave tracer host site frame value .useStackDefStack) s
      (MarksLeft host site frame .useStackDefStack s) := by
  rcases run : (takeOperands site).run.run (s.recordOf frame, s.nextSeq) with
    ⟨fault | operands, rest, next⟩
  · refine (leave_operands sane run).mono ?_
    rintro r t ⟨rfl, on⟩
    exact marksLeft_failed (.of_onRecord sane on)
  · refine (leave_operands sane run).mono ?_
    rintro r t ⟨rfl, on⟩
    exact marksLeft_taken rfl run (.of_same sane (.refl s)) on rfl

theorem marksLeft_readLocal (sane : s.Unpoisoned) :
    Ends (applyLeave tracer host site frame value .useLocalDefStack) s
      (MarksLeft host site frame .useLocalDefStack s) := by
  cases found : site.localSlot with
  | none => exact marksLeft_lacking sane rfl (congrArg Option.isSome found)
  | some name =>
    refine (leave_readLocal sane name found).mono ?_
    rintro r t ⟨rfl, on⟩
    exact marksLeft_record rfl (.of_same sane (.refl s)) on (Record.current_marks ..)

theorem marksLeft_writeLocal (sane : s.Unpoisoned) :
    Ends (applyLeave tracer host site frame value .useStackDefLocalStack) s
      (MarksLeft host site frame .useStackDefLocalStack s) := by
  cases found : site.localSlot with
  | none => exact marksLeft_lacking sane rfl (congrArg Option.isSome found)
  | some name =>
    refine (leave_writeLocal sane name found).mono fun r t done => ?_
    cases stack : (s.recordOf frame).stack with
    | nil =>
      rw [stack] at done
      exact marksLeft_record rfl (.of_same sane (.refl s)) done.2 rfl
    | cons top below =>
      rw [stack] at done
      exact marksLeft_record rfl (.of_same sane (.refl s)) done.2 rfl

theorem marksLeft_readClassVariable (sane : s.Unpoisoned) :
    Ends (applyLeave tracer host site frame value .useClassVarDefStack) s
      (MarksLeft host site frame .useClassVarDefStack s) := by
  cases found : site.classVariable with
  | none => exact marksLeft_lacking sane rfl (congrArg Option.isSome found)
  | some owned =>
    refine (leave_readClassVariable sane owned found).mono ?_
    rintro r t ⟨rfl, mid, read, pushed⟩
    exact marksLeft_record rfl (.of_frames (read.unpoisoned sane) read.frames) pushed rfl

theorem marksLeft_writeClassVariable (sane : s.Unpoisoned) :
    Ends (applyLeave tracer host site frame value .useStackDefClassVar) s
      (MarksLeft host site frame .useStackDefClassVar s) := by
  cases found : site.classVariable with
  | none => exact marksLeft_lacking sane rfl (congrArg Option.isSome found)
  | some owned =>
    refine (leave_writeClassVariable sane owned found).mono fun r t done => ?_
    cases stack : (s.recordOf frame).stack with
    | nil =>
      rw [stack] at done
      exact marksLeft_record rfl (.of_same sane (.refl s)) done.2 rfl
    | cons top below =>
      rw [stack] at done
      obtain ⟨rfl, mid, late, popped, written, pushed⟩ := done
      have saneLate := written.unpoisoned (popped.unpoisoned sane)
      exact marksLeft_record rfl ((Aside.of_onRecord sane popped).trans
        (.of_frames saneLate written.frames)) pushed rfl

theorem marksLeft_readGlobal (sane : s.Unpoisoned) :
    Ends (applyLeave tracer host site frame value .useGlobalDefStack) s
      (MarksLeft host site frame .useGlobalDefStack s) := by
  cases found : site.globalName with
  | none => exact marksLeft_lacking sane rfl (congrArg Option.isSome found)
  | some name =>
    refine (leave_readGlobal sane name found).mono ?_
    rintro r t ⟨rfl, mid, read, pushed⟩
    exact marksLeft_record rfl (.of_frames (read.unpoisoned sane) read.frames) pushed rfl

theorem marksLeft_writeGlobal (sane : s.Unpoisoned) :
    Ends (applyLeave tracer host site frame value .useStackDefGlobal) s
      (MarksLeft host site frame .useStackDefGlobal s) := by
  cases found : site.globalName with
  | none => exact marksLeft_lacking sane rfl (congrArg Option.isSome found)
  | some name =>
    refine (leave_writeGlobal sane name found).mono fun r t done => ?_
    cases stack : (s.recordOf frame).stack with
    | nil =>
      rw [stack] at done
      exact marksLeft_record rfl (.of_same sane (.refl s)) done.2 rfl
    | cons top below =>
      rw [stack] at done
      obtain ⟨rfl, mid, late, popped, written, pushed⟩ := done
      have saneLate := written.unpoisoned (popped.unpoisoned sane)
      exact marksLeft_record rfl ((Aside.of_onRecord sane popped).trans
        (.of_frames saneLate written.frames)) pushed rfl

/-- A receiver and the other operands are the operands of the site. -/
theorem takeOperands_of_receiver {absent : Violation} {receiver : Node K.Value}
    {others : List (Node K.Value)} {rest : Record K.Value × Nat}
    (run : (takeReceiver site absent).run.run (record, n) = (.ok (receiver, others), rest)) :
    (takeOperands site).run.run (record, n) = (.ok (receiver :: others), rest) := by
  rw [run_takeReceiver] at run
  rcases taken : (takeOperands site).run.run (record, n) with ⟨fault | _ | ⟨first, more⟩, left⟩ <;>
    rw [taken] at run <;> cases run
  rfl

theorem marksLeft_writeProperty (sane : s.Unpoisoned) :
    Ends (applyLeave tracer host site frame value .useStackDefPropertyStack) s
      (MarksLeft host site frame .useStackDefPropertyStack s) := by
  cases found : site.property with
  | none => exact marksLeft_lacking sane rfl (congrArg Option.isSome found)
  | some property =>
    rcases run : (takeReceiver site (.writeWithoutReceiver site.id site.label)).run.run
      (s.recordOf frame, s.nextSeq) with ⟨fault | ⟨receiver, others⟩, record, next⟩
    · refine (leave_assignProperty sane property found run).mono ?_
      rintro r t ⟨rfl, on⟩
      exact marksLeft_failed (.of_onRecord sane on)
    · refine (leave_assignProperty sane property found run).mono ?_
      rintro r t ⟨rfl, mid, late, popped, written, pushed⟩
      have saneMid := popped.unpoisoned sane
      have aside : mid.Aside host frame late := by
        cases behind : objectBehind host receiver with
        | none =>
          rw [behind] at written
          exact .of_same saneMid written
        | some object =>
          rw [behind] at written
          exact .of_frames (written.unpoisoned saneMid) written.frames
      exact marksLeft_taken rfl (takeOperands_of_receiver run)
        ((Aside.of_onRecord sane popped).trans aside) pushed rfl

theorem marksLeft_readProperty (sane : s.Unpoisoned) :
    Ends (applyLeave tracer host site frame value .usePropertyStackDefStack) s
      (MarksLeft host site frame .usePropertyStackDefStack s) := by
  cases found : site.property with
  | none => exact marksLeft_lacking sane rfl (congrArg Option.isSome found)
  | some property =>
    rcases run : (takeReceiver site (.readWithoutReceiver site.id site.label)).run.run
      (s.recordOf frame, s.nextSeq) with ⟨fault | ⟨receiver, others⟩, record, next⟩
    · refine (leave_fetchProperty sane property found run).mono ?_
      rintro r t ⟨rfl, on⟩
      exact marksLeft_failed (.of_onRecord sane on)
    · refine (leave_fetchProperty sane property found run).mono ?_
      rintro r t ⟨rfl, mid, late, slot, seq, popped, read, pushed⟩
      have saneMid := popped.unpoisoned sane
      have aside : mid.Aside host frame late := by
        cases behind : objectBehind host receiver with
        | none =>
          rw [behind] at read
          obtain ⟨-, -, store, -⟩ := read
          refine .of_frames ⟨?_, ?_, ?_⟩ (by rw [store]) <;> rw [store]
          · exact saneMid.frames
          · exact saneMid.objects
          · exact saneMid.scopes
        | some object =>
          rw [behind] at read
          exact .of_frames (read.2.2.unpoisoned saneMid) read.2.2.frames
      exact marksLeft_taken rfl (takeOperands_of_receiver run)
        ((Aside.of_onRecord sane popped).trans aside) pushed rfl

theorem marksLeft_bindArgument (sane : s.Unpoisoned) :
    Ends (applyLeave tracer host site frame value .useArgDefStack) s
      (MarksLeft host site frame .useArgDefStack s) := by
  cases found : site.argument with
  | none => exact marksLeft_lacking sane rfl (congrArg Option.isSome found)
  | some slot =>
    refine (leave_bindArgument sane slot found).mono fun r t done => ?_
    cases traced : callerRecord? host s frame with
    | none =>
      rw [traced] at done
      exact marksLeft_record rfl (.of_same sane (.refl s)) done.2 rfl
    | some caller =>
      rw [traced] at done
      dsimp only at done
      cases peeked : caller.peekAt (argumentTotal host frame slot - (slot.index + 1)) with
      | error fault =>
        rw [peeked] at done
        obtain ⟨rfl, same⟩ := done
        exact marksLeft_failed (.of_same sane same)
      | ok origin =>
        rw [peeked] at done
        exact marksLeft_record rfl (.of_same sane (.refl s)) done.2 rfl

/-- The caller keeps its marks when it is handed an operand. -/
theorem marksLeft_boundary (sane : s.Unpoisoned) :
    Ends (applyLeave tracer host site frame value .functionBoundary) s
      (MarksLeft host site frame .functionBoundary s) := by
  refine (leave_boundary sane).mono ?_
  rintro r t ⟨rfl, done⟩
  cases handed : handedBack? host s frame with
  | none =>
    rw [handed] at done
    refine ⟨.of_same sane done, fun _ => ?_⟩
    exact congrArg _ (recordOf_congr (by rw [done.1]) frame)
  | some pair =>
    obtain ⟨caller, node⟩ := pair
    rw [handed] at done
    obtain ⟨mid, took, gave⟩ := done
    obtain ⟨there, one⟩ := handedBack?_eq handed
    have own : s.record? frame ≠ none := by
      intro absent
      rw [recordOf, absent] at one
      cases one
    have kept := marks?_of_onRecord took own rfl
    have still : mid.record? caller ≠ none := fun absent =>
      there (marks?_eq_none.mp ((kept caller).symm.trans (marks?_eq_none.mpr absent)))
    have marks : ∀ g, t.marks? g = s.marks? g := fun g =>
      (marks?_of_onRecord gave still rfl g).trans (kept g)
    exact ⟨.of_marks? (gave.unpoisoned (took.unpoisoned sane)) marks,
      fun _ => marks_of_marks? (marks frame)⟩

/-- Every rule applied on return. -/
theorem marksLeft_leave (sane : s.Unpoisoned) (category : Category) :
    Ends (applyLeave tracer host site frame value category) s
      (MarksLeft host site frame category s) := by
  cases category with
  | functionBoundary => exact marksLeft_boundary sane
  | noUseDefStack =>
    refine (leave_noUse sane).mono ?_
    rintro r t ⟨rfl, on⟩
    exact marksLeft_record rfl (.of_same sane (.refl s)) on rfl
  | useStackDefStack => exact marksLeft_operands sane
  | useLocalDefStack => exact marksLeft_readLocal sane
  | useStackDefLocalStack => exact marksLeft_writeLocal sane
  | useArgDefStack => exact marksLeft_bindArgument sane
  | useStackDefPropertyStack => exact marksLeft_writeProperty sane
  | usePropertyStackDefStack => exact marksLeft_readProperty sane
  | useStackDefReturn => exact ⟨.of_same sane (.refl s), fun _ => rfl⟩
  | useClassVarDefStack => exact marksLeft_readClassVariable sane
  | useStackDefClassVar => exact marksLeft_writeClassVariable sane
  | useGlobalDefStack => exact marksLeft_readGlobal sane
  | useStackDefGlobal => exact marksLeft_writeGlobal sane
  | callNode => exact ⟨.of_same sane ⟨rfl, rfl⟩, fun _ => rfl⟩

/-- Every rule applied on unwind: one that would have consumed operands forgets its mark. -/
theorem marks_unwind (sane : s.Unpoisoned) (exception : String) (category : Category) :
    Ends (applyUnwind host site frame exception category) s fun r t => s.Aside host frame t ∧
      (r = .ok () → (t.recordOf frame).marks =
        if category.marksDepth then ((s.recordOf frame).unmark site.id).marks
        else (s.recordOf frame).marks) := by
  cases marking : category.marksDepth with
  | true =>
    refine (unwind_marking sane marking exception).mono ?_
    rintro r t ⟨rfl, done⟩
    cases known : s.record? frame with
    | none =>
      rw [known] at done
      refine ⟨.of_same sane done, fun _ => ?_⟩
      rw [recordOf, done.record?_eq, recordOf, known]
      rfl
    | some record =>
      rw [known] at done
      refine ⟨.of_onRecord sane (done.mono fun _ => False.elim), fun _ => ?_⟩
      rw [done.recordOf, recordOf_eq known]
      rfl
  | false =>
    by_cases returning : category = .useStackDefReturn
    · subst returning
      refine (unwind_return sane exception).mono fun r t done => ?_
      cases stack : (s.recordOf frame).stack with
      | nil =>
        rw [stack] at done
        exact ⟨.of_onRecord sane done.2, fun _ => congrArg _ done.2.recordOf⟩
      | cons top below =>
        rw [stack] at done
        refine ⟨.of_onRecord sane done.2, fun _ => ?_⟩
        rw [done.2.recordOf]
        rfl
    · refine (unwind_other returning marking exception).mono ?_
      rintro r t ⟨rfl, same⟩
      refine ⟨.of_same sane same, fun _ => ?_⟩
      exact congrArg Record.marks (recordOf_congr (by rw [same.1]) frame)

/-- The rules applied on enter. -/
theorem aside_enter (sane : s.Unpoisoned) (category : Category) :
    Ends (applyEnter host site frame category) s fun _ t => s.Aside host frame t := by
  by_cases boundary : category = .functionBoundary
  · subst boundary
    exact (enter_boundary sane).mono fun _ _ ends => .of_onRecord sane ends.2
  · cases marking : category.marksDepth with
    | true => exact (enter_marking sane marking).mono fun _ _ ends => .of_onRecord sane ends.2
    | false =>
      refine (enter_other boundary marking).mono ?_
      rintro r t ⟨-, rfl⟩
      exact .of_same sane (.refl _)

/-! ### The checkpoints of one site -/

variable {c : Checkpoint K} {depth : Nat} {marks : List DepthMark}

/-- The rules of a checkpoint leave the other frames aside. -/
theorem aside_rule (sane : s.Unpoisoned) (category : Category) :
    Ends (tracer.rule host c category) s fun _ t => s.Aside host c.frame t := by
  obtain ⟨site, frame, moment⟩ := c
  cases moment with
  | enter => exact aside_enter sane category
  | leave value => exact (marksLeft_leave sane category).mono fun _ _ => And.left
  | unwind exception => exact (marks_unwind sane exception category).mono fun _ _ => And.left

theorem aside_react (sane : s.Unpoisoned) :
    Ends (tracer.react host c) s fun _ t => s.Aside host c.frame t := by
  refine ends_react (P := fun t => s.Aside host c.frame t) ?_ ?_ (.of_same sane (.refl s))
  · exact fun t u same aside => aside.trans (.of_same aside.sane same)
  · intro category t aside
    exact (aside_rule aside.sane category).mono fun _ _ => aside.trans

/-- Entering a site notes the present depth once for each category that will consume operands, and
    does nothing else to the record. -/
theorem record_entering (tracer : Tracer) (host : Host K) (opens : c.moment = .enter)
    (categories : List Category) (within : .functionBoundary ∉ categories) (sane : s.Unpoisoned) :
    Ends (categories.forM fun category =>
      ExceptT.adapt (·.atSite c.site.id) (tracer.rule host c category)) s fun _ t =>
        t.recordOf c.frame = { s.recordOf c.frame with
          marks := List.replicate (categories.countP Category.marksDepth)
            ⟨c.site.id, (s.recordOf c.frame).depth⟩ ++ (s.recordOf c.frame).marks } := by
  obtain ⟨site, frame, moment⟩ := c
  cases opens
  induction categories generalizing s with
  | nil => exact rfl
  | cons category rest ih =>
    have first : category ≠ .functionBoundary := fun same => within (same ▸ List.mem_cons_self)
    have others := fun inside => within (List.mem_cons_of_mem category inside)
    rw [ends_rules_cons]
    cases marking : category.marksDepth with
    | true =>
      refine (enter_marking sane marking).mono ?_
      rintro r t ⟨rfl, on⟩
      refine (ih others (on.unpoisoned sane)).mono fun _ u after => ?_
      rw [after, on.recordOf, List.countP_cons_of_pos marking, List.replicate_succ',
        List.append_assoc]
      rfl
    | false =>
      refine (enter_other first marking).mono ?_
      rintro r t ⟨rfl, rfl⟩
      refine (ih others sane).mono fun _ u after => ?_
      rw [after, List.countP_cons_of_neg (by rw [marking]; nofun)]

/-- The site can tell its operands: those that lie above `depth` on the stack. -/
def TakesDownTo (depth : Nat) (site : Site K) (record : Record K.Value) : Prop :=
  depth ≤ record.depth ∧ ∀ n, ∃ rest, (takeOperands site).run.run (record, n) =
    (.ok (record.stack.take (record.depth - depth)), rest)

/-- Operands that are taken are those above the innermost mark, which is used up. -/
theorem taken_of_marks {operands : List (Node K.Value)} {rest : Record K.Value × Nat}
    (run : (takeOperands site).run.run (record, n) = (.ok operands, rest))
    (marked : record.marks = ⟨site.id, depth⟩ :: marks) :
    TakesDownTo depth site record ∧ rest.1.marks = marks := by
  have found : record.mark? site.id = some ⟨site.id, depth⟩ := by
    rw [Record.mark?, marked]
    exact List.find?_cons_of_pos (decide_eq_true rfl)
  have enough : ¬ record.depth < depth := by
    intro below
    rw [run_takeOperands, found] at run
    dsimp only at run
    rw [if_pos below] at run
    cases run
  refine ⟨⟨Nat.le_of_not_lt enough, fun m => ?_⟩, ?_⟩
  · rw [run_takeOperands, found]
    dsimp only
    rw [if_neg enough]
    exact ⟨_, rfl⟩
  · rw [run_takeOperands, found] at run
    dsimp only at run
    rw [if_neg enough] at run
    cases run
    exact Record.unmark_marks_cons marked

/-- A rule of a category that consumes operands uses up the innermost mark when its site is left, also
    if an exception leaves it; on return the operands are those above that mark. -/
theorem marks_leaving (closes : c.moment ≠ .enter) (sane : s.Unpoisoned) (category : Category) :
    Ends (tracer.rule host c category) s fun r t => r = .ok () →
      if category.marksDepth then
        ∀ depth marks, (s.recordOf c.frame).marks = ⟨c.site.id, depth⟩ :: marks →
          (t.recordOf c.frame).marks = marks ∧
            (c.moment.kind = .leave → TakesDownTo depth c.site (s.recordOf c.frame))
      else (t.recordOf c.frame).marks = (s.recordOf c.frame).marks := by
  obtain ⟨site, frame, moment⟩ := c
  cases moment with
  | enter => exact absurd rfl closes
  | unwind exception =>
    refine (marks_unwind sane exception category).mono fun r t ends accepted => ?_
    have after := ends.2 accepted
    cases marking : category.marksDepth with
    | false => rwa [marking] at after
    | true =>
      rw [marking] at after
      rw [if_pos rfl]
      intro depth marks marked
      exact ⟨after.trans (Record.unmark_marks_cons marked), nofun⟩
  | leave value =>
    refine (marksLeft_leave sane category).mono fun r t ends accepted => ?_
    have after := ends.2 accepted
    cases marking : category.marksDepth with
    | false => rwa [Unmarks, marking] at after
    | true =>
      rw [Unmarks, marking] at after
      rw [if_pos rfl]
      intro depth marks marked
      obtain ⟨operands, rest, run, left⟩ := after
      obtain ⟨takes, unmarked⟩ := taken_of_marks run marked
      exact ⟨left.trans unmarked, fun _ => takes⟩

/-- Leaving a site that has as many marks as it has categories that consume operands uses up these
    marks. -/
theorem marks_closing (tracer : Tracer) (host : Host K) (closes : c.moment ≠ .enter)
    (categories : List Category) (sane : s.Unpoisoned)
    (marked : (s.recordOf c.frame).marks =
      List.replicate (categories.countP Category.marksDepth) ⟨c.site.id, depth⟩ ++ marks) :
    Ends (categories.forM fun category =>
      ExceptT.adapt (·.atSite c.site.id) (tracer.rule host c category)) s fun r t => r = .ok () →
        (t.recordOf c.frame).marks = marks ∧
          ∀ step ∈ tracer.ruleSteps host c categories s, ∀ category,
            step.deed = .rule host c category → category.marksDepth = true →
            c.moment.kind = .leave → TakesDownTo depth c.site (step.before.recordOf c.frame) := by
  induction categories generalizing s with
  | nil =>
    refine fun _ => ⟨marked, fun step mem => ?_⟩
    rw [ruleSteps] at mem
    cases mem
  | cons category rest ih =>
    rw [ends_rules_cons]
    have own : Ends (tracer.rule host c category) s _ := marks_leaving closes sane category
    have aside : Ends (tracer.rule host c category) s _ := aside_rule sane category
    unfold Ends at own aside ⊢
    rcases run : (tracer.rule host c category).run.run s with ⟨fault | _, t⟩ <;>
      rw [run] at own aside
    · intro refused
      cases refused
    · rw [ruleSteps_accepted run]
      replace own := own rfl
      intro accepted
      cases marking : category.marksDepth with
      | false =>
        rw [marking] at own
        rw [List.countP_cons_of_neg (by rw [marking]; exact Bool.false_ne_true)] at marked
        obtain ⟨left, steps⟩ := ih aside.sane (own.trans marked) accepted
        refine ⟨left, fun step mem other deed marks => ?_⟩
        rcases List.mem_cons.mp mem with rfl | mem
        · cases deed
          exact absurd (marking.symm.trans marks) Bool.false_ne_true
        · exact steps step mem other deed marks
      | true =>
        rw [marking, if_pos rfl] at own
        rw [List.countP_cons_of_pos marking, List.replicate_succ, List.cons_append] at marked
        obtain ⟨unmarked, takes⟩ := own _ _ marked
        obtain ⟨left, steps⟩ := ih aside.sane unmarked accepted
        refine ⟨left, fun step mem other deed marks => ?_⟩
        rcases List.mem_cons.mp mem with rfl | mem
        · exact takes
        · exact steps step mem other deed marks

end Tracer

/-! ### Acts -/

namespace Act

/-- The checkpoint that is told, if it is one of `frame`. -/
def checkpointOf? (frame : K.Frame) : Act K → Option (Checkpoint K)
  | checkpoint _ c => if c.frame = frame then some c else none
  | _ => none

/-- The checkpoints of `frame` among some acts. -/
def checkpointsOf (frame : K.Frame) (acts : List (Act K)) : List (Checkpoint K) :=
  acts.filterMap (checkpointOf? frame)

/-- The record of `frame` may be gone after the act, whatever the tracer does for other frames. -/
def Drops (frame : K.Frame) : Act K → Prop
  | checkpoint host _ => host.MayDrop frame
  | sweep host => host.MayDrop frame
  | release released => released = frame

theorem eq_checkpoint {frame : K.Frame} {act : Act K} {c : Checkpoint K}
    (h : act.checkpointOf? frame = some c) : ∃ host, act = .checkpoint host c ∧ c.frame = frame := by
  cases act with
  | checkpoint host other =>
    by_cases own : other.frame = frame
    · rw [checkpointOf?, if_pos own] at h
      cases h
      exact ⟨host, rfl, own⟩
    · rw [checkpointOf?, if_neg own] at h
      cases h
  | sweep host => cases h
  | release released => cases h

/-- The acts before and after one of the checkpoints of `frame`. -/
theorem split_checkpointsOf {frame : K.Frame} {acts : List (Act K)} {c : Checkpoint K}
    {others : List (Checkpoint K)} (first : List (Checkpoint K))
    (h : checkpointsOf frame acts = first ++ c :: others) :
    ∃ past host rest, acts = past ++ .checkpoint host c :: rest ∧ c.frame = frame ∧
      checkpointsOf frame past = first ∧ checkpointsOf frame rest = others := by
  obtain ⟨past, tail, rfl, before, after⟩ := List.filterMap_eq_append_iff.mp h
  obtain ⟨quiet, act, rest, rfl, none, own, others⟩ := List.filterMap_eq_cons_iff.mp after
  obtain ⟨host, rfl, same⟩ := eq_checkpoint own
  refine ⟨past ++ quiet, host, rest, (List.append_assoc ..).symm, same, ?_, others⟩
  rw [checkpointsOf, List.filterMap_append, before, List.filterMap_eq_nil_iff.mpr none,
    List.append_nil]

end Act

namespace Shadow

variable {tracer : Tracer} {host : Host K} {frame : K.Frame} {s : Shadow K} {acts more : List (Act K)}

/-- Along the acts `frame` keeps its record once it has one, and its own checkpoints are accepted and
    are about sites within its function. -/
def Undisturbed (tracer : Tracer) (frame : K.Frame) : Shadow K → List (Act K) → Prop
  | _, [] => True
  | s, act :: rest =>
      (s.record? frame ≠ none → (act.after tracer s).record? frame ≠ none) ∧
        (∀ host c, act = .checkpoint host c → c.frame = frame →
          c.site.categories.contains .functionBoundary = false ∧
            ((tracer.react host c).run.run s).1 = .ok ()) ∧
        Undisturbed tracer frame (act.after tracer s) rest

theorem undisturbed_append : s.Undisturbed tracer frame (acts ++ more) ↔
    s.Undisturbed tracer frame acts ∧ (s.afterAll tracer acts).Undisturbed tracer frame more := by
  induction acts generalizing s with
  | nil => exact ⟨fun h => ⟨trivial, h⟩, And.right⟩
  | cons act rest ih =>
    simp only [List.cons_append, Undisturbed, ih, and_assoc]
    exact Iff.rfl

/-- The marks of a frame at an act that is no checkpoint of its own. -/
theorem marks?_after (tracer : Tracer) (sane : s.Unpoisoned) {act : Act K}
    (other : act.checkpointOf? frame = none) :
    (act.after tracer s).marks? frame = s.marks? frame ∨
      (act.after tracer s).record? frame = none ∧ act.Drops frame := by
  cases act with
  | checkpoint host c =>
    have far : frame ≠ c.frame := by
      rintro rfl
      rw [Act.checkpointOf?, if_pos rfl] at other
      cases other
    have aside : s.Aside host c.frame ((Act.checkpoint host c).after tracer s) := aside_react sane
    exact aside.others frame far
  | sweep host =>
    exact (s.record?_sweep host frame).imp (congrArg (Option.map _)) fun ⟨gone, _, _, _, dead⟩ =>
      ⟨gone, _, dead⟩
  | release released =>
    by_cases same : released = frame
    · refine .inr ⟨?_, same⟩
      change ((s.store.frames.remove released).2.find? frame).map _ = none
      rw [Table.find?_remove, if_pos same]
      rfl
    · refine .inl ?_
      change ((((s.store.frames.remove released).2.find? frame).map _).map _) = _
      rw [Table.find?_remove, if_neg same]
      rfl

/-- A frame that the host keeps alive keeps its record. -/
theorem record?_after (sane : s.Unpoisoned) {act : Act K} (alive : ¬ act.Drops frame)
    (known : s.record? frame ≠ none) : (act.after tracer s).record? frame ≠ none := by
  cases told : act.checkpointOf? frame with
  | some c =>
    obtain ⟨host, rfl, rfl⟩ := Act.eq_checkpoint told
    have aside : s.Aside host c.frame ((Act.checkpoint host c).after tracer s) := aside_react sane
    exact aside.own known
  | none =>
    rcases marks?_after tracer sane told with same | ⟨-, dropped⟩
    · rwa [ne_eq, ← marks?_eq_none, same, marks?_eq_none]
    · exact absurd dropped alive

/-- An act at which the host keeps `frame` alive leaves it undisturbed, if it is not a checkpoint of
    the frame's own which is refused or about another function. -/
theorem undisturbed_of_owned {act : Act K} (sane : s.Unpoisoned) (alive : ¬ act.Drops frame)
    (own : ∀ host c, act = .checkpoint host c → c.frame = frame →
      c.site.categories.contains .functionBoundary = false ∧
        ((tracer.react host c).run.run s).1 = .ok ())
    (later : (act.after tracer s).Undisturbed tracer frame acts) :
    s.Undisturbed tracer frame (act :: acts) :=
  ⟨record?_after sane alive, own, later⟩

theorem sane_afterAll (tracer : Tracer) (acts : List (Act K)) (sane : s.Unpoisoned) :
    (s.afterAll tracer acts).Unpoisoned := (afterAll_keeps acts sane).1

theorem marks?_afterAll (sane : s.Unpoisoned) (quiet : Act.checkpointsOf frame acts = [])
    (undisturbed : s.Undisturbed tracer frame acts) :
    (s.afterAll tracer acts).marks? frame = s.marks? frame := by
  induction acts generalizing s with
  | nil => rfl
  | cons act rest ih =>
    obtain ⟨kept, -, later⟩ := undisturbed
    have others := List.filterMap_eq_nil_iff.mp quiet
    have first : (act.after tracer s).marks? frame = s.marks? frame := by
      rcases marks?_after tracer sane (others act List.mem_cons_self) with
        same | ⟨gone, -⟩
      · exact same
      · have absent : s.record? frame = none :=
          Classical.byContradiction fun known => kept known gone
        rw [marks?_eq_none.mpr gone, marks?_eq_none.mpr absent]
    refine (ih (sane_afterAll tracer [act] sane) ?_ later).trans first
    exact List.filterMap_eq_nil_iff.mpr fun other mem => others other (List.mem_cons_of_mem act mem)

/-! ### Own checkpoints -/

/-- The marks once a site has noted `depth`, for each of its categories that consume operands. -/
def Opened (site : Site K) (depth : Nat) (marks : List DepthMark) : List DepthMark :=
  List.replicate (site.categories.toList.countP Category.marksDepth) ⟨site.id, depth⟩ ++ marks

theorem recordOf_noted (s : Shadow K) (c : Checkpoint K) :
    (noted s c).recordOf frame = s.recordOf frame :=
  recordOf_congr (by rw [(sameState_noted s c).1]) frame

variable {c : Checkpoint K} {depth : Nat} {marks : List DepthMark}

theorem marks_opening (tracer : Tracer) (host : Host K) (sane : s.Unpoisoned)
    (opens : c.moment = .enter)
    (within : c.site.categories.contains .functionBoundary = false) :
    (((Act.checkpoint host c).after tracer s).recordOf c.frame).marks =
      Opened c.site (s.recordOf c.frame).depth (s.recordOf c.frame).marks := by
  have inside : .functionBoundary ∉ c.site.categories.toList := by
    rw [CategorySet.mem_toList, within]
    exact Bool.false_ne_true
  have ends := record_entering tracer host opens _ inside ((sameState_noted s c).unpoisoned sane)
  rw [Ends, ← run_react, recordOf_noted] at ends
  exact congrArg Record.marks ends

theorem marks_closed (sane : s.Unpoisoned) (closes : c.moment ≠ .enter)
    (marked : (s.recordOf c.frame).marks = Opened c.site depth marks)
    (accepted : ((tracer.react host c).run.run s).1 = .ok ()) :
    (((Act.checkpoint host c).after tracer s).recordOf c.frame).marks = marks ∧
      ∀ step ∈ (Act.checkpoint host c).steps tracer s, ∀ category,
        step.deed = .rule host c category → category.marksDepth = true →
        c.moment.kind = .leave → TakesDownTo depth c.site (step.before.recordOf c.frame) := by
  have ends := marks_closing tracer host closes c.site.categories.toList
    ((sameState_noted s c).unpoisoned sane) (by rw [recordOf_noted]; exact marked)
  rw [Ends, ← run_react] at ends
  exact ends accepted

/-- Between an enter and the checkpoint that closes it the site has its marks, provided that what lies
    between the two leaves them alone. -/
theorem marks_inside {inner : List (Act K)} (sane : s.Unpoisoned) (opens : c.moment = .enter)
    (undisturbed : s.Undisturbed tracer frame (.checkpoint host c :: inner)) (own : c.frame = frame)
    (balanced : ∀ t : Shadow K, t.Unpoisoned → t.Undisturbed tracer frame inner →
      ((t.afterAll tracer inner).recordOf frame).marks = (t.recordOf frame).marks) :
    ((s.afterAll tracer (.checkpoint host c :: inner)).recordOf frame).marks =
      Opened c.site (s.recordOf frame).depth (s.recordOf frame).marks := by
  subst own
  obtain ⟨-, own, later⟩ := undisturbed
  have opened := marks_opening tracer host sane opens (own host c rfl rfl).1
  exact (balanced _ (sane_afterAll tracer [.checkpoint host c] sane) later).trans opened

theorem marks_balanced {checkpoints : List (Checkpoint K)} (bracketed : Bracketed checkpoints)
    {acts : List (Act K)} {s : Shadow K} (sane : s.Unpoisoned)
    (own : Act.checkpointsOf frame acts = checkpoints)
    (undisturbed : s.Undisturbed tracer frame acts) :
    ((s.afterAll tracer acts).recordOf frame).marks = (s.recordOf frame).marks := by
  induction bracketed generalizing acts s with
  | nil => exact marks_of_marks? (marks?_afterAll sane own undisturbed)
  | @pair opening closing inside after opens closes site same _ _ ihInner ihRest =>
    obtain ⟨quiet, opener, others, rfl, openingOwn, none, tail⟩ :=
      Act.split_checkpointsOf [] own
    obtain ⟨inner, closer, rest, rfl, closingOwn, within, last⟩ := Act.split_checkpointsOf inside tail
    obtain ⟨first, others⟩ := undisturbed_append.mp undisturbed
    rw [← List.cons_append] at others ⊢
    obtain ⟨pair, -, accepted, later⟩ := undisturbed_append.mp others
    have saneFirst := sane_afterAll tracer quiet sane
    have before := marks_of_marks? (marks?_afterAll sane none first)
    have opened := marks_inside saneFirst opens pair openingOwn
      fun t saneInner => ihInner saneInner within
    have sanePair := sane_afterAll tracer (.checkpoint opener opening :: inner) saneFirst
    rw [← site, ← closingOwn] at opened
    have closed := (marks_closed sanePair closes opened
      (accepted closer closing rfl closingOwn).2).1
    rw [closingOwn] at closed
    have saneClosed := sane_afterAll tracer [.checkpoint closer closing] sanePair
    rw [afterAll_append, afterAll_append]
    exact ((ihRest saneClosed last later).trans closed).trans before

/-- Take any acts, of any frames and in any order, among which the checkpoints of `frame` are well
    bracketed, and which leave it undisturbed. Then its marks are in the end what they were before, and
    each of its sites that returns has an enter of its own, from which on everything is closed: a
    category of the site that consumes operands takes those above the depth that the stack had then. -/
theorem marks_match (sane : s.Unpoisoned) (bracketed : Bracketed (Act.checkpointsOf frame acts))
    (undisturbed : s.Undisturbed tracer frame acts) :
    ((s.afterAll tracer acts).recordOf frame).marks = (s.recordOf frame).marks ∧
      ∀ past host c value rest, acts = past ++ .checkpoint host c :: rest → c.frame = frame →
        c.moment = .leave value →
        ∃ before opener opening inner, past = before ++ .checkpoint opener opening :: inner ∧
          opening.moment = .enter ∧ opening.site = c.site ∧ opening.frame = frame ∧
          Bracketed (Act.checkpointsOf frame inner) ∧
          ∀ step ∈ (Act.checkpoint host c).steps tracer (s.afterAll tracer past), ∀ category,
            step.deed = .rule host c category → category.marksDepth = true →
            TakesDownTo ((s.afterAll tracer before).recordOf frame).depth c.site
              (step.before.recordOf frame) := by
  refine ⟨marks_balanced bracketed sane rfl undisturbed, ?_⟩
  rintro past host c value rest rfl own returns
  have closes : c.moment ≠ .enter := by
    rw [returns]
    nofun
  have told : (Act.checkpoint host c).checkpointOf? frame = some c := if_pos own
  have stream : Act.checkpointsOf frame (past ++ .checkpoint host c :: rest) =
      Act.checkpointsOf frame past ++ c :: Act.checkpointsOf frame rest := by
    rw [Act.checkpointsOf, List.filterMap_append, List.filterMap_cons_some told]
    rfl
  rw [stream] at bracketed
  obtain ⟨earlier, opening, within, split, opens, site, same, balanced⟩ := bracketed.opening closes
  obtain ⟨before, opener, inner, rfl, openingOwn, -, rfl⟩ := Act.split_checkpointsOf earlier split
  refine ⟨before, opener, opening, inner, rfl, opens, site.symm, openingOwn, balanced, ?_⟩
  obtain ⟨first, -, accepted, -⟩ := undisturbed_append.mp undisturbed
  obtain ⟨-, pair⟩ := undisturbed_append.mp first
  have saneBefore := sane_afterAll tracer before sane
  have opened := marks_inside saneBefore opens pair openingOwn
    fun t saneInner => marks_balanced balanced saneInner rfl
  rw [← afterAll_append] at opened
  have sanePast := sane_afterAll tracer (before ++ .checkpoint opener opening :: inner) sane
  subst own
  rw [← site] at opened
  have closed := marks_closed sanePast closes opened (accepted host c rfl rfl).2
  intro step mem category deed marks
  exact closed.2 step mem category deed marks (by rw [returns]; rfl)

end Shadow

/-! A site nested inside itself, while another frame enters it as well. -/

namespace NestedSite

open WriteThenRead (numbers host)

def checkpoint (id : Nat) (category : Category) (frame : Nat) (moment : Moment Nat) :
    Checkpoint numbers :=
  ⟨{ id := ⟨id⟩, label := "sum", categories := .single category }, frame, moment⟩

def told (id : Nat) (category : Category) (frame : Nat) (moment : Moment Nat) : Act numbers :=
  .checkpoint host (checkpoint id category frame moment)

def acts : List (Act numbers) := [
  told 1 .useStackDefStack 0 .enter,
  told 2 .noUseDefStack 0 .enter,
  told 2 .noUseDefStack 0 (.leave 7),
  told 1 .useStackDefStack 0 .enter,
  told 1 .useStackDefStack 1 .enter,
  told 2 .noUseDefStack 0 .enter,
  told 2 .noUseDefStack 0 (.leave 8),
  told 1 .useStackDefStack 0 (.leave 8),
  told 1 .useStackDefStack 0 (.leave 15)]

def start : Shadow numbers := ⟨.ofInterval 1, 1, {}⟩

theorem bracketed : Bracketed (Act.checkpointsOf (0 : Nat) acts) := by
  have pair : ∀ (id : Nat) (category : Category) (value : Nat) (inside : List (Checkpoint numbers)),
      Bracketed inside → Bracketed (checkpoint id category 0 .enter ::
        (inside ++ [checkpoint id category 0 (.leave value)])) :=
    fun _ _ _ _ inner => .pair rfl nofun rfl rfl inner .nil
  have operand := fun value => pair 2 .noUseDefStack value [] .nil
  have inner := pair 1 .useStackDefStack 8 _ (operand 8)
  exact pair 1 .useStackDefStack 15 _ ((operand 7).append inner)

theorem undisturbed_told {past rest : List (Act numbers)} {id : Nat} {category : Category}
    {frame : Nat} {moment : Moment Nat} (within : category ≠ .functionBoundary)
    (accepted : ((Tracer.react {} host (checkpoint id category frame moment)).run.run
      (start.afterAll {} past)).1 = .ok ())
    (later : (start.afterAll {} (past ++ [told id category frame moment])).Undisturbed {} (0 : Nat)
      rest) :
    (start.afterAll {} past).Undisturbed {} (0 : Nat) (told id category frame moment :: rest) := by
  refine Shadow.undisturbed_of_owned
    (Shadow.sane_afterAll {} past (Shadow.unpoisoned_ofInterval 1 1 {})) ?_ ?_ ?_
  · rintro ⟨nodes, dead⟩
    cases dead
  · rintro _ _ ⟨⟩ -
    refine ⟨?_, accepted⟩
    change (decide (Category.functionBoundary = category) || false) = false
    rw [Bool.or_false, decide_eq_false within.symm]
  · rwa [Shadow.afterAll_append] at later

theorem undisturbed : start.Undisturbed {} (0 : Nat) acts := by
  unfold acts
  change (start.afterAll {} []).Undisturbed {} (0 : Nat) _
  iterate 9
    refine undisturbed_told nofun (by with_unfolding_all rfl) ?_
  trivial

theorem marks_match_nested :
    Bracketed (Act.checkpointsOf (0 : Nat) acts) ∧ start.Undisturbed {} (0 : Nat) acts ∧
      ((start.afterAll {} acts).recordOf (0 : Nat)).marks = [] :=
  ⟨bracketed, undisturbed,
    (Shadow.marks_match (Shadow.unpoisoned_ofInterval 1 1 {}) bracketed undisturbed).1⟩

end NestedSite

end Lineage
