import Lineage.Proofs.Reaching

/-!
# When a rule refuses

A site that was accepted when it was made has all that its rules read, so a rule applied on return can
fail only for want of operands: `Refusal` lists the ways, each with its fault. A rule that has failed
has numbered no node and has left the shadow state alone (`LeftAlone`): at most its frame has got an
empty record, records without an owner have been dropped to make room for it, and the site has used up
the depth that it had noted.
-/

namespace Lineage

variable {K : Kinds}

/-- The rule of the category replaces the topmost operand. -/
def Category.replacesTop : Category → Bool
  | useStackDefLocalStack | useStackDefClassVar | useStackDefGlobal => true
  | _ => false

/-- What replaces the topmost operand neither notes a depth nor binds an argument. -/
theorem Category.of_replacesTop {category : Category} (replaces : category.replacesTop = true) :
    category.marksDepth = false ∧ category ≠ .useArgDefStack := by
  cases category with
  | useStackDefLocalStack => exact ⟨rfl, nofun⟩
  | useStackDefClassVar => exact ⟨rfl, nofun⟩
  | useStackDefGlobal => exact ⟨rfl, nofun⟩
  | _ => cases replaces

/-! ### Sites that were accepted -/

namespace Site

variable {id : SiteId} {label : String} {traits : List (Trait K)} {site : Site K}

theorem check_of_forM {categories : List Category} (h : categories.forM site.check = .ok ()) :
    ∀ category ∈ categories, site.check category = .ok () := by
  induction categories with
  | nil => exact fun _ mem => absurd mem List.not_mem_nil
  | cons first rest ih =>
    change (site.check first >>= fun _ => rest.forM site.check) = .ok () at h
    cases checked : site.check first with
    | error fault =>
      rw [checked] at h
      cases h
    | ok _ =>
      rw [checked] at h
      intro category mem
      rcases List.mem_cons.mp mem with rfl | mem
      · exact checked
      · exact ih h category mem

theorem discard_ok {α : Type} {found : Option α} {what : Capability}
    (h : (discard (site.demand what found) : Except Fault Unit) = .ok ()) : ∃ a, found = some a := by
  cases found with
  | none => cases h
  | some a => exact ⟨a, rfl⟩

theorem argument_of_check (h : site.check .useArgDefStack = .ok ()) :
    ∃ slot, site.argument = some slot := by
  cases found : site.argument with
  | none =>
    unfold check requireArgument demand at h
    rw [found] at h
    cases h
  | some slot => exact ⟨slot, rfl⟩

end Site

/-- There is a failure just if there is a refusal, and then that is the failure and `left` holds of the
    state. -/
def JustRefused {ε σ α : Type} (refusal : ε → Prop) (left : σ → Prop) (r : Except ε α) (t : σ) :
    Prop :=
  match r with
  | .ok _ => ∀ e, ¬ refusal e
  | .error e => refusal e ∧ left t

namespace Tracer

open Shadow

/-- What a rule complains of that finds no receiver among its operands. -/
def receiverless? (site : Site K) : Category → Option Violation
  | .useStackDefPropertyStack => some (.writeWithoutReceiver site.id site.label)
  | .usePropertyStackDefStack => some (.readWithoutReceiver site.id site.label)
  | _ => none

/-- The rule of a category finds on return that its operands are not there, and fails like this. -/
inductive Refusal (host : Host K) (s : Shadow K) (site : Site K) (frame : K.Frame) :
    Category → Fault → Prop
  | noOperand {category : Category} (replaces : category.replacesTop = true)
      (empty : (s.recordOf frame).stack = []) :
      Refusal host s site frame category (.underflow (some site.id) 1 0)
  | noMark {category : Category} (marks : category.marksDepth = true)
      (unmarked : (s.recordOf frame).mark? site.id = none) :
      Refusal host s site frame category (.violation (.noDepthMark site.id))
  | sunk {category : Category} {mark : DepthMark} (marks : category.marksDepth = true)
      (marked : (s.recordOf frame).mark? site.id = some mark)
      (below : (s.recordOf frame).depth < mark.depth) :
      Refusal host s site frame category (.violation
        (.belowEntryDepth site.id site.label (s.recordOf frame).depth mark.depth))
  | noReceiver {category : Category} {mark : DepthMark} {absent : Violation}
      (needs : receiverless? site category = some absent)
      (marked : (s.recordOf frame).mark? site.id = some mark)
      (level : (s.recordOf frame).depth = mark.depth) :
      Refusal host s site frame category (.violation absent)
  | noArgument {slot : ArgumentSlot} {caller : Record K.Value} (binds : site.argument = some slot)
      (traced : callerRecord? host s frame = some caller)
      (deep : caller.depth ≤ argumentTotal host frame slot - (slot.index + 1)) :
      Refusal host s site frame .useArgDefStack (.underflow (some site.id)
        (argumentTotal host frame slot - (slot.index + 1) + 1) caller.depth)

/-- The log does not matter. -/
theorem Refusal.of_same {host : Host K} {s t : Shadow K} {site : Site K} {frame : K.Frame}
    {category : Category} {fault : Fault} (same : SameState s t)
    (h : Refusal host t site frame category fault) : Refusal host s site frame category fault := by
  have record : t.recordOf frame = s.recordOf frame := recordOf_congr (by rw [same.1]) frame
  have caller : callerRecord? host t frame = callerRecord? host s frame :=
    congrArg (Option.bind _) (funext same.record?_eq)
  cases h with
  | noOperand replaces empty => exact .noOperand replaces (record ▸ empty)
  | noMark marks unmarked => exact .noMark marks (record ▸ unmarked)
  | sunk marks marked below =>
    rw [record] at marked below ⊢
    exact .sunk marks marked below
  | noReceiver needs marked level =>
    rw [record] at marked level
    exact .noReceiver needs marked level
  | noArgument binds traced deep => exact .noArgument binds (caller ▸ traced) deep

/-- All that a failed rule of the site may have changed. -/
structure LeftAlone (host : Host K) (site : Site K) (frame : K.Frame) (s t : Shadow K) : Prop where
  nextSeq : t.nextSeq = s.nextSeq
  objects : t.store.objects = s.store.objects
  scopes : t.store.scopes = s.store.scopes
  globals : t.store.globals = s.store.globals
  /-- The frame has the record it had, a new one if it had none, up to the innermost mark of the
      site. -/
  record : t.record? frame = s.record? frame ∨ t.record? frame = some (s.recordOf frame) ∨
    t.record? frame = some ((s.recordOf frame).unmark site.id)
  /-- Other frames have their records; only where the frame gets a new one those may go that have no
      owner any more. -/
  others : ∀ g, g ≠ frame → t.record? g = s.record? g ∨
    t.record? g = none ∧ s.record? frame = none ∧ host.LostFrame [] s t frame g

variable {tracer : Tracer} {host : Host K} {site : Site K} {frame : K.Frame} {value : K.Value}
  {s t u : Shadow K} {category : Category}

namespace LeftAlone

theorem of_same (same : SameState s t) : LeftAlone host site frame s t where
  nextSeq := same.2
  objects := by rw [same.1]
  scopes := by rw [same.1]
  globals := by rw [same.1]
  record := .inl (same.record?_eq frame)
  others g _ := .inl (same.record?_eq g)

theorem of_onRecord {record : Record K.Value}
    (on : OnRecord (fun f => s.record? frame = none ∧ host.LostFrame [] s t frame f) frame s t record
      s.nextSeq)
    (kept : record = s.recordOf frame ∨ record = (s.recordOf frame).unmark site.id) :
    LeftAlone host site frame s t where
  nextSeq := on.nextSeq
  objects := on.objects
  scopes := on.scopes
  globals := on.globals
  record := .inr (kept.imp (fun same => on.record?.trans (congrArg some same))
    fun same => on.record?.trans (congrArg some same))
  others g other := by
    rcases on.frames.others g other with same | ⟨gone, lost⟩
    · exact .inl (congrArg (Option.map Entry.content) same)
    · exact .inr ⟨by rw [record?, Table.content?, gone]; rfl, lost⟩

theorem same_trans (same : SameState s t) (h : LeftAlone host site frame t u) :
    LeftAlone host site frame s u where
  nextSeq := h.nextSeq.trans same.2
  objects := h.objects.trans (by rw [same.1])
  scopes := h.scopes.trans (by rw [same.1])
  globals := h.globals.trans (by rw [same.1])
  record := by
    have before := recordOf_congr (s := s) (by rw [same.1]) frame
    rw [← same.record?_eq frame, ← before]
    exact h.record
  others g other := by
    rw [← same.record?_eq g, ← same.record?_eq frame, Host.LostFrame, ← same.nodes]
    exact h.others g other

end LeftAlone

/-! ### Reasons -/

theorem marksDepth_of_receiverless {absent : Violation}
    (needs : receiverless? site category = some absent) : category.marksDepth = true := by
  cases category with
  | useStackDefPropertyStack => rfl
  | usePropertyStackDefStack => rfl
  | _ => cases needs

/-- A category that neither notes a depth nor binds an argument is refused for want of its operand
    only. -/
theorem Refusal.replaces {fault : Fault} (refusal : Refusal host s site frame category fault)
    (marks : category.marksDepth = false) (other : category ≠ .useArgDefStack) :
    category.replacesTop = true ∧ (s.recordOf frame).stack = [] := by
  have unmarked : category.marksDepth ≠ true := marks ▸ Bool.false_ne_true
  rcases refusal with ⟨replaces, empty⟩ | ⟨marked⟩ | ⟨marked⟩ | ⟨needs⟩ | _
  · exact ⟨replaces, empty⟩
  · exact absurd marked unmarked
  · exact absurd marked unmarked
  · exact absurd (marksDepth_of_receiverless needs) unmarked
  · exact absurd rfl other

/-- Work on the record of the frame that has failed before it changed anything but the marks. -/
theorem ends_refused {α : Type} (site : Site K) (sane : s.Unpoisoned) {work : RecordM K.Value α}
    {fault : Fault} {record : Record K.Value}
    (run : work.run.run (s.recordOf frame, s.nextSeq) = (.error fault, record, s.nextSeq))
    (kept : record = s.recordOf frame ∨ record = (s.recordOf frame).unmark site.id) :
    Ends (ShadowM.withRecord host [] frame work) s fun r t =>
      r = .error fault ∧ LeftAlone host site frame s t := by
  refine (ShadowM.ends_withRecord_lost sane [] run).mono ?_
  rintro r t ⟨rfl, on⟩
  exact ⟨rfl, .of_onRecord on kept⟩

/-- As `ends_refused`, when there is more to be done afterwards. -/
theorem ends_refused_bind {α : Type} (site : Site K) (sane : s.Unpoisoned) {work : RecordM K.Value α}
    {next : α → ShadowM K Unit} {fault : Fault} {record : Record K.Value}
    (run : work.run.run (s.recordOf frame, s.nextSeq) = (.error fault, record, s.nextSeq))
    (kept : record = s.recordOf frame ∨ record = (s.recordOf frame).unmark site.id) :
    Ends (ShadowM.withRecord host [] frame work >>= next) s fun r t =>
      r = .error fault ∧ LeftAlone host site frame s t := by
  rw [ends_bind]
  refine (ends_refused site sane run kept).mono ?_
  rintro r t ⟨rfl, alone⟩
  exact ⟨rfl, alone⟩

/-! ### What decides -/

/-- The work on the record fails just if the rule of the category is refused, for the same reason. -/
def Decides {α : Type} (host : Host K) (s : Shadow K) (site : Site K) (frame : K.Frame)
    (category : Category) (work : RecordM K.Value α) : Prop :=
  match work.run.run (s.recordOf frame, s.nextSeq) with
  | (.ok _, _) => ∀ fault, ¬ Refusal host s site frame category fault
  | (.error fault, record, next) => Refusal host s site frame category (fault.atSite site.id) ∧
      (record = s.recordOf frame ∨ record = (s.recordOf frame).unmark site.id) ∧ next = s.nextSeq

theorem decides_popInto (replaces : category.replacesTop = true) (value : K.Value) :
    Decides host s site frame category (popInto site value) := by
  unfold Decides
  rw [run_popInto]
  cases stack : (s.recordOf frame).stack with
  | nil => exact ⟨.noOperand replaces stack, .inl rfl, rfl⟩
  | cons top below =>
    intro fault refusal
    have unmarking := Category.of_replacesTop replaces
    cases stack.symm.trans (refusal.replaces unmarking.1 unmarking.2).2

/-- Taking the operands of a site fails just if it has no mark or the stack has sunk below the mark;
    if the stack stands at the mark there is none to take. -/
theorem takeOperands_refused (site : Site K) (r : Record K.Value) (n : Nat) :
    match (takeOperands site).run.run (r, n) with
    | (.ok operands, record, next) => next = n ∧ ∃ mark, r.mark? site.id = some mark ∧
        ¬ r.depth < mark.depth ∧ (operands = [] ↔ r.depth = mark.depth) ∧
        (operands = [] → record = r.unmark site.id)
    | (.error fault, record, next) => next = n ∧
        (r.mark? site.id = none ∧ fault = .violation (.noDepthMark site.id) ∧ record = r ∨
          ∃ mark, r.mark? site.id = some mark ∧ r.depth < mark.depth ∧
            fault = .violation (.belowEntryDepth site.id site.label r.depth mark.depth) ∧
            record = r.unmark site.id) := by
  rw [run_takeOperands]
  cases marked : r.mark? site.id with
  | none => exact ⟨rfl, .inl ⟨rfl, rfl, rfl⟩⟩
  | some mark =>
    dsimp only
    by_cases below : r.depth < mark.depth
    · rw [if_pos below]
      exact ⟨rfl, .inr ⟨mark, rfl, below, rfl, rfl⟩⟩
    · rw [if_neg below]
      have none_iff : r.stack.take (r.depth - mark.depth) = [] ↔ r.depth = mark.depth := by
        rw [List.take_eq_nil_iff]
        constructor
        · rintro (none | empty)
          · omega
          · have : r.depth = 0 := by rw [Record.depth, empty]; rfl
            omega
        · intro level
          exact .inl (by omega)
      refine ⟨rfl, mark, rfl, below, none_iff, fun none => ?_⟩
      rw [none_iff.mp none, Nat.sub_self]
      rfl

/-- A rule that marks depths is refused for these three reasons only. -/
theorem Refusal.marking {fault : Fault} (refusal : Refusal host s site frame category fault)
    (marks : category.marksDepth = true) :
    (s.recordOf frame).mark? site.id = none ∨
      ∃ mark, (s.recordOf frame).mark? site.id = some mark ∧
        ((s.recordOf frame).depth < mark.depth ∨
          (∃ absent, receiverless? site category = some absent) ∧
            (s.recordOf frame).depth = mark.depth) := by
  rcases refusal with ⟨replaces⟩ | ⟨-, unmarked⟩ | ⟨-, marked, below⟩ | ⟨needs, marked, level⟩ | _
  · cases (Category.of_replacesTop replaces).1.symm.trans marks
  · exact .inl unmarked
  · exact .inr ⟨_, marked, .inl below⟩
  · exact .inr ⟨_, marked, .inr ⟨⟨_, needs⟩, level⟩⟩
  · cases marks

theorem decides_takeOperands :
    Decides host s site frame .useStackDefStack (takeOperands site) := by
  have reasons := takeOperands_refused site (s.recordOf frame) s.nextSeq
  unfold Decides
  rcases run : (takeOperands site).run.run (s.recordOf frame, s.nextSeq) with
    ⟨fault | operands, record, next⟩ <;> rw [run] at reasons
  · obtain ⟨rfl, ⟨unmarked, rfl, kept⟩ | ⟨mark, marked, below, rfl, used⟩⟩ := reasons
    · exact ⟨.noMark rfl unmarked, .inl kept, rfl⟩
    · exact ⟨.sunk rfl marked below, .inr used, rfl⟩
  · obtain ⟨rfl, mark, marked, enough, -⟩ := reasons
    intro fault refusal
    rcases refusal.marking rfl with unmarked | ⟨other, marked', below | ⟨⟨_, ⟨⟩⟩, -⟩⟩
    · cases marked.symm.trans unmarked
    · cases marked.symm.trans marked'
      exact enough below

theorem decides_takeReceiver {absent : Violation}
    (needs : receiverless? site category = some absent) :
    Decides host s site frame category (takeReceiver site absent) := by
  have marks := marksDepth_of_receiverless needs
  have reasons := takeOperands_refused site (s.recordOf frame) s.nextSeq
  unfold Decides
  rw [run_takeReceiver]
  rcases run : (takeOperands site).run.run (s.recordOf frame, s.nextSeq) with
    ⟨fault | operands, record, next⟩ <;> rw [run] at reasons
  · obtain ⟨rfl, ⟨unmarked, rfl, kept⟩ | ⟨mark, marked, below, rfl, used⟩⟩ := reasons
    · exact ⟨.noMark marks unmarked, .inl kept, rfl⟩
    · exact ⟨.sunk marks marked below, .inr used, rfl⟩
  · obtain ⟨rfl, mark, marked, enough, level, used⟩ := reasons
    cases operands with
    | nil => exact ⟨.noReceiver needs marked (level.mp rfl), .inr (used rfl), rfl⟩
    | cons receiver others =>
      intro fault refusal
      rcases refusal.marking marks with unmarked | ⟨other, marked', below | ⟨-, level'⟩⟩
      · cases marked.symm.trans unmarked
      · cases marked.symm.trans marked'
        exact enough below
      · cases marked.symm.trans marked'
        cases level.mpr level'

/-! ### One rule -/

/-- The rule fails just if there is a refusal, with that fault once it is laid to the site, and leaves
    the state alone if it does. -/
def Refuses (tracer : Tracer) (host : Host K) (site : Site K) (frame : K.Frame) (value : K.Value)
    (category : Category) (s : Shadow K) : Prop :=
  Ends (applyLeave tracer host site frame value category) s fun r t =>
    JustRefused (Refusal host s site frame category) (LeftAlone host site frame s)
      (r.mapError (·.atSite site.id)) t

/-- Some work on the record of the frame decides whether the rule fails. -/
theorem refuses_of_decides {α : Type} {work : RecordM K.Value α}
    (decides : Decides host s site frame category work)
    (failed : ∀ {fault record},
      work.run.run (s.recordOf frame, s.nextSeq) = (.error fault, record, s.nextSeq) →
      (record = s.recordOf frame ∨ record = (s.recordOf frame).unmark site.id) →
      Ends (applyLeave tracer host site frame value category) s fun r t =>
        r = .error fault ∧ LeftAlone host site frame s t)
    (done : ∀ {a rest}, work.run.run (s.recordOf frame, s.nextSeq) = (.ok a, rest) →
      Ends (applyLeave tracer host site frame value category) s fun r _ => r = .ok ()) :
    Refuses tracer host site frame value category s := by
  unfold Decides at decides
  rcases run : work.run.run (s.recordOf frame, s.nextSeq) with ⟨fault | a, record, next⟩ <;>
    rw [run] at decides
  · obtain ⟨refusal, kept, rfl⟩ := decides
    refine (failed run kept).mono ?_
    rintro r t ⟨rfl, alone⟩
    exact ⟨refusal, alone⟩
  · refine (done run).mono ?_
    rintro r t rfl
    exact decides

/-- A rule that takes nothing off and binds no argument does not fail. -/
theorem refuses_none (replaces : category.replacesTop = false) (marks : category.marksDepth = false)
    (other : category ≠ .useArgDefStack)
    (done : Ends (applyLeave tracer host site frame value category) s fun r _ => r = .ok ()) :
    Refuses tracer host site frame value category s := by
  refine done.mono ?_
  rintro r t rfl fault refusal
  exact Bool.noConfusion (replaces.symm.trans (refusal.replaces marks other).1)

/-- The rules that replace the topmost operand. -/
theorem refuses_replacing (sane : s.Unpoisoned) (replaces : category.replacesTop = true)
    (checked : site.check category = .ok ()) :
    Refuses tracer host site frame value category s := by
  refine refuses_of_decides (decides_popInto replaces value) ?_ ?_
  · intro fault record run kept
    cases category with
    | useStackDefLocalStack =>
      obtain ⟨name, found⟩ := Site.discard_ok checked
      unfold applyLeave Site.requireLocal Site.demand
      rw [ends_bind, found, ShadowM.ends_settle]
      exact ends_refused_bind site sane (by rw [run_bind, run]) kept
    | useStackDefClassVar =>
      obtain ⟨owned, found⟩ := Site.discard_ok checked
      unfold applyLeave Site.requireClassVariable Site.demand
      rw [ends_bind, found, ShadowM.ends_settle]
      exact ends_refused_bind site sane run kept
    | useStackDefGlobal =>
      obtain ⟨name, found⟩ := Site.discard_ok checked
      unfold applyLeave Site.requireGlobal Site.demand
      rw [ends_bind, found, ShadowM.ends_settle]
      exact ends_refused_bind site sane run kept
    | _ => cases replaces
  · intro node rest run
    obtain ⟨top, below, stack⟩ : ∃ top below, (s.recordOf frame).stack = top :: below := by
      rw [run_popInto] at run
      cases stack : (s.recordOf frame).stack with
      | nil =>
        rw [stack] at run
        cases run
      | cons top below => exact ⟨top, below, rfl⟩
    cases category with
    | useStackDefLocalStack =>
      obtain ⟨name, found⟩ := Site.discard_ok checked
      have ends : Ends (applyLeave tracer host site frame value .useStackDefLocalStack) s _ :=
        leave_writeLocal sane name found
      rw [stack] at ends
      exact ends.mono fun _ _ => And.left
    | useStackDefClassVar =>
      obtain ⟨owned, found⟩ := Site.discard_ok checked
      have ends : Ends (applyLeave tracer host site frame value .useStackDefClassVar) s _ :=
        leave_writeClassVariable sane owned found
      rw [stack] at ends
      exact ends.mono fun _ _ => And.left
    | useStackDefGlobal =>
      obtain ⟨name, found⟩ := Site.discard_ok checked
      have ends : Ends (applyLeave tracer host site frame value .useStackDefGlobal) s _ :=
        leave_writeGlobal sane name found
      rw [stack] at ends
      exact ends.mono fun _ _ => And.left
    | _ => cases replaces

/-- The rules that consume the operands of their site. -/
theorem refuses_marking (sane : s.Unpoisoned) (marks : category.marksDepth = true)
    (checked : site.check category = .ok ()) :
    Refuses tracer host site frame value category s := by
  cases category with
  | useStackDefStack =>
    refine refuses_of_decides decides_takeOperands ?_ ?_
    · intro fault record run kept
      exact ends_refused site sane (by rw [run_bind, run]) kept
    · intro operands rest run
      exact (leave_operands sane run).mono fun _ _ => And.left
  | useStackDefPropertyStack =>
    obtain ⟨property, found⟩ := Site.discard_ok checked
    refine refuses_of_decides (decides_takeReceiver rfl) ?_ ?_
    · intro fault record run kept
      unfold applyLeave assignProperty Site.requireProperty Site.demand
      rw [ends_bind, found, ShadowM.ends_settle]
      exact ends_refused_bind site sane (by rw [run_bind, run]) kept
    · intro operands rest run
      exact (leave_assignProperty sane property found run).mono fun _ _ => And.left
  | usePropertyStackDefStack =>
    obtain ⟨property, found⟩ := Site.discard_ok checked
    refine refuses_of_decides (decides_takeReceiver rfl) ?_ ?_
    · intro fault record run kept
      unfold applyLeave fetchProperty Site.requireProperty Site.demand
      rw [ends_bind, found, ShadowM.ends_settle]
      exact ends_refused_bind site sane run kept
    · intro operands rest run
      exact (leave_fetchProperty sane property found run).mono fun _ _ => And.left
  | _ => cases marks

theorem refuses_argument (sane : s.Unpoisoned) (checked : site.check .useArgDefStack = .ok ()) :
    Refuses tracer host site frame value .useArgDefStack s := by
  obtain ⟨slot, found⟩ := Site.argument_of_check checked
  refine (leave_bindArgument sane slot found).mono ?_
  intro r t done
  cases traced : callerRecord? host s frame with
  | none =>
    rw [traced] at done
    obtain ⟨rfl, -⟩ := done
    rintro fault (⟨⟨⟩⟩ | ⟨⟨⟩⟩ | ⟨⟨⟩⟩ | ⟨⟨⟩⟩ | ⟨-, traced', -⟩)
    cases traced.symm.trans traced'
  | some caller =>
    rw [traced] at done
    dsimp only at done
    unfold Record.peekAt at done
    cases peeked : caller.stack[argumentTotal host frame slot - (slot.index + 1)]? with
    | none =>
      rw [peeked] at done
      obtain ⟨rfl, same⟩ := done
      exact ⟨.noArgument found traced (List.getElem?_eq_none_iff.mp peeked), .of_same same⟩
    | some origin =>
      rw [peeked] at done
      obtain ⟨rfl, -⟩ := done
      rintro fault (⟨⟨⟩⟩ | ⟨⟨⟩⟩ | ⟨⟨⟩⟩ | ⟨⟨⟩⟩ | ⟨binds, traced', deep⟩)
      cases found.symm.trans binds
      cases traced.symm.trans traced'
      have absent := List.getElem?_eq_none_iff.mpr deep
      cases peeked.symm.trans absent

/-- Every rule applied on return. -/
theorem refuses (sane : s.Unpoisoned) (checked : site.check category = .ok ()) :
    Refuses tracer host site frame value category s := by
  cases category with
  | functionBoundary =>
    exact refuses_none rfl rfl nofun ((leave_boundary sane).mono fun _ _ => And.left)
  | noUseDefStack =>
    exact refuses_none rfl rfl nofun ((leave_noUse sane).mono fun _ _ => And.left)
  | useStackDefStack => exact refuses_marking sane rfl checked
  | useLocalDefStack =>
    obtain ⟨name, found⟩ := Site.discard_ok checked
    exact refuses_none rfl rfl nofun ((leave_readLocal sane name found).mono fun _ _ => And.left)
  | useStackDefLocalStack => exact refuses_replacing sane rfl checked
  | useArgDefStack => exact refuses_argument sane checked
  | useStackDefPropertyStack => exact refuses_marking sane rfl checked
  | usePropertyStackDefStack => exact refuses_marking sane rfl checked
  | useStackDefReturn => exact refuses_none rfl rfl nofun rfl
  | useClassVarDefStack =>
    obtain ⟨owned, found⟩ := Site.discard_ok checked
    exact refuses_none rfl rfl nofun
      ((leave_readClassVariable sane owned found).mono fun _ _ => And.left)
  | useStackDefClassVar => exact refuses_replacing sane rfl checked
  | useGlobalDefStack =>
    obtain ⟨name, found⟩ := Site.discard_ok checked
    exact refuses_none rfl rfl nofun ((leave_readGlobal sane name found).mono fun _ _ => And.left)
  | useStackDefGlobal => exact refuses_replacing sane rfl checked
  | callNode => exact refuses_none rfl rfl nofun rfl

theorem Refusal.unique {fault other : Fault} (h : Refusal host s site frame category fault)
    (h' : Refusal host s site frame category other) : other = fault := by
  cases h <;> cases h' <;>
    grind [→ Category.of_replacesTop, → marksDepth_of_receiverless, Category.marksDepth]

/-! ### On unwind -/

end Tracer

/-! A frame has operands and a local. A property has been read in it before and is read once more, this
time without a receiver; meanwhile another frame is at work. -/

namespace ReadWithoutReceiver

open Tracer
open WriteThenRead (numbers)

/-- The host keeps everything; 9 refers to object 5. -/
def host : Host numbers where
  callerOf _ := none
  argumentCount _ := 0
  objectOf value := if value = 9 then some 5 else none
  survivors _ := ⟨fun _ => true, fun _ => true, fun _ => true⟩

def site : Site numbers :=
  { id := ⟨1⟩, label := ".x", categories := .single .usePropertyStackDefStack, property := some "x" }

def pushed (value frame : Nat) : Act numbers :=
  .checkpoint host ⟨{ id := ⟨2⟩, label := "push", categories := .single .noUseDefStack }, frame,
    .leave value⟩

def stored (value frame : Nat) : Act numbers :=
  .checkpoint host ⟨{ id := ⟨3⟩, label := "y =", categories := .single .useStackDefLocalStack
                      localSlot := some "y" }, frame, .leave value⟩

def acts : List (Act numbers) := [
  .checkpoint host ⟨site, 0, .enter⟩, pushed 9 0, .checkpoint host ⟨site, 0, .leave 7⟩, stored 7 0,
  pushed 8 0, pushed 6 1, .checkpoint host ⟨site, 0, .enter⟩]

end ReadWithoutReceiver

end Lineage
