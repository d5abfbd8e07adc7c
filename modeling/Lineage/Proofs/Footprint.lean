import Lineage.Proofs.Confined
import Lineage.Proofs.Marks
import Lineage.Proofs.Neighbours

/-!
# What a checkpoint changes

A checkpoint of a site changes the record of its frame and little else: a function that returns hands its
only operand to the caller, and the slots that the site names are read and written. What belongs to
entities that are live throughout is as it was otherwise, whatever the categories of the site, and also
if one of its rules fails.
-/

namespace Lineage

variable {K : Kinds}

theorem Site.eq_some_of_demand (site : Site K) {α : Type} {what : Capability} {found : Option α} {a : α}
    (h : site.demand what found = .ok a) : found = some a := by
  cases found with
  | none => cases h
  | some b => exact congrArg some (Except.ok.inj h)

/-- The rule of the function itself comes first. -/
theorem CategorySet.toList_boundary (set : CategorySet)
    (has : set.contains .functionBoundary = true) :
    ∃ rest, set.toList = .functionBoundary :: rest ∧ .functionBoundary ∉ rest := by
  refine ⟨Category.all.tail.filter set.contains, List.filter_cons_of_pos has, fun inside => ?_⟩
  exact absurd (List.mem_of_mem_filter inside) (by decide)

theorem Moment.eq_enter {V : Type} {moment : Moment V} (h : moment.kind = .enter) :
    moment = .enter := by
  cases moment with
  | enter => rfl
  | leave _ => cases h
  | unwind _ => cases h

namespace Tracer

open Shadow ShadowM

/-- The slots that the rule of a category may change when the site returns: the local, the class variable
    or the global that the site names, or the property that it names, of the object behind the first of
    the operands that the rule takes off the stack. -/
def Touches (host : Host K) (site : Site K) (frame : K.Frame) (s : Shadow K) (category : Category) :
    Slot K → Prop
  | .frameLocal f name => (category = .useLocalDefStack ∨ category = .useStackDefLocalStack) ∧
      f = frame ∧ site.localSlot = some name
  | .property object name =>
      (category = .useStackDefPropertyStack ∨ category = .usePropertyStackDefStack) ∧
        site.property = some name ∧ ∃ receiver others,
          ((takeOperands site).run.run (s.recordOf frame, s.nextSeq)).1 = .ok (receiver :: others) ∧
            objectBehind host receiver = some object
  | .classVariable scope name =>
      (category = .useClassVarDefStack ∨ category = .useStackDefClassVar) ∧
        site.classVariable = some ⟨name, scope⟩
  | .global name => (category = .useGlobalDefStack ∨ category = .useStackDefGlobal) ∧
      site.globalName = some name

variable {tracer : Tracer} {host : Host K} {site : Site K} {frame : K.Frame} {value : K.Value}
  {foot : Footprint K} {first : Nat} {s t : Shadow K}

section

variable (sane : s.Unpoisoned) (later : first ≤ s.nextSeq)

include sane later

theorem stays_pushOn {node : Node K.Value} (new : first ≤ node.seq) :
    Bounded host frame foot first s [node] (pushOn host frame node) (fun _ => []) fun _ => True :=
  stays_withRecord sane (RecordM.stays_push later new)

/-- A rule ends by building the node of the value from nodes in hand and pushing it. -/
theorem stays_pushNode {inHand origins : List (Node K.Value)} (used : origins ⊆ inHand) :
    Bounded host frame foot first s inHand (do pushOn host frame (← nodeOf site value origins))
      (fun _ => []) fun _ => True :=
  (stays_create sane later _ _ used (List.nil_subset inHand)).bind .trans
    fun _ _ h new => stays_pushOn h.sane h.later new

theorem stays_noteWritten (node : Node K.Value) {inHand hand : List (Node K.Value)}
    (kept : hand ⊆ inHand) :
    Bounded host frame foot first s inHand (noteWritten tracer site node) (fun _ => hand)
      fun _ => True := by
  unfold noteWritten
  split
  · exact stays_note sane later _ _ _ kept
  · exact stays_pure (.of_subset sane later kept) trivial

theorem stays_operands :
    Bounded host frame foot first s [] (applyLeave tracer host site frame value .useStackDefStack)
      (fun _ => []) fun _ => True :=
  stays_withRecord sane <|
    (stays_takeOperands later site).bind .trans fun _ _ h _ =>
      (RecordM.stays_create h.later _ _ (List.Subset.refl _)).bind .trans fun _ _ h new =>
        RecordM.stays_push h.later new

theorem stays_readLocal (own : ∀ name, site.localSlot = some name → foot.slots (.frameLocal frame name)) :
    Bounded host frame foot first s [] (applyLeave tracer host site frame value .useLocalDefStack)
      (fun _ => []) fun _ => True := by
  refine stays_settle sane later fun name found => ?_
  have named : site.localSlot = some name := site.eq_some_of_demand found
  refine stays_withRecord sane ?_
  refine (RecordM.stays_current later (own name named)).bind .trans fun origin q h _ => ?_
  refine (RecordM.stays_create h.later _ _ (List.Subset.refl _)).bind .trans fun node q h new => ?_
  exact RecordM.stays_push h.later new

theorem stays_writeLocal
    (own : ∀ name, site.localSlot = some name → foot.slots (.frameLocal frame name)) :
    Bounded host frame foot first s [] (applyLeave tracer host site frame value .useStackDefLocalStack)
      (fun _ => []) fun _ => True := by
  refine stays_settle sane later fun name found => ?_
  have named : site.localSlot = some name := site.eq_some_of_demand found
  have written : Bounded host frame foot first s [] (withRecord host [] frame do
      let node ← popInto site value
      RecordM.change fun record => (record.write name node).push node
      pure node) (fun node => [node]) fun _ => True := by
    refine stays_withRecord sane ?_
    refine (stays_popInto later site value).bind .trans fun node q h new => ?_
    have changed : Record.Confined first (fun name => foot.slots (.frameLocal frame name)) foot.result
        q [node] ((q.1.write name node).push node, q.2) [node] :=
      (Record.Confined.write h.later List.mem_cons_self (own name named) (List.Subset.refl _)).trans
        (.push (p := (q.1.write name node, q.2)) h.later List.mem_cons_self new (List.Subset.refl _))
    refine (RecordM.stays_change changed).bind .trans fun _ q h _ => ?_
    exact stays_pure (.of_stack h.later (fun _ => id) (List.Subset.refl _)) trivial
  exact written.bind .trans fun node t h _ =>
    stays_noteWritten h.sane h.later node (List.nil_subset _)

/-- The origin of an argument is held by the caller, or new. -/
theorem stays_argumentOrigin (index count : Nat) :
    Bounded host frame foot first s [] (argumentOrigin host site frame index count)
      (fun node => [node]) fun _ => True := by
  refine (ends_argumentOrigin sane index count).mono ?_
  intro r t found
  cases known : callerRecord? host s frame with
  | none =>
    rw [known] at found
    obtain ⟨rfl, store, next⟩ := found
    refine ⟨.of_store sane store (by omega) (by omega) fun node mem => ?_, trivial⟩
    rw [List.mem_singleton.mp mem]
    exact .new (Nat.le_refl _) nofun
  | some record =>
    rw [known] at found
    obtain ⟨⟨store, next⟩, rfl⟩ := found
    obtain ⟨caller, -, there⟩ := Option.bind_eq_some_iff.mp known
    unfold Record.peekAt
    cases peeked : record.stack[count - (index + 1)]? with
    | none => exact .of_store sane store (by omega) (by omega) nofun
    | some node =>
      refine ⟨.of_store sane store (by omega) (by omega) fun other mem => ?_, trivial⟩
      rw [List.mem_singleton.mp mem]
      have held : node ∈ (s.recordOf caller).nodes := by
        rw [recordOf_eq there]
        exact Record.mem_nodes.mpr (.inl (List.mem_of_getElem? peeked))
      exact .of_mem (mem_nodes_of_record caller held)

theorem stays_bindArgument :
    Bounded host frame foot first s [] (applyLeave tracer host site frame value .useArgDefStack)
      (fun _ => []) fun _ => True := by
  have bound : ∀ (slot : ArgumentSlot) (count : Nat) (t : Shadow K), t.Unpoisoned →
      first ≤ t.nextSeq → Bounded host frame foot first t [] (do
        let origin ← argumentOrigin host site frame slot.index count
        pushOn host frame (← nodeOf site value [origin])) (fun _ => []) fun _ => True :=
    fun slot count t sane later => (stays_argumentOrigin sane later _ _).bind .trans
      fun _ _ h _ => stays_pushNode h.sane h.later (List.Subset.refl _)
  refine stays_settle sane later fun slot _ => ?_
  cases slot.count with
  | declared count => exact bound slot count s sane later
  | fromFrame =>
    dsimp only
    split
    · exact (stays_note sane later _ _ _ (List.Subset.refl _)).bind .trans
        fun _ t h _ => bound slot _ t h.sane h.later
    · exact bound slot _ s sane later

/-- The receiver of a property is taken off the stack with the other operands. -/
theorem stays_assignProperty (own : ∀ object name,
      Touches host site frame s .useStackDefPropertyStack (.property object name) →
      foot.slots (.property object name)) :
    Bounded host frame foot first s [] (applyLeave tracer host site frame value .useStackDefPropertyStack)
      (fun _ => []) fun _ => True := by
  refine stays_settle sane later fun name found => ?_
  have named : site.property = some name := site.eq_some_of_demand found
  have made : Bounded host frame foot first s [] (withRecord host [] frame do
      let taken ← takeReceiver site (.writeWithoutReceiver site.id site.label)
      let node ← RecordM.create (creatorOf site) (some value) (taken.1 :: taken.2)
      pure (taken.1, node)) (fun pair => [pair.2]) fun pair => first ≤ pair.2.seq ∧
        ∀ object, objectBehind host pair.1 = some object → foot.slots (.property object name) := by
    refine stays_withRecord sane ?_
    refine (stays_takeReceiver later site _).bind .trans fun taken q h ran => ?_
    refine (RecordM.stays_create h.later _ _ (List.Subset.refl _)).bind .trans fun node q h new => ?_
    refine stays_pure (.of_stack h.later (fun _ => id) (List.Subset.refl _)) ⟨new, ?_⟩
    exact fun object behind => own object name ⟨.inl rfl, named, taken.1, taken.2, ran, behind⟩
  refine made.bind .trans fun pair t h known => ?_
  obtain ⟨receiver, node⟩ := pair
  obtain ⟨new, touches⟩ := known
  dsimp only
  cases behind : objectBehind host receiver with
  | some object =>
    exact (stays_writeObject h.sane h.later (touches object behind)).bind .trans
      fun _ _ h _ => stays_pushOn h.sane h.later new
  | none =>
    exact (stays_note h.sane h.later _ _ _ (List.Subset.refl _)).bind .trans
      fun _ _ h _ => stays_pushOn h.sane h.later new

theorem stays_fetchProperty (own : ∀ object name,
      Touches host site frame s .usePropertyStackDefStack (.property object name) →
      foot.slots (.property object name)) :
    Bounded host frame foot first s [] (applyLeave tracer host site frame value .usePropertyStackDefStack)
      (fun _ => []) fun _ => True := by
  refine stays_settle sane later fun name found => ?_
  have named : site.property = some name := site.eq_some_of_demand found
  refine (stays_withRecord sane (stays_takeReceiver later site _)).bind .trans fun taken t h ran => ?_
  obtain ⟨receiver, others⟩ := taken
  dsimp only
  cases behind : objectBehind host receiver with
  | some object =>
    exact (stays_readObject h.sane h.later
      (own object name ⟨.inr rfl, named, receiver, others, ran, behind⟩)).bind .trans
        fun _ _ h _ => stays_pushNode h.sane h.later (List.Subset.refl _)
  | none =>
    refine (stays_note h.sane h.later _ _ _ (List.Subset.refl _)).bind .trans fun _ t h _ => ?_
    exact (stays_create h.sane h.later _ _ (List.nil_subset _) (List.Subset.refl _)).bind .trans
      fun _ _ h _ => stays_pushNode h.sane h.later (List.Subset.refl _)

theorem stays_readClassVariable (own : ∀ owned, site.classVariable = some owned →
      foot.slots (.classVariable owned.scope owned.name)) :
    Bounded host frame foot first s [] (applyLeave tracer host site frame value .useClassVarDefStack)
      (fun _ => []) fun _ => True :=
  stays_settle sane later fun owned found =>
    (stays_readScope sane later (own owned (site.eq_some_of_demand found))).bind .trans
      fun _ _ h _ => stays_pushNode h.sane h.later (List.Subset.refl _)

theorem stays_writeClassVariable (own : ∀ owned, site.classVariable = some owned →
      foot.slots (.classVariable owned.scope owned.name)) :
    Bounded host frame foot first s [] (applyLeave tracer host site frame value .useStackDefClassVar)
      (fun _ => []) fun _ => True :=
  stays_settle sane later fun owned found =>
    (stays_withRecord sane (stays_popInto later site value)).bind .trans fun node _ h new =>
      (stays_writeScope h.sane h.later (own owned (site.eq_some_of_demand found))).bind .trans
        fun _ _ h _ => (stays_noteWritten h.sane h.later node (List.Subset.refl _)).bind .trans
          fun _ _ h _ => stays_pushOn h.sane h.later new

theorem stays_readGlobal (own : ∀ name, site.globalName = some name → foot.slots (.global name)) :
    Bounded host frame foot first s [] (applyLeave tracer host site frame value .useGlobalDefStack)
      (fun _ => []) fun _ => True :=
  stays_settle sane later fun name found =>
    (stays_currentGlobal sane later (own name (site.eq_some_of_demand found))).bind .trans
      fun _ _ h _ => stays_pushNode h.sane h.later (List.Subset.refl _)

theorem stays_writeGlobal (own : ∀ name, site.globalName = some name → foot.slots (.global name)) :
    Bounded host frame foot first s [] (applyLeave tracer host site frame value .useStackDefGlobal)
      (fun _ => []) fun _ => True :=
  stays_settle sane later fun name found =>
    (stays_withRecord sane (stays_popInto later site value)).bind .trans fun _ _ h new =>
      (ShadowM.stays_writeGlobal h.sane h.later (own name (site.eq_some_of_demand found))).bind .trans
        fun _ _ h _ => stays_pushOn h.sane h.later new

/-- Every rule of a return but the one that hands the result back. -/
theorem stays_leave {category : Category} (other : category ≠ .functionBoundary)
    (own : ∀ x, Touches host site frame s category x → foot.slots x) :
    Bounded host frame foot first s [] (applyLeave tracer host site frame value category) (fun _ => [])
      fun _ => True := by
  have nothing : Confined host frame foot first s [] s [] :=
    .of_subset sane later (List.Subset.refl [])
  cases category with
  | functionBoundary => exact absurd rfl other
  | noUseDefStack => exact stays_pushNode sane later (List.Subset.refl _)
  | useStackDefStack => exact stays_operands sane later
  | useLocalDefStack =>
    exact stays_readLocal sane later fun name named => own _ ⟨.inl rfl, rfl, named⟩
  | useStackDefLocalStack =>
    exact stays_writeLocal sane later fun name named => own _ ⟨.inr rfl, rfl, named⟩
  | useArgDefStack => exact stays_bindArgument sane later
  | useStackDefPropertyStack => exact stays_assignProperty sane later fun _ _ => own _
  | usePropertyStackDefStack => exact stays_fetchProperty sane later fun _ _ => own _
  | useStackDefReturn => exact stays_pure nothing trivial
  | useClassVarDefStack =>
    exact stays_readClassVariable sane later fun owned named => own _ ⟨.inl rfl, named⟩
  | useStackDefClassVar =>
    exact stays_writeClassVariable sane later fun owned named => own _ ⟨.inr rfl, named⟩
  | useGlobalDefStack => exact stays_readGlobal sane later fun name named => own _ ⟨.inl rfl, named⟩
  | useStackDefGlobal => exact stays_writeGlobal sane later fun name named => own _ ⟨.inr rfl, named⟩
  | callNode => exact stays_note sane later _ _ _ (List.Subset.refl _)

theorem stays_enter {category : Category} (other : category ≠ .functionBoundary) :
    Bounded host frame foot first s [] (applyEnter host site frame category) (fun _ => [])
      fun _ => True := by
  unfold applyEnter
  rw [if_neg other]
  split
  · exact stays_withRecord sane (RecordM.stays_change
      (.of_stack later (fun _ => id) (List.Subset.refl _)))
  · exact stays_pure (.of_subset sane later (List.Subset.refl _)) trivial

/-- The result of the frame is set by the rule of a `return` that is left. -/
theorem stays_unwind (exception : String) {category : Category}
    (own : category = .useStackDefReturn → foot.result) :
    Bounded host frame foot first s [] (applyUnwind host site frame exception category) (fun _ => [])
      fun _ => True := by
  have nothing : Confined host frame foot first s [] s [] :=
    .of_subset sane later (List.Subset.refl [])
  unfold applyUnwind
  split
  · exact stays_note sane later _ _ _ (List.Subset.refl _)
  · split
    · next leaves =>
      refine stays_withRecord sane ?_
      refine (RecordM.stays_pop later).bind .trans fun origin q h _ => ?_
      refine (RecordM.stays_create h.later _ _ (List.Subset.refl _)).bind .trans fun node q h new => ?_
      refine RecordM.stays_change ?_
      exact (Record.Confined.push h.later List.mem_cons_self new (List.Subset.refl _)).trans
        (.setResult (p := (q.1.push node, q.2)) h.later List.mem_cons_self (own leaves)
          (List.nil_subset _))
    · split
      · rw [Bounded, Stays, ends_bind, ends_get]
        dsimp only
        cases found : s.store.frames.find? frame with
        | none => exact stays_pure nothing trivial
        | some entry =>
          exact stays_onFrame sane found (RecordM.stays_change
            (.of_stack later (fun _ => id) (List.Subset.refl _)))
      · exact stays_pure nothing trivial

end

/-! ### The rules of a site in order -/

variable {c : Checkpoint K}

theorem stays_rule {category : Category} (sane : s.Unpoisoned) (later : first ≤ s.nextSeq)
    (other : category = .functionBoundary → c.moment.kind = .unwind)
    (own : c.moment.kind = .leave → ∀ x, Touches host c.site c.frame s category x → foot.slots x)
    (returned : c.moment.kind = .unwind → category = .useStackDefReturn → foot.result) :
    Bounded host c.frame foot first s [] (tracer.rule host c category) (fun _ => []) fun _ => True := by
  obtain ⟨site, frame, moment⟩ := c
  cases moment with
  | enter => exact stays_enter sane later fun boundary => by cases other boundary
  | leave value => exact stays_leave sane later (fun boundary => by cases other boundary) (own rfl)
  | unwind exception => exact stays_unwind sane later exception (returned rfl)

end Tracer

/-- The slots that a step may change. -/
def Step.Touches (step : Step K) (x : Slot K) : Prop :=
  match step.deed with
  | .rule host c category =>
      c.moment.kind = .leave ∧ Tracer.Touches host c.site c.frame step.before category x
  | _ => False

namespace Tracer

open Shadow ShadowM

variable {tracer : Tracer} {host : Host K} {c : Checkpoint K} {foot : Footprint K} {first : Nat}
  {s t : Shadow K}

/-- The footprint of the rules is that of the steps that they take. -/
theorem confined_rules {categories : List Category} (sane : s.Unpoisoned) (later : first ≤ s.nextSeq)
    (other : .functionBoundary ∈ categories → c.moment.kind = .unwind)
    (own : ∀ step ∈ tracer.ruleSteps host c categories s, ∀ x, step.Touches x → foot.slots x)
    (returned : c.moment.kind = .unwind → .useStackDefReturn ∈ categories → foot.result) :
    Ends (categories.forM fun category =>
      ExceptT.adapt (·.atSite c.site.id) (tracer.rule host c category)) s fun _ t =>
        Confined host c.frame foot first s [] t [] := by
  induction categories generalizing s with
  | nil => exact .of_subset sane later (List.Subset.refl _)
  | cons category rest ih =>
    rw [ends_rules_cons]
    have begins : ∃ done after, ⟨.rule host c category, s, done, after⟩ ∈
        tracer.ruleSteps host c (category :: rest) s := by
      unfold ruleSteps
      split
      · exact ⟨true, _, List.mem_cons_self⟩
      · exact ⟨false, _, List.mem_cons_self⟩
    have touched : c.moment.kind = .leave →
        ∀ x, Touches host c.site c.frame s category x → foot.slots x := by
      obtain ⟨done, after, mem⟩ := begins
      exact fun leaves x touches => own _ mem x ⟨leaves, touches⟩
    have stays : Bounded host c.frame foot first s [] (tracer.rule host c category) (fun _ => [])
        fun _ => True := stays_rule sane later
      (fun boundary => other (boundary ▸ List.mem_cons_self)) touched
      fun unwinds returns => returned unwinds (returns ▸ List.mem_cons_self)
    unfold Bounded Stays Ends at stays
    rcases ran : (tracer.rule host c category).run.run s with ⟨fault | _, t⟩ <;>
      rw [ran] at stays
    · exact .of_run ran stays
    · have steps := ruleSteps_accepted ran rest
      have others := ih stays.1.sane stays.1.later
        (fun inside => other (List.mem_cons_of_mem _ inside))
        (fun step mem => own step (steps ▸ List.mem_cons_of_mem _ mem))
        fun unwinds inside => returned unwinds (List.mem_cons_of_mem _ inside)
      exact .of_run ran (others.mono fun _ _ => stays.1.trans)

/-! ### The rule of the function itself -/

/-- The caller that a function hands its only operand to at the checkpoint, with the operand. -/
def handed? (host : Host K) (c : Checkpoint K) (s : Shadow K) : Option (K.Frame × Node K.Value) :=
  if c.moment.kind = .leave ∧ c.site.categories.contains .functionBoundary = true then
    handedBack? host s c.frame
  else none

/-- The record of another frame, with what it is handed at the checkpoint. -/
def received (host : Host K) (c : Checkpoint K) (s : Shadow K) (g : K.Frame)
    (record : Record K.Value) : Record K.Value :=
  match handed? host c s with
  | some (caller, node) => if g = caller then record.push node else record
  | none => record

/-- The record of the frame of the checkpoint once its function has begun or has been left. -/
def begun (host : Host K) (c : Checkpoint K) (s : Shadow K) : Record K.Value :=
  if c.moment.kind = .enter ∧ c.site.categories.contains .functionBoundary = true then {}
  else
    match handed? host c s with
    | some _ => { s.recordOf c.frame with stack := [] }
    | none => s.recordOf c.frame

/-- What has been done when the function has begun or has been left, which is before the other rules of
    the site are applied. -/
structure Begun (host : Host K) (c : Checkpoint K) (s t : Shadow K) : Prop where
  sane : t.Unpoisoned
  nextSeq : t.nextSeq = s.nextSeq
  leads : (s.holdings []).Leads (t.holdings [])
  own : t.recordOf c.frame = begun host c s
  frames : ∀ g, g ≠ c.frame → t.record? g = (s.record? g).map (received host c s g) ∨
    t.record? g = none ∧ host.Loses (s.holdings []) (t.holdings []) (.frame g)
  slots : ∀ x, x.Shared → t.current x = s.current x

theorem handedBack?_eq_some {frame caller : K.Frame} {node : Node K.Value} :
    handedBack? host s frame = some (caller, node) ↔
      host.callerOf frame = some caller ∧ s.record? caller ≠ none ∧
        (s.recordOf frame).stack = [node] := by
  constructor
  · intro given
    obtain ⟨traced, only⟩ := handedBack?_eq given
    refine ⟨?_, traced, only⟩
    unfold handedBack? at given
    split at given
    · cases given
    · next called =>
      split at given
      · split at given
        · cases given
          exact called
        · cases given
      · cases given
  · rintro ⟨called, traced, only⟩
    obtain ⟨callerRecord, there⟩ := Option.ne_none_iff_exists'.mp traced
    cases own : s.record? frame with
    | none =>
      rw [recordOf, own] at only
      cases only
    | some record =>
      rw [recordOf_eq own] at only
      simp only [handedBack?, called, there, own, only]

theorem handed?_eq_some {caller : K.Frame} {node : Node K.Value} :
    handed? host c s = some (caller, node) ↔
      c.moment.kind = .leave ∧ c.site.categories.contains .functionBoundary = true ∧
        host.callerOf c.frame = some caller ∧ s.record? caller ≠ none ∧
        (s.recordOf c.frame).stack = [node] := by
  unfold handed?
  split
  · next leaves =>
    rw [handedBack?_eq_some]
    exact ⟨fun given => ⟨leaves.1, leaves.2, given⟩, fun h => h.2.2⟩
  · next other => exact ⟨nofun, fun h => absurd ⟨h.1, h.2.1⟩ other⟩

theorem received_of_none (none' : handed? host c s = none) {g : K.Frame} :
    received host c s g = id := by
  unfold received
  rw [none']
  rfl

theorem Begun.of_same (sane : s.Unpoisoned) (same : SameState s t) (none' : handed? host c s = none)
    (other : c.moment.kind = .enter → c.site.categories.contains .functionBoundary = false) :
    Begun host c s t where
  sane := same.unpoisoned sane
  nextSeq := same.2
  leads := by
    rw [holdings, holdings, same.1, same.2]
    exact .refl _
  own := by
    have stays : ¬ (c.moment.kind = .enter ∧
        c.site.categories.contains .functionBoundary = true) :=
      fun ⟨enters, begins⟩ => Bool.false_ne_true ((other enters).symm.trans begins)
    unfold begun
    rw [if_neg stays, none']
    exact recordOf_congr (by rw [same.1]) c.frame
  frames g _ := by
    rw [same.record?_eq, received_of_none none', Option.map_id, id]
    exact .inl rfl
  slots x _ := current_congr same.1 x

/-- A function that begins has an empty record. -/
theorem Begun.of_enter (sane : s.Unpoisoned) (enters : c.moment.kind = .enter)
    (begins : c.site.categories.contains .functionBoundary = true)
    (on : OnRecord (host.LostFrame [] s t c.frame) c.frame s t {} s.nextSeq) : Begun host c s t := by
  have none' : handed? host c s = none := if_neg fun leaves => by
    rw [enters] at leaves
    cases leaves.1
  have leads : (s.holdings []).Leads (t.holdings []) :=
    ⟨Nat.le_of_eq on.nextSeq.symm, fun node mem =>
      .of_mem ((on.nodes mem).resolve_left (Record.nodes_empty node))⟩
  constructor
  · exact on.unpoisoned sane
  · exact on.nextSeq
  · exact leads
  · rw [on.recordOf, begun, if_pos ⟨enters, begins⟩]
  · intro g other
    rw [received_of_none none', Option.map_id, id]
    rcases on.frames.others g other with same | ⟨gone, dropped⟩
    · exact .inl (by rw [record?, Table.content?, same]; rfl)
    · exact .inr ⟨by rw [record?, Table.content?, gone]; rfl, Confined.loses_of_emptied on dropped⟩
  · exact fun x => on.current_shared

/-- A function that is left hands its only operand to another frame. -/
theorem Begun.of_handed (sane : s.Unpoisoned) {mid : Shadow K} {caller : K.Frame}
    {node : Node K.Value} (given : handed? host c s = some (caller, node))
    (other : caller ≠ c.frame)
    (taken : OnRecord (fun _ => False) c.frame s mid { s.recordOf c.frame with stack := [] }
      s.nextSeq)
    (put : OnRecord (fun _ => False) caller mid t ((mid.recordOf caller).push node) s.nextSeq) :
    Begun host c s t := by
  obtain ⟨leaves, -, -, traced, only⟩ := handed?_eq_some.mp given
  have onStack : node ∈ s.store.nodes := by
    refine mem_nodes_of_record c.frame (Record.mem_nodes.mpr (.inl ?_))
    rw [only]
    exact List.mem_cons_self
  have left : ∀ a ∈ mid.store.nodes, a ∈ s.store.nodes := by
    intro a mem
    rcases taken.nodes mem with inside | before
    · refine mem_nodes_of_record c.frame (Record.mem_nodes.mpr (.inr ?_))
      exact (Record.mem_nodes.mp inside).resolve_left List.not_mem_nil
    · exact before
  have others : ∀ {f : K.Frame} {u v : Shadow K} {r : Record K.Value} {n : Nat},
      OnRecord (fun _ => False) f u v r n → ∀ g, g ≠ f → v.record? g = u.record? g :=
    fun on g ne => (on.frames.others g ne).content?_eq id
  constructor
  · exact put.unpoisoned (taken.unpoisoned sane)
  · exact put.nextSeq
  · refine ⟨Nat.le_of_eq put.nextSeq.symm, fun a mem => .of_mem ?_⟩
    rcases put.nodes mem with inside | before
    · rcases Record.nodes_push inside with rfl | held
      · exact onStack
      · exact left a (mem_nodes_of_record caller held)
    · exact left a before
  · have stays : ¬ (c.moment.kind = .enter ∧
        c.site.categories.contains .functionBoundary = true) := by
      rw [leaves]
      nofun
    rw [recordOf, others put c.frame other.symm, taken.record?, begun, if_neg stays, given]
    rfl
  · intro g far
    refine .inl ?_
    unfold received
    rw [given]
    dsimp only
    by_cases same : g = caller
    · subst same
      obtain ⟨record, there⟩ := Option.ne_none_iff_exists'.mp traced
      have before : mid.record? g = some record := (others taken g far).trans there
      rw [put.record?, recordOf_eq before, there, Option.map_some, if_pos rfl]
    · rw [others put g same, others taken g far]
      simp only [if_neg same, Option.map_id_fun', id]
  · exact fun x shared => (put.current_shared shared).trans (taken.current_shared shared)

/-- The rule of the function itself, which never fails. -/
theorem begun_rule (apart : ∀ f, host.callerOf f ≠ some f) (sane : s.Unpoisoned)
    (has : c.site.categories.contains .functionBoundary = true) (other : c.moment.kind ≠ .unwind) :
    Ends (tracer.rule host c .functionBoundary) s fun r t => r = .ok () ∧ Begun host c s t := by
  obtain ⟨site, frame, moment⟩ := c
  cases moment with
  | unwind exception => exact absurd rfl other
  | enter =>
    refine (enter_boundary_lost sane).mono ?_
    rintro r t ⟨done, on⟩
    exact ⟨done, .of_enter sane rfl has on⟩
  | leave value =>
    have same : handed? host ⟨site, frame, .leave value⟩ s = handedBack? host s frame :=
      if_pos ⟨rfl, has⟩
    change Ends (applyLeave tracer host site frame value .functionBoundary) s _
    refine (leave_boundary sane).mono ?_
    rintro r t ⟨done, ends⟩
    refine ⟨done, ?_⟩
    cases given : handedBack? host s frame with
    | none =>
      rw [given] at ends
      exact .of_same sane ends (same.trans given) nofun
    | some pair =>
      obtain ⟨caller, node⟩ := pair
      rw [given] at ends
      obtain ⟨mid, taken, put⟩ := ends
      refine .of_handed sane (same.trans given) ?_ taken put
      rintro rfl
      exact apart caller (handedBack?_eq_some.mp given).1

/-- The log is no matter. -/
theorem Begun.of_noted (h : Begun host c (noted s c) t) : Begun host c s t := by
  obtain ⟨site, frame, moment⟩ := c
  cases moment <;> exact ⟨h.sane, h.nextSeq, h.leads, h.own, h.frames, h.slots⟩

/-! ### A checkpoint as a whole -/

/-- What a checkpoint has changed between two states, and what not. -/
structure ActsLocally (tracer : Tracer) (host : Host K) (c : Checkpoint K) (s t : Shadow K) :
    Prop where
  /-- No other frame gets a record. It keeps the one it had, but for what it is handed, unless it had
      lost its owner. -/
  frames : ∀ g, g ≠ c.frame → t.record? g = (s.record? g).map (received host c s g) ∨
    t.record? g = none ∧ host.Loses (s.holdings []) (t.holdings []) (.frame g)
  /-- A function that returns hands over the only node on its stack, to its caller if that is traced. -/
  handed : ∀ g node, handed? host c s = some (g, node) ↔
    c.moment.kind = .leave ∧ c.site.categories.contains .functionBoundary = true ∧
      host.callerOf c.frame = some g ∧ s.record? g ≠ none ∧ (s.recordOf c.frame).stack = [node]
  /-- What it hands over it does not keep. -/
  moved : ∀ g node, handed? host c s = some (g, node) →
    g ≠ c.frame ∧ node ∉ (t.recordOf c.frame).stack
  /-- The slots of objects and scopes and the globals, but for those that the site names. -/
  slots : ∀ x, x.Shared → (∀ step ∈ (Act.checkpoint host c).steps tracer s, ¬ step.Touches x) →
    t.current x = s.current x ∨ t.current x = none ∧ ∃ owner, x.owner = some owner ∧
      host.Loses (s.holdings []) (t.holdings []) owner
  /-- A site that is entered leaves marks, and nothing else. -/
  entered : c.moment.kind = .enter → t.recordOf c.frame = { begun host c s with
    marks := Opened c.site (begun host c s).depth (begun host c s).marks }
  /-- The locals of the frame, but for the one that the site names. -/
  histories : ∀ name, (∀ step ∈ (Act.checkpoint host c).steps tracer s,
      ¬ step.Touches (.frameLocal c.frame name)) →
    (t.recordOf c.frame).histories.getD name [] = (begun host c s).histories.getD name []
  /-- The result of the frame is set when a `return` is left. -/
  result : (t.recordOf c.frame).result = (begun host c s).result ∨
    c.moment.kind = .unwind ∧ c.site.categories.contains .useStackDefReturn = true

/-- What is left to do once the function has begun or has been left is confined to the frame. -/
theorem acts_locally_of_begun {mid : Shadow K} {categories : List Category}
    (apart : ∀ f, host.callerOf f ≠ some f) (wellFormed : s.WellFormed)
    (begins : Begun host c s mid)
    (other : .functionBoundary ∈ categories → c.moment.kind = .unwind)
    (steps : ∀ step ∈ tracer.ruleSteps host c categories mid,
      step ∈ (Act.checkpoint host c).steps tracer s)
    (part : categories ⊆ c.site.categories.toList)
    (marking : categories.countP Category.marksDepth =
      c.site.categories.toList.countP Category.marksDepth) :
    Ends (categories.forM fun category =>
      ExceptT.adapt (·.atSite c.site.id) (tracer.rule host c category)) mid fun _ t =>
        ActsLocally tracer host c s t := by
  let foot : Footprint K := {
    slots := fun x => ∃ step ∈ (Act.checkpoint host c).steps tracer s, step.Touches x
    result := c.moment.kind = .unwind ∧ c.site.categories.contains .useStackDefReturn = true }
  have confined : Ends (categories.forM fun category =>
      ExceptT.adapt (·.atSite c.site.id) (tracer.rule host c category)) mid fun _ t =>
        Confined host c.frame foot s.nextSeq mid [] t [] :=
    confined_rules begins.sane (Nat.le_of_eq begins.nextSeq.symm) other
      (fun step mem x touches => ⟨step, steps step mem, touches⟩)
      fun unwinds returns => ⟨unwinds, CategorySet.mem_toList.mp (part returns)⟩
  have untouched : ∀ {x : Slot K}, (∀ step ∈ (Act.checkpoint host c).steps tracer s,
      ¬ step.Touches x) → ¬ foot.slots x := fun outside ⟨step, mem, touches⟩ =>
    outside step mem touches
  have marked : Ends (categories.forM fun category =>
      ExceptT.adapt (·.atSite c.site.id) (tracer.rule host c category)) mid fun _ t =>
        c.moment.kind = .enter → t.recordOf c.frame = { begun host c s with
          marks := Opened c.site (begun host c s).depth (begun host c s).marks } := fun enters => by
    have opens : c.moment = .enter := Moment.eq_enter enters
    have inside : .functionBoundary ∉ categories := fun mem => by
      cases enters.symm.trans (other mem)
    have ends := record_entering tracer host opens categories inside begins.sane
    rw [marking, begins.own] at ends
    exact ends
  refine (confined.both marked).mono ?_
  rintro r t ⟨confined, marked⟩
  constructor
  · intro g far
    rcases confined.frames g far with same | ⟨gone, loses⟩
    · rw [same]
      exact (begins.frames g far).imp_right fun ⟨gone, loses⟩ =>
        ⟨gone, loses.mono (.refl _) confined.leads⟩
    · exact .inr ⟨gone, loses.mono begins.leads (.refl _)⟩
  · exact fun g node => handed?_eq_some
  · intro g node given
    obtain ⟨-, -, called, -, only⟩ := handed?_eq_some.mp given
    refine ⟨fun same => apart g (same ▸ called), fun kept => ?_⟩
    -- what is on the stack has been made since, and the node has been there before
    have before : node.seq < s.nextSeq := by
      refine wellFormed.counted node (.root (mem_nodes_of_record c.frame ?_))
      rw [Record.mem_nodes, only]
      exact .inl List.mem_cons_self
    have emptied : (mid.recordOf c.frame).stack = [] := by
      rw [begins.own, begun, given]
      split <;> rfl
    rcases confined.stack node kept with old | new
    · rw [emptied] at old
      cases old
    · omega
  · intro x shared outside
    rcases confined.slots x shared (untouched outside) with same | ⟨gone, owner, own, loses⟩
    · exact .inl (same.trans (begins.slots x shared))
    · exact .inr ⟨gone, owner, own, loses.mono begins.leads (.refl _)⟩
  · exact marked
  · intro name outside
    rw [confined.histories name (untouched outside), begins.own]
  · by_cases returns : foot.result
    · exact .inr returns
    · refine .inl ?_
      rw [confined.result returns, begins.own]

/-- Whatever a tracer has been told of before, it acts locally at a checkpoint of any site and in any
    frame, whether that is accepted or refused, as long as no frame has called itself. -/
theorem acts_locally (tracer : Tracer) (interval nextSeq : Nat) (log : Log) (acts : List (Act K))
    {host : Host K} (apart : ∀ f, host.callerOf f ≠ some f) (c : Checkpoint K) :
    let s := (⟨.ofInterval interval, nextSeq, log⟩ : Shadow K).afterAll tracer acts
    ActsLocally tracer host c s ((tracer.react host c).run.run s).2 := by
  intro s
  obtain ⟨sane, wellFormed⟩ : s.Unpoisoned ∧ s.WellFormed :=
    (extends_ofInterval interval nextSeq log).wellFormed.afterAll tracer
      (unpoisoned_ofInterval interval nextSeq log) acts
  rw [run_react]
  by_cases bounds : c.site.categories.contains .functionBoundary = true ∧ c.moment.kind ≠ .unwind
  · obtain ⟨has, other⟩ := bounds
    obtain ⟨rest, split, once⟩ := c.site.categories.toList_boundary has
    have first : Ends (tracer.rule host c .functionBoundary) (noted s c) fun r t =>
        r = .ok () ∧ Begun host c (noted s c) t :=
      begun_rule apart ((sameState_noted s c).unpoisoned sane) has other
    unfold Ends at first
    rcases ran : (tracer.rule host c .functionBoundary).run.run (noted s c) with ⟨r, mid⟩
    rw [ran] at first
    obtain ⟨rfl, begins⟩ := first
    have steps : (Act.checkpoint host c).steps tracer s =
        ⟨.rule host c .functionBoundary, noted s c, true, mid⟩ ::
          tracer.ruleSteps host c rest mid := by
      rw [Act.steps, split, ruleSteps, ran]
    have ends : Ends (c.site.categories.toList.forM fun category =>
        ExceptT.adapt (·.atSite c.site.id) (tracer.rule host c category)) (noted s c)
          fun _ t => ActsLocally tracer host c s t := by
      rw [split, ends_rules_cons]
      refine .of_run ran (acts_locally_of_begun apart wellFormed begins.of_noted
        (fun inside => absurd inside once) (fun step mem => steps ▸ List.mem_cons_of_mem _ mem) ?_ ?_)
      · rw [split]
        exact List.subset_cons_self _ _
      · rw [split, List.countP_cons_of_neg (by decide)]
    exact ends
  · -- there is no such rule, or it only says that the function has been unwound
    have unwinds : c.site.categories.contains .functionBoundary = true → c.moment.kind = .unwind :=
      fun has => Classical.byContradiction fun other => bounds ⟨has, other⟩
    have none' : handed? host c s = none :=
      if_neg fun leaves => by cases leaves.1.symm.trans (unwinds leaves.2)
    have same := Begun.of_same (t := noted s c) sane (sameState_noted s c) none' fun enters =>
      Bool.eq_false_iff.mpr fun has => by cases enters.symm.trans (unwinds has)
    exact acts_locally_of_begun apart wellFormed same
      (fun inside => unwinds (CategorySet.mem_toList.mp inside)) (fun _ => id)
      (List.Subset.refl _) rfl

end Tracer

/-! A function returns to a traced caller, at a site that also makes a node of its own. -/

namespace CallAndReturn

open WriteThenRead (numbers)

def host : Host numbers where
  callerOf frame := if frame = 1 then some 0 else none
  argumentCount _ := 0
  objectOf _ := none
  survivors _ := ⟨fun _ => true, fun _ => true, fun _ => true⟩

def checkpoint (id : Nat) (categories : List Category) (frame : Nat) (moment : Moment Nat) :
    Checkpoint numbers :=
  ⟨{ id := ⟨id⟩, label := "double", categories := .ofList categories }, frame, moment⟩

def acts : List (Act numbers) := [
  .checkpoint host (checkpoint 0 [.functionBoundary] 0 .enter),
  .checkpoint host (checkpoint 1 [.functionBoundary] 1 .enter),
  .checkpoint host (checkpoint 2 [.noUseDefStack] 1 (.leave 14))]

/-- The node of the value that is returned. -/
def doubled : Node Nat := ⟨1, some ⟨⟨2⟩, "double"⟩, some 14, []⟩

theorem acts_locally_return :
    (∀ f, host.callerOf f ≠ some f) ∧
      let s := (⟨.ofInterval 1, 1, {}⟩ : Shadow numbers).afterAll {} acts
      let c := checkpoint 1 [.functionBoundary, .noUseDefStack] 1 (.leave 14)
      let t := ((Tracer.react {} host c).run.run s).2
      t.record? (0 : Nat) = some { stack := [doubled] } ∧ doubled ∉ (t.recordOf (1 : Nat)).stack := by
  have apart : ∀ f, host.callerOf f ≠ some f := by
    intro f calls
    change (if f = 1 then some 0 else none) = some f at calls
    split at calls
    · next callee =>
      rw [callee] at calls
      cases calls
    · cases calls
  refine ⟨apart, ?_⟩
  intro s c t
  have locally' := Tracer.acts_locally {} 1 1 {} acts apart c
  have given : Tracer.handed? host c s = some ((0 : Nat), doubled) := by with_unfolding_all rfl
  refine ⟨?_, (locally'.moved 0 doubled given).2⟩
  rcases locally'.frames (0 : Nat) nofun with same | ⟨-, between, -, -, without⟩
  · refine same.trans ?_
    with_unfolding_all rfl
  · exact absurd rfl without

end CallAndReturn

end Lineage
