import Lineage.Proofs.Listening
import Lineage.Proofs.Refusals
import Lineage.Proofs.Upkeep

/-!
# What building a site promises

Building checks the categories of a site against its capabilities, in the order in which their rules
will be applied. `Site.Serves` is what it asks for. A site that was built is never short of a capability
when it is traced, whatever state the tracer is in, and entering it fails for a broken lock only.
-/

namespace Lineage

variable {K : Kinds}

namespace Site

variable {site : Site K} {category : Category} {fault : Fault}

/-- The site has what the category reads; an argument that it binds lies below the count that it
    declares, unless that is zero. -/
structure Serves (site : Site K) (category : Category) : Prop where
  capability : ∀ what, category.capability? = some what → site.has what = true
  argument : category = .useArgDefStack → ∀ index count,
    site.argument = some ⟨index, .declared count⟩ → count = 0 ∨ index < count

/-- What there is to say of a site that does not serve the category. -/
inductive Complaint (site : Site K) (category : Category) : Fault → Prop
  | missing {what : Capability} (reads : category.capability? = some what)
      (lacks : site.has what = false) :
      Complaint site category (.violation (.missingCapability site.id site.label what))
  | outOfRange {index count : Nat} (binds : category = .useArgDefStack)
      (slot : site.argument = some ⟨index, .declared count⟩) (closed : 0 < count)
      (excluded : count ≤ index) :
      Complaint site category (.violation (.argumentOutOfRange site.id index count))

theorem discard_demand {α : Type} (what : Capability) (found : Option α) :
    (discard (site.demand what found) : Except Fault Unit) =
      if found.isSome then .ok ()
      else .error (.violation (.missingCapability site.id site.label what)) := by
  cases found <;> rfl

theorem check_of_capability {what : Capability} (reads : category.capability? = some what)
    (other : category ≠ .useArgDefStack) :
    site.check category =
      if site.has what then .ok ()
      else .error (.violation (.missingCapability site.id site.label what)) := by
  cases category with
  | useArgDefStack => exact absurd rfl other
  | functionBoundary | noUseDefStack | useStackDefStack | useStackDefReturn | callNode => cases reads
  | _ =>
    cases reads
    exact discard_demand _ _

theorem check_of_none (reads : category.capability? = none) : site.check category = .ok () := by
  cases category with
  | functionBoundary | noUseDefStack | useStackDefStack | useStackDefReturn | callNode => rfl
  | _ => cases reads

theorem check_argument (site : Site K) :
    site.check .useArgDefStack =
      match site.argument with
      | none => .error (.violation (.missingCapability site.id site.label .argumentSlot))
      | some ⟨_, .fromFrame⟩ => .ok ()
      | some ⟨index, .declared count⟩ =>
          if index < count ∨ count = 0 then .ok ()
          else .error (.violation (.argumentOutOfRange site.id index count)) := by
  unfold check requireArgument demand
  rcases site.argument with _ | ⟨index, count | _⟩
  · rfl
  · change (if admits ⟨index, .declared count⟩ then (pure () : Except Fault Unit) else throw _) = _
    simp only [admits, Bool.or_eq_true, decide_eq_true_eq]
    rfl
  · rfl

/-- The check of a category says whether the site serves it, and what is wrong if it does not. -/
theorem check_spec (site : Site K) (category : Category) :
    match site.check category with
    | .ok _ => site.Serves category
    | .error fault => site.Complaint category fault := by
  by_cases binds : category = .useArgDefStack
  · subst binds
    rw [check_argument]
    rcases slot : site.argument with _ | ⟨index, count | _⟩
    · exact .missing rfl (by simp [has, slot])
    · dsimp only
      by_cases fits : index < count ∨ count = 0
      · rw [if_pos fits]
        constructor
        · rintro _ ⟨⟩
          simp [has, slot]
        · intro _ index' count' same
          cases slot.symm.trans same
          exact fits.symm
      · rw [if_neg fits]
        exact .outOfRange rfl slot (by omega) (by omega)
    · constructor
      · rintro _ ⟨⟩
        simp [has, slot]
      · intro _ index' count' same
        cases slot.symm.trans same
  cases reads : category.capability? with
  | none =>
    rw [check_of_none reads]
    constructor
    · intro what reads'
      cases reads.symm.trans reads'
    · exact fun same => absurd same binds
  | some what =>
    rw [check_of_capability reads binds]
    cases has' : site.has what with
    | true =>
      constructor
      · intro what' reads'
        cases reads.symm.trans reads'
        exact has'
      · exact fun same => absurd same binds
    | false => exact .missing reads has'

theorem Complaint.not_serves (complaint : site.Complaint category fault) :
    ¬ site.Serves category := by
  intro serves
  cases complaint with
  | missing reads lacks => cases lacks.symm.trans (serves.capability _ reads)
  | outOfRange binds slot closed excluded =>
    have := serves.argument binds _ _ slot
    omega

theorem Complaint.unique {fault' : Fault} (complaint : site.Complaint category fault)
    (complaint' : site.Complaint category fault') : fault' = fault := by
  cases complaint with
  | missing reads lacks =>
    cases complaint' with
    | missing reads' lacks' =>
      cases reads.symm.trans reads'
      rfl
    | outOfRange binds slot =>
      subst binds
      cases reads
      simp [has, slot] at lacks
  | outOfRange binds slot =>
    cases complaint' with
    | missing reads lacks =>
      subst binds
      cases reads
      simp [has, slot] at lacks
    | outOfRange binds' slot' =>
      cases slot.symm.trans slot'
      rfl

theorem check_eq_ok_iff : site.check category = .ok () ↔ site.Serves category := by
  have spec := check_spec site category
  cases checked : site.check category with
  | ok _ =>
    rw [checked] at spec
    exact ⟨fun _ => spec, fun _ => rfl⟩
  | error fault =>
    rw [checked] at spec
    exact ⟨nofun, fun serves => absurd serves (Complaint.not_serves spec)⟩

theorem check_eq_error_iff : site.check category = .error fault ↔ site.Complaint category fault := by
  have spec := check_spec site category
  cases checked : site.check category with
  | ok _ =>
    rw [checked] at spec
    exact ⟨nofun, fun complaint => absurd spec complaint.not_serves⟩
  | error first =>
    rw [checked] at spec
    constructor
    · intro same
      exact Except.error.inj same ▸ spec
    · intro complaint
      exact congrArg _ (Complaint.unique complaint spec)

/-! ### Building -/

theorem forM_check_cons (first : Category) (rest : List Category) :
    (first :: rest).forM site.check =
      match site.check first with
      | .ok _ => rest.forM site.check
      | .error fault => .error fault := by
  change (site.check first >>= fun _ => rest.forM site.check) = _
  cases site.check first <;> rfl

theorem forM_check_ok_iff {categories : List Category} :
    categories.forM site.check = .ok () ↔ ∀ category ∈ categories, site.Serves category := by
  constructor
  · intro passed category mem
    exact check_eq_ok_iff.mp (check_of_forM passed category mem)
  · intro serves
    induction categories with
    | nil => rfl
    | cons first rest ih =>
      rw [forM_check_cons, check_eq_ok_iff.mpr (serves first List.mem_cons_self)]
      exact ih fun category mem => serves category (List.mem_cons_of_mem _ mem)

/-- The complaint is about the first category in order that the site does not serve. -/
theorem forM_check_error_iff {categories : List Category} :
    categories.forM site.check = .error fault ↔
      ∃ earlier category later, categories = earlier ++ category :: later ∧
        (∀ served ∈ earlier, site.Serves served) ∧ site.Complaint category fault := by
  induction categories with
  | nil =>
    constructor
    · intro failed
      cases failed
    · intro ⟨earlier, _, _, split, _⟩
      cases earlier <;> cases split
  | cons first rest ih =>
    rw [forM_check_cons]
    constructor
    · intro failed
      cases checked : site.check first with
      | error complaint =>
        rw [checked] at failed
        cases failed
        exact ⟨[], first, rest, rfl, nofun, check_eq_error_iff.mp checked⟩
      | ok _ =>
        rw [checked] at failed
        obtain ⟨earlier, category, later, rfl, served, complaint⟩ := ih.mp failed
        refine ⟨first :: earlier, category, later, rfl, ?_, complaint⟩
        intro other mem
        rcases List.mem_cons.mp mem with rfl | mem
        · exact check_eq_ok_iff.mp checked
        · exact served other mem
    · intro ⟨earlier, category, later, split, served, complaint⟩
      cases earlier with
      | nil =>
        obtain ⟨rfl, rfl⟩ := List.cons.inj split
        rw [check_eq_error_iff.mpr complaint]
      | cons head earlier =>
        obtain ⟨rfl, rfl⟩ := List.cons.inj split
        rw [check_eq_ok_iff.mpr (served first List.mem_cons_self)]
        apply ih.mpr
        exact ⟨earlier, category, later, rfl,
          fun other mem => served other (List.mem_cons_of_mem _ mem), complaint⟩

theorem build_eq (id : SiteId) (label : String) (traits : List (Trait K)) :
    build id label traits =
      match (ofTraits id label traits).categories.toList.forM (ofTraits id label traits).check with
      | .ok _ => .ok (ofTraits id label traits)
      | .error fault => .error fault := by
  change ((ofTraits id label traits).categories.toList.forM (ofTraits id label traits).check >>=
    fun _ => pure (ofTraits id label traits)) = _
  cases (ofTraits id label traits).categories.toList.forM (ofTraits id label traits).check <;> rfl

theorem build_eq_ok_iff {id : SiteId} {label : String} {traits : List (Trait K)} :
    build id label traits = .ok site ↔
      site = ofTraits id label traits ∧
        ∀ category, site.categories.contains category = true → site.Serves category := by
  have members : (∀ category ∈ (ofTraits id label traits).categories.toList,
      (ofTraits id label traits).Serves category) ↔ ∀ category,
        (ofTraits id label traits).categories.contains category = true →
          (ofTraits id label traits).Serves category :=
    forall_congr' fun category => by rw [CategorySet.mem_toList]
  rw [build_eq]
  cases checked :
      (ofTraits id label traits).categories.toList.forM (ofTraits id label traits).check with
  | ok _ =>
    have serves := members.mp (forM_check_ok_iff.mp checked)
    constructor
    · rintro ⟨⟩
      exact ⟨rfl, serves⟩
    · intro ⟨same, _⟩
      rw [same]
  | error fault =>
    constructor
    · intro built
      cases built
    · rintro ⟨rfl, serves⟩
      cases checked.symm.trans (forM_check_ok_iff.mpr (members.mpr serves))

theorem build_eq_error_iff {id : SiteId} {label : String} {traits : List (Trait K)} :
    build id label traits = .error fault ↔
      ∃ earlier category later,
        (ofTraits id label traits).categories.toList = earlier ++ category :: later ∧
          (∀ served ∈ earlier, (ofTraits id label traits).Serves served) ∧
          (ofTraits id label traits).Complaint category fault := by
  rw [← forM_check_error_iff, build_eq]
  cases (ofTraits id label traits).categories.toList.forM (ofTraits id label traits).check with
  | ok _ => exact ⟨nofun, nofun⟩
  | error first => exact ⟨fun same => Except.error.inj same ▸ rfl, fun same => Except.error.inj same ▸ rfl⟩

end Site

/-! ### Tracing a site that was built -/

namespace Tracer

variable {host : Host K}

/-- Where the site serves the category, the rule does not complain of a capability. -/
theorem upkeep_of_serves {c : Checkpoint K} {category : Category} (serves : c.site.Serves category) :
    Upkeep c category (fun _ => True) fun fault => fault.blamesCapability = false where
  aside _ _ _ := trivial
  opens _ _ := trivial
  edits _ _ _ := trivial
  sets _ _ _ _ _ := trivial
  complains plain := plain
  unserved failed := by cases failed.symm.trans (Site.check_eq_ok_iff.mpr serves)

theorem react_not_blames (tracer : Tracer) {c : Checkpoint K}
    (serves : ∀ category, c.site.categories.contains category = true → c.site.Serves category)
    (s : Shadow K) :
    Ends (tracer.react host c) s fun r _ =>
      ∀ id label what, r ≠ .error (.violation (.missingCapability id label what)) := by
  have upheld : Upholds (fun _ => True) (fun fault => fault.blamesCapability = false)
      (tracer.react host c) := by
    apply upholds_react tracer host c (fun _ _ _ _ => trivial)
    · intro fault id plain
      rw [Fault.blamesCapability_atSite, plain]
    · intro category mem
      exact (upkeep_of_serves (serves category (CategorySet.mem_toList.mp mem))).upholds_rule tracer host
  apply (upheld s trivial).mono
  intro r t ⟨_, plain⟩ id label what failed
  cases plain _ failed

/-- A site can be entered unless a lock is broken, and then no lock is broken afterwards. -/
theorem upholds_enter (host : Host K) (site : Site K) (frame : K.Frame) :
    Upholds Shadow.Unpoisoned (fun _ => False) (enter host site frame) := by
  apply upholds_react {} host ⟨site, frame, .enter⟩ (fun _ _ same sane => same.unpoisoned sane)
  · exact fun _ _ impossible => impossible
  · intro category _ s sane
    by_cases boundary : category = .functionBoundary
    · subst boundary
      apply (enter_boundary sane).mono
      rintro r t ⟨rfl, on⟩
      exact ⟨on.unpoisoned sane, nofun⟩
    cases marks : category.marksDepth with
    | true =>
      apply (enter_marking sane marks).mono
      rintro r t ⟨rfl, on⟩
      exact ⟨on.unpoisoned sane, nofun⟩
    | false =>
      apply (enter_other boundary marks).mono
      rintro r t ⟨rfl, rfl⟩
      exact ⟨sane, nofun⟩

end Tracer

namespace Site

/-- What was said of a site while it was made is complete just if each of its categories is served, and
    else the complaint is about the first that is not. No rule applied to a complete site is short of a
    capability, in any state of the tracer; and entering it succeeds unless a lock is broken. -/
theorem build_covers_rules (id : SiteId) (label : String) (traits : List (Trait K)) :
    (∀ site, build id label traits = .ok site ↔
      site = ofTraits id label traits ∧
        ∀ category, site.categories.contains category = true → site.Serves category) ∧
    (∀ fault, build id label traits = .error fault ↔
      ∃ earlier category later,
        (ofTraits id label traits).categories.toList = earlier ++ category :: later ∧
          (∀ served ∈ earlier, (ofTraits id label traits).Serves served) ∧
          (ofTraits id label traits).Complaint category fault) ∧
    ∀ site, build id label traits = .ok site →
      ∀ (tracer : Tracer) (host : Host K) (frame : K.Frame) (moment : Moment K.Value) (s : Shadow K),
        let answer := ((tracer.react host ⟨site, frame, moment⟩).run.run s).1
        (∀ id label what, answer ≠ .error (.violation (.missingCapability id label what))) ∧
          (moment = .enter → s.Unpoisoned → answer = .ok ()) := by
  refine ⟨fun _ => build_eq_ok_iff, fun _ => build_eq_error_iff, ?_⟩
  intro site built tracer host frame moment s answer
  constructor
  · exact tracer.react_not_blames (c := ⟨site, frame, moment⟩) (build_eq_ok_iff.mp built).2 s
  · rintro rfl sane
    have entered := (Tracer.upholds_enter host site frame s sane).2
    cases outcome : answer with
    | ok _ => rfl
    | error fault => exact absurd outcome (entered fault)

/-! A receiver is bound as argument 0 of a count of zero that stands for one left open. -/

namespace ReceiverBinding

open Session.RefusedEntry (numbers interpreter)

def traits : List (Trait numbers) :=
  [.category .useArgDefStack, .argument 0 (.declared 0), .category .useStackDefStack]

theorem build_covers_rules_receiver :
    let site := ofTraits ⟨3⟩ "self" traits
    let s : Shadow numbers := ⟨.ofInterval 0, 1, {}⟩
    build ⟨3⟩ "self" traits = .ok site ∧ s.Unpoisoned ∧
      ((Tracer.react {} interpreter ⟨site, 0, .enter⟩).run.run s).1 = .ok () := by
  have built : build ⟨3⟩ "self" traits = .ok (ofTraits ⟨3⟩ "self" traits) := rfl
  have sane : (Shadow.mk (.ofInterval 0) 1 {} : Shadow numbers).Unpoisoned :=
    Shadow.unpoisoned_ofInterval 0 1 {}
  obtain ⟨_, _, covers⟩ := build_covers_rules ⟨3⟩ "self" traits
  exact ⟨built, sane, (covers _ built {} interpreter 0 .enter ⟨.ofInterval 0, 1, {}⟩).2 rfl sane⟩

end ReceiverBinding

end Site

end Lineage
