import Lineage.Proofs.Numbering
import Lineage.Proofs.Shadow
import Lineage.Tracer

/-!
# Renumbering

No rule of the tracer looks at the number of a node but to give the next one, and none looks at the
log. So a tracer that is told of a checkpoint in a renumbered state answers as it does in the state
itself, and leaves what it leaves there, renumbered, whatever is logged: `Tracer.carries_react`. The
host must not look at the numbers either when it says what has an owner.
-/

namespace Lineage

section Carrying

variable {ε σ τ α β γ δ : Type}

/-- Run from `t`, the second work comes to what the first comes to from `s`, the value changed by `f`,
    and to a state that `R` relates to that of the first. -/
def Carries (R : σ → τ → Prop) (f : α → β) (s : σ) (t : τ) (work : ExceptT ε (StateM σ) α)
    (work' : ExceptT ε (StateM τ) β) : Prop :=
  (work'.run.run t).1 = (work.run.run s).1.map f ∧ R (work.run.run s).2 (work'.run.run t).2

variable {R : σ → τ → Prop} {f : α → β} {s : σ} {t : τ}

theorem carries_pure (h : R s t) {a : α} {b : β} (same : b = f a) :
    Carries R f s t (pure a : ExceptT ε (StateM σ) α) (pure b) := by
  subst same
  exact ⟨rfl, h⟩

theorem carries_throw (h : R s t) (e : ε) :
    Carries R f s t (throw e : ExceptT ε (StateM σ) α) (throw e) := ⟨rfl, h⟩

theorem carries_set {s' : σ} {t' : τ} (h : R s' t') :
    Carries R id s t (set s' : ExceptT ε (StateM σ) PUnit) (set t') := ⟨rfl, h⟩

namespace Carries

variable {work : ExceptT ε (StateM σ) α} {work' : ExceptT ε (StateM τ) β}

theorem bind {g : γ → δ} {next : α → ExceptT ε (StateM σ) γ} {next' : β → ExceptT ε (StateM τ) δ}
    (first : Carries R f s t work work')
    (rest : ∀ a s' t', R s' t' → Carries R g s' t' (next a) (next' (f a))) :
    Carries R g s t (work >>= next) (work' >>= next') := by
  obtain ⟨same, related⟩ := first
  unfold Carries
  rw [run_bind, run_bind]
  generalize work.run.run s = ran, work'.run.run t = ran' at same related ⊢
  obtain ⟨e | a, s'⟩ := ran <;> obtain ⟨outcome, t'⟩ := ran'
  · obtain rfl : outcome = .error e := same
    exact ⟨rfl, related⟩
  · obtain rfl : outcome = .ok (f a) := same
    exact rest a s' t' related

/-- Work that starts by looking at the state is compared for the states at hand. -/
theorem get_bind {next : σ → ExceptT ε (StateM σ) α} {next' : τ → ExceptT ε (StateM τ) β}
    (rest : Carries R f s t (next s) (next' t)) : Carries R f s t (get >>= next) (get >>= next') := by
  unfold Carries
  rw [run_bind, run_bind]
  exact rest

theorem map (first : Carries R f s t work work') (g : α → γ) (g' : β → δ) {h : γ → δ}
    (same : ∀ a, g' (f a) = h (g a)) : Carries R h s t (g <$> work) (g' <$> work') := by
  rw [map_eq_pure_bind, map_eq_pure_bind]
  exact first.bind fun a _ _ related => carries_pure related (same a)

theorem adapt {ε' : Type} (first : Carries R f s t work work') (g : ε → ε') :
    Carries R f s t (ExceptT.adapt g work) (ExceptT.adapt g work') := by
  obtain ⟨same, related⟩ := first
  refine ⟨(congrArg (Except.mapError g) same).trans ?_, related⟩
  change ((work.run.run s).1.map f).mapError g = ((work.run.run s).1.mapError g).map f
  rcases (work.run.run s).1 with _ | _ <;> rfl

theorem forM {works : γ → ExceptT ε (StateM σ) PUnit} {works' : γ → ExceptT ε (StateM τ) PUnit}
    (list : List γ) (each : ∀ c s t, R s t → Carries R id s t (works c) (works' c)) (h : R s t) :
    Carries R id s t (list.forM works) (list.forM works') := by
  induction list generalizing s t with
  | nil => exact carries_pure h rfl
  | cons c rest ih => exact (each c s t h).bind fun _ _ _ related => ih related

end Carries

end Carrying

/-- From `n` on, which is `first` or later, `ρ` leaves the numbers next to each other. -/
def CountsOn (ρ : Nat → Nat) (first n : Nat) : Prop := first ≤ n ∧ ∀ k, ρ (n + k) = ρ n + k

theorem CountsOn.succ {ρ : Nat → Nat} {first n : Nat} (h : CountsOn ρ first n) :
    ρ (n + 1) = ρ n + 1 ∧ CountsOn ρ first (n + 1) := by
  obtain ⟨later, counts⟩ := h
  refine ⟨counts 1, Nat.le_succ_of_le later, fun k => ?_⟩
  rw [Nat.add_assoc, counts, counts, Nat.add_assoc]

/-- One record or the slots of one entity, changed by `g`, along with the number of the next node. -/
def PartOf {E : Type} (ρ : Nat → Nat) (first : Nat) (g : E → E) (p q : E × Nat) : Prop :=
  q = (g p.1, ρ p.2) ∧ CountsOn ρ first p.2

/-! ### Work on one record -/

namespace Record

variable {V : Type} (ρ : Nat → Nat) (r : Record V) (name : String)

theorem depth_renumber : (r.renumber ρ).depth = r.depth := List.length_map _

theorem renumber_write (node : Node V) :
    (r.write name node).renumber ρ = (r.renumber ρ).write name (node.renumber ρ) := by
  have older := Dict.getD_map (List.map (Node.renumber ρ)) r.histories name []
  have histories := Dict.map_set (List.map (Node.renumber ρ)) r.histories name
    (node :: r.histories.getD name [])
  rw [List.map_cons, ← older] at histories
  exact congrArg (fun histories => { r.renumber ρ with histories }) histories

theorem current_renumber {first n : Nat} (counts : CountsOn ρ first n) :
    (r.renumber ρ).current name (ρ n) = ((r.current name n).1.renumber ρ,
      ρ (r.current name n).2.1, (r.current name n).2.2.renumber ρ) := by
  have found := Dict.getD_map (List.map (Node.renumber ρ)) r.histories name []
  have found : (r.renumber ρ).histories.getD name [] = _ := found
  unfold current
  rw [found]
  cases r.histories.getD name [] with
  | cons node older => rfl
  | nil =>
    rw [List.map_nil]
    dsimp only
    rw [renumber_write, counts.succ.1, Node.renumber_eq]
    rfl

end Record

namespace RecordM

variable {V α : Type} {ρ : Nat → Nat} {first : Nat} {p q : Record V × Nat}

/-- Work on a record does on the renumbered record what it does on the record. -/
abbrev Carried (ρ : Nat → Nat) (first : Nat) {α β : Type} (f : α → β) (p q : Record V × Nat)
    (work : RecordM V α) (work' : RecordM V β) : Prop :=
  Carries (PartOf ρ first (Record.renumber ρ)) f p q work work'

theorem carries_take {f : α → α} {step : Record V → Except Fault (α × Record V)}
    (h : PartOf ρ first (Record.renumber ρ) p q)
    (same : ∀ r, step (r.renumber ρ) = (step r).map (Prod.map f (Record.renumber ρ))) :
    Carried ρ first f p q (take step) (take step) := by
  obtain ⟨r, n⟩ := p
  obtain ⟨rfl, counts⟩ := h
  unfold Carried Carries
  rw [run_take, run_take, same]
  rcases step r with fault | ⟨a, rest⟩
  · exact ⟨rfl, rfl, counts⟩
  · exact ⟨rfl, rfl, counts⟩

theorem carries_change {step step' : Record V → Record V} (h : PartOf ρ first (Record.renumber ρ) p q)
    (same : ∀ r, step' (r.renumber ρ) = (step r).renumber ρ) :
    Carried ρ first id p q (change step) (change step') := by
  obtain ⟨r, n⟩ := p
  obtain ⟨rfl, counts⟩ := h
  exact ⟨rfl, Prod.ext (same r) rfl, counts⟩

theorem carries_push (h : PartOf ρ first (Record.renumber ρ) p q) (node : Node V) :
    Carried ρ first id p q (change (·.push node)) (change (·.push (node.renumber ρ))) :=
  carries_change h fun _ => rfl

theorem carries_create (h : PartOf ρ first (Record.renumber ρ) p q) (creator : Option Creator)
    (value : Option V) (origins : List (Node V)) :
    Carried ρ first (Node.renumber ρ) p q (create creator value origins)
      (create creator value (origins.map (Node.renumber ρ))) := by
  obtain ⟨r, n⟩ := p
  obtain ⟨rfl, counts⟩ := h
  refine ⟨?_, Prod.ext rfl counts.succ.1.symm, counts.succ.2⟩
  change Except.ok _ = Except.ok (Node.renumber ρ _)
  rw [Node.renumber_eq]

theorem carries_pop (h : PartOf ρ first (Record.renumber ρ) p q) :
    Carried ρ first (Node.renumber ρ) p q (take Record.pop) (take Record.pop) := by
  refine carries_take h fun r => ?_
  unfold Record.pop Record.renumber
  cases r.stack <;> rfl

theorem carries_current (h : PartOf ρ first (Record.renumber ρ) p q) (name : String) :
    Carried ρ first (Node.renumber ρ) p q (current name) (current name) := by
  obtain ⟨r, n⟩ := p
  obtain ⟨rfl, counts⟩ := h
  have same := r.current_renumber ρ name counts
  have later : CountsOn ρ first (r.current name n).2.1 := by
    unfold Record.current
    cases r.histories.getD name [] with
    | cons node older => exact counts
    | nil => exact counts.succ.2
  refine ⟨?_, ?_, later⟩
  · exact congrArg (fun ran : _ × _ × _ => Except.ok ran.1) same
  · exact congrArg (fun ran : _ × _ × _ => (ran.2.2, ran.2.1)) same

end RecordM

namespace Tracer

open RecordM

variable {K : Kinds} {ρ : Nat → Nat} {first : Nat} {p q : Record K.Value × Nat}

theorem carries_takeOperands (h : PartOf ρ first (Record.renumber ρ) p q) (site : Site K) :
    Carried ρ first (List.map (Node.renumber ρ)) p q (takeOperands site) (takeOperands site) := by
  obtain ⟨r, n⟩ := p
  obtain ⟨rfl, counts⟩ := h
  have marks : (r.renumber ρ).mark? site.id = r.mark? site.id := rfl
  unfold Carried Carries
  rw [run_takeOperands, run_takeOperands, marks, Record.depth_renumber]
  cases r.mark? site.id with
  | none => exact ⟨rfl, rfl, counts⟩
  | some mark =>
    dsimp only
    split
    · exact ⟨rfl, rfl, counts⟩
    · refine ⟨congrArg Except.ok List.map_take.symm, Prod.ext ?_ rfl, counts⟩
      exact congrArg (fun stack => { (r.unmark site.id).renumber ρ with stack }) List.map_drop.symm

/-- What `takeReceiver` gives, renumbered. -/
def renumberReceiver (ρ : Nat → Nat) (taken : Node K.Value × List (Node K.Value)) :
    Node K.Value × List (Node K.Value) := (taken.1.renumber ρ, taken.2.map (Node.renumber ρ))

theorem carries_takeReceiver (h : PartOf ρ first (Record.renumber ρ) p q) (site : Site K)
    (absent : Violation) :
    Carried ρ first (renumberReceiver ρ) p q (takeReceiver site absent)
      (takeReceiver site absent) := by
  refine (carries_takeOperands h site).bind fun operands p q h => ?_
  cases operands with
  | nil => exact carries_throw h _
  | cons receiver others => exact carries_pure h rfl

theorem carries_popInto (h : PartOf ρ first (Record.renumber ρ) p q) (site : Site K)
    (value : K.Value) :
    Carried ρ first (Node.renumber ρ) p q (popInto site value) (popInto site value) :=
  (carries_pop h).bind fun origin _ _ h => carries_create h _ _ [origin]

end Tracer

/-! ### Work on the whole state -/

/-- What has an owner is no matter of the numbers, as `ρ` changes them. -/
def Host.Ignores {K : Kinds} (ρ : Nat → Nat) (host : Host K) : Prop :=
  ∀ nodes, host.survivors (nodes.map (Node.renumber ρ)) = host.survivors nodes

namespace Store

variable {K : Kinds} {ρ : Nat → Nat} {host : Host K} (ignores : host.Ignores ρ) (s : Store K)
  (inHand : List (Node K.Value))

include ignores

theorem survivors_renumber :
    (s.renumber ρ).survivors host (inHand.map (Node.renumber ρ)) = s.survivors host inHand := by
  rw [survivors_eq, survivors_eq, nodes_renumber, ← List.map_append, ignores]

theorem sweptAlike_frames : Table.SweptAlike (Record.renumber ρ) (s.sweepingFrames host inHand)
    ((s.renumber ρ).sweepingFrames host (inHand.map (Node.renumber ρ))) where
  census frames := survivors_renumber ignores { s with frames } inHand
  alive := rfl
  order := rfl

theorem sweptAlike_objects : Table.SweptAlike (Slots.renumber ρ) (s.sweepingObjects host inHand)
    ((s.renumber ρ).sweepingObjects host (inHand.map (Node.renumber ρ))) where
  census objects := survivors_renumber ignores { s with objects } inHand
  alive := rfl
  order := rfl

theorem sweptAlike_scopes : Table.SweptAlike (Slots.renumber ρ) (s.sweepingScopes host inHand)
    ((s.renumber ρ).sweepingScopes host (inHand.map (Node.renumber ρ))) where
  census scopes := survivors_renumber ignores { s with scopes } inHand
  alive := rfl
  order := rfl

theorem sweepFrames_renumber : (s.renumber ρ).sweepFrames host =
    ((s.sweepFrames host).1, (s.sweepFrames host).2.renumber ρ) := by
  have swept := Table.sweep_map s.frames (sweptAlike_frames ignores s [])
  exact congrArg (fun r => (r.1, { s.renumber ρ with frames := r.2 })) swept

theorem sweepObjects_renumber : (s.renumber ρ).sweepObjects host =
    ((s.sweepObjects host).1, (s.sweepObjects host).2.renumber ρ) := by
  have swept := Table.sweep_map s.objects (sweptAlike_objects ignores s [])
  exact congrArg (fun r => (r.1, { s.renumber ρ with objects := r.2 })) swept

theorem sweepScopes_renumber : (s.renumber ρ).sweepScopes host =
    ((s.sweepScopes host).1, (s.sweepScopes host).2.renumber ρ) := by
  have swept := Table.sweep_map s.scopes (sweptAlike_scopes ignores s [])
  exact congrArg (fun r => (r.1, { s.renumber ρ with scopes := r.2 })) swept

theorem sweep_renumber :
    (s.renumber ρ).sweep host = ((s.sweep host).1, (s.sweep host).2.renumber ρ) := by
  simp only [sweep, sweepFrames_renumber ignores, sweepObjects_renumber ignores,
    sweepScopes_renumber ignores]

end Store

namespace Shadow

variable {K : Kinds}

def renumber (ρ : Nat → Nat) (s : Shadow K) : Shadow K :=
  { s with store := s.store.renumber ρ, nextSeq := ρ s.nextSeq }

/-- The second state is the first, renumbered, with the same log if `logs` holds; the next node gets
    the number `first` or a later one. -/
structure Renumbered (ρ : Nat → Nat) (first : Nat) (logs : Prop) (s t : Shadow K) : Prop where
  store : t.store = s.store.renumber ρ
  next : t.nextSeq = ρ s.nextSeq
  log : logs → t.log = s.log
  counts : CountsOn ρ first s.nextSeq

end Shadow

/-- The current node of a slot after renumbering. -/
theorem Slots.current_renumber {V : Type} {ρ : Nat → Nat} (slots : Slots V) (name : String)
    {first n : Nat} (counts : CountsOn ρ first n) :
    (Slots.renumber ρ slots).current name (ρ n) =
      ((slots.current name n).1.renumber ρ, ρ (slots.current name n).2.1,
        Slots.renumber ρ (slots.current name n).2.2) ∧
      CountsOn ρ first (slots.current name n).2.1 := by
  have found : (Slots.renumber ρ slots).get? name = (slots.get? name).map (Node.renumber ρ) :=
    Dict.get?_map ..
  unfold current
  rw [found]
  cases slots.get? name with
  | some node => exact ⟨rfl, counts⟩
  | none =>
    have unknown : Node.unknown (ρ n) = (Node.unknown n : Node V).renumber ρ := by
      rw [Node.renumber_eq]
      rfl
    dsimp only [Option.map]
    rw [unknown, counts.succ.1]
    exact ⟨congrArg (fun slots => (_, _, slots)) (Dict.map_set ..).symm, counts.succ.2⟩

namespace SlotsM

variable {V : Type} {ρ : Nat → Nat} {first : Nat} {p q : Slots V × Nat}

theorem carries_current (h : PartOf ρ first (Slots.renumber ρ) p q) (name : String) :
    Carries (PartOf ρ first (Slots.renumber ρ)) (Node.renumber ρ) p q (current name)
      (current name) := by
  obtain ⟨slots, n⟩ := p
  obtain ⟨rfl, counts⟩ := h
  obtain ⟨same, later⟩ := slots.current_renumber name counts
  refine ⟨?_, ?_, later⟩
  · exact congrArg (fun ran : _ × _ × _ => Except.ok ran.1) same
  · exact congrArg (fun ran : _ × _ × _ => (ran.2.2, ran.2.1)) same

theorem carries_write (h : PartOf ρ first (Slots.renumber ρ) p q) (name : String) (node : Node V) :
    Carries (PartOf ρ first (Slots.renumber ρ)) id p q (write name node)
      (write name (node.renumber ρ)) := by
  obtain ⟨slots, n⟩ := p
  obtain ⟨rfl, counts⟩ := h
  exact ⟨rfl, Prod.ext (Dict.map_set ..).symm rfl, counts⟩

end SlotsM

namespace ShadowM

open Shadow

variable {K : Kinds} {α β : Type} {ρ : Nat → Nat} {first : Nat} {logs : Prop} {s t : Shadow K}
  {host : Host K}

/-- Work on the renumbered state does what it does on the state. -/
abbrev Carried (ρ : Nat → Nat) (first : Nat) (logs : Prop) (f : α → β) (s t : Shadow K)
    (work : ShadowM K α) (work' : ShadowM K β) : Prop :=
  Carries (Renumbered ρ first logs) f s t work work'

theorem carries_settle (h : Renumbered ρ first logs s t) (f : α → β) (outcome : Except Fault α) :
    Carried ρ first logs f s t (settle outcome) (settle (outcome.map f)) := by
  cases outcome with
  | ok a => exact carries_pure h rfl
  | error fault => exact carries_throw h fault

/-- What does not come from nodes is not renumbered. -/
theorem carries_settle_id (h : Renumbered ρ first logs s t) (outcome : Except Fault α) :
    Carried ρ first logs id s t (settle outcome) (settle outcome) := by
  have same : outcome.map id = outcome := by cases outcome <;> rfl
  have carried := carries_settle h id outcome
  rwa [same] at carried

theorem carries_note (h : Renumbered ρ first logs s t) (severity : Severity) (message : String)
    (fields : Fields) :
    Carried ρ first logs id s t (note severity message fields) (note severity message fields) := by
  refine ⟨rfl, h.store, h.next, fun logged => ?_, h.counts⟩
  exact congrArg (Log.add · severity message fields) (h.log logged)

theorem carries_create (h : Renumbered ρ first logs s t) (creator : Option Creator)
    (value : Option K.Value) (origins : List (Node K.Value)) :
    Carried ρ first logs (Node.renumber ρ) s t (create creator value origins)
      (create creator value (origins.map (Node.renumber ρ))) := by
  refine ⟨?_, h.store, ?_, h.log, h.counts.succ.2⟩
  · change Except.ok _ = Except.ok (Node.renumber ρ _)
    rw [Node.renumber_eq, h.next]
  · change t.nextSeq + 1 = ρ (s.nextSeq + 1)
    rw [h.next, h.counts.succ.1]

theorem carries_noteDropped (h : Renumbered ρ first logs s t) (dropped : Nat) :
    Carried ρ first logs id s t (noteDropped dropped) (noteDropped dropped) := by
  unfold noteDropped
  split
  · exact carries_note h _ _ _
  · exact carries_pure h rfl

theorem carries_openFrame (h : Renumbered ρ first logs s t) (ignores : host.Ignores ρ)
    (inHand : List (Node K.Value)) (frame : K.Frame) :
    Carried ρ first logs (Entry.map (Record.renumber ρ)) s t (openFrame host inHand frame)
      (openFrame host (inHand.map (Node.renumber ρ)) frame) := by
  unfold openFrame
  refine .get_bind ?_
  have alike := Store.sweptAlike_frames ignores s.store inHand
  rw [h.store, Store.frames_renumber]
  dsimp only
  rw [Table.findOrInsert_map s.store.frames frame alike Record.renumber_empty]
  exact (carries_set ⟨rfl, h.next, h.log, h.counts⟩).bind fun _ _ _ h =>
    (carries_noteDropped h _).bind fun _ _ _ h => carries_pure h rfl

theorem carries_attachFrame (h : Renumbered ρ first logs s t) (ignores : host.Ignores ρ)
    (frame : K.Frame) :
    Carried ρ first logs (Entry.map (Record.renumber ρ)) s t (attachFrame host frame)
      (attachFrame host frame) := by
  unfold attachFrame
  refine .get_bind ?_
  have alike := Store.sweptAlike_frames ignores s.store []
  rw [List.map_nil] at alike
  rw [h.store, Store.frames_renumber]
  dsimp only
  rw [Table.insert_map s.store.frames frame alike Record.renumber_empty]
  exact (carries_set ⟨rfl, h.next, h.log, h.counts⟩).bind fun _ _ _ h =>
    (carries_noteDropped h _).bind fun _ _ _ h => carries_pure h rfl

theorem carries_openObject (h : Renumbered ρ first logs s t) (ignores : host.Ignores ρ)
    (inHand : List (Node K.Value)) (object : K.Object) :
    Carried ρ first logs (Entry.map (Slots.renumber ρ)) s t (openObject host inHand object)
      (openObject host (inHand.map (Node.renumber ρ)) object) := by
  unfold openObject
  refine .get_bind ?_
  have alike := Store.sweptAlike_objects ignores s.store inHand
  rw [h.store, Store.objects_renumber]
  dsimp only
  rw [Table.findOrInsert_map s.store.objects object alike Slots.renumber_empty]
  exact (carries_set ⟨rfl, h.next, h.log, h.counts⟩).bind fun _ _ _ h =>
    (carries_noteDropped h _).bind fun _ _ _ h => carries_pure h rfl

theorem carries_openScope (h : Renumbered ρ first logs s t) (ignores : host.Ignores ρ)
    (inHand : List (Node K.Value)) (scope : K.Scope) :
    Carried ρ first logs (Entry.map (Slots.renumber ρ)) s t (openScope host inHand scope)
      (openScope host (inHand.map (Node.renumber ρ)) scope) := by
  unfold openScope
  refine .get_bind ?_
  have alike := Store.sweptAlike_scopes ignores s.store inHand
  rw [h.store, Store.scopes_renumber]
  dsimp only
  rw [Table.findOrInsert_map s.store.scopes scope alike Slots.renumber_empty]
  exact (carries_set ⟨rfl, h.next, h.log, h.counts⟩).bind fun _ _ _ h =>
    (carries_noteDropped h _).bind fun _ _ _ h => carries_pure h rfl

theorem carries_onEntry {E : Type} {f : α → β} {g : E → E} (h : Renumbered ρ first logs s t)
    (what : Guarded) (entry : Entry E) {save : E → Store K → Store K}
    (saves : ∀ content store, save (g content) (store.renumber ρ) = (save content store).renumber ρ)
    {work : ExceptT Fault (StateM (E × Nat)) α} {work' : ExceptT Fault (StateM (E × Nat)) β}
    (each : ∀ p q, PartOf ρ first g p q → Carries (PartOf ρ first g) f p q work work') :
    Carried ρ first logs f s t (onEntry what entry save work)
      (onEntry what (entry.map g) save work') := by
  cases sane : entry.poisoned with
  | true =>
    unfold onEntry
    rw [show (entry.map g).poisoned = true from sane, sane]
    exact carries_throw h _
  | false =>
    have sane' : (entry.map g).poisoned = false := sane
    unfold onEntry
    simp only [sane, sane', Bool.false_eq_true, if_false]
    refine .get_bind ?_
    obtain ⟨came, content, counts⟩ :=
      each (entry.content, s.nextSeq) (g entry.content, t.nextSeq) ⟨by rw [h.next], h.counts⟩
    change (work'.run.run ((entry.map g).content, t.nextSeq)).1 = _ at came
    change (work'.run.run ((entry.map g).content, t.nextSeq)).2 = _ at content
    generalize work.run.run (entry.content, s.nextSeq) = ran at came content counts ⊢
    generalize work'.run.run ((entry.map g).content, t.nextSeq) = ran' at came content ⊢
    obtain ⟨outcome, c, n⟩ := ran
    obtain ⟨outcome', rest⟩ := ran'
    obtain rfl : outcome' = outcome.map f := came
    obtain rfl : rest = (g c, ρ n) := content
    refine (carries_set ⟨?_, rfl, h.log, counts⟩).bind fun _ _ _ h => carries_settle h f outcome
    rw [h.store]
    exact saves c s.store

theorem carries_onFrame {f : α → β} (h : Renumbered ρ first logs s t) (frame : K.Frame)
    (entry : Entry (Record K.Value)) {work : RecordM K.Value α} {work' : RecordM K.Value β}
    (each : ∀ p q, PartOf ρ first (Record.renumber ρ) p q → RecordM.Carried ρ first f p q work work') :
    Carried ρ first logs f s t (onFrame frame entry work)
      (onFrame frame (entry.map (Record.renumber ρ)) work') := by
  refine carries_onEntry h _ entry (fun content store => ?_) each
  have frames := Table.modify_map (Record.renumber ρ) store.frames frame content
  exact congrArg (fun frames => { store.renumber ρ with frames }) frames

theorem carries_withRecord {f : α → β} (h : Renumbered ρ first logs s t) (ignores : host.Ignores ρ)
    (inHand : List (Node K.Value)) (frame : K.Frame) {work : RecordM K.Value α}
    {work' : RecordM K.Value β}
    (each : ∀ p q, PartOf ρ first (Record.renumber ρ) p q → RecordM.Carried ρ first f p q work work') :
    Carried ρ first logs f s t (withRecord host inHand frame work)
      (withRecord host (inHand.map (Node.renumber ρ)) frame work') :=
  (carries_openFrame h ignores inHand frame).bind fun entry _ _ h =>
    carries_onFrame h frame entry each

theorem carries_withObject {f : α → β} (h : Renumbered ρ first logs s t) (ignores : host.Ignores ρ)
    (inHand : List (Node K.Value)) (object : K.Object) {work : SlotsM K.Value α}
    {work' : SlotsM K.Value β}
    (each : ∀ p q, PartOf ρ first (Slots.renumber ρ) p q →
      Carries (PartOf ρ first (Slots.renumber ρ)) f p q work work') :
    Carried ρ first logs f s t (withObject host inHand object work)
      (withObject host (inHand.map (Node.renumber ρ)) object work') := by
  refine (carries_openObject h ignores inHand object).bind fun entry _ _ h =>
    carries_onEntry h _ entry (fun content store => ?_) each
  have objects := Table.modify_map (Slots.renumber ρ) store.objects object content
  exact congrArg (fun objects => { store.renumber ρ with objects }) objects

theorem carries_withScope {f : α → β} (h : Renumbered ρ first logs s t) (ignores : host.Ignores ρ)
    (inHand : List (Node K.Value)) (scope : K.Scope) {work : SlotsM K.Value α}
    {work' : SlotsM K.Value β}
    (each : ∀ p q, PartOf ρ first (Slots.renumber ρ) p q →
      Carries (PartOf ρ first (Slots.renumber ρ)) f p q work work') :
    Carried ρ first logs f s t (withScope host inHand scope work)
      (withScope host (inHand.map (Node.renumber ρ)) scope work') := by
  refine (carries_openScope h ignores inHand scope).bind fun entry _ _ h =>
    carries_onEntry h _ entry (fun content store => ?_) each
  have scopes := Table.modify_map (Slots.renumber ρ) store.scopes scope content
  exact congrArg (fun scopes => { store.renumber ρ with scopes }) scopes

theorem carries_currentGlobal (h : Renumbered ρ first logs s t) (name : String) :
    Carried ρ first logs (Node.renumber ρ) s t (currentGlobal name) (currentGlobal name) := by
  obtain ⟨same, later⟩ := Slots.current_renumber s.store.globals name h.counts
  unfold currentGlobal
  refine .get_bind ?_
  rw [h.next, h.store, Store.globals_renumber, same]
  generalize Slots.current s.store.globals name s.nextSeq = found at later ⊢
  exact (carries_set ⟨rfl, rfl, h.log, later⟩).bind fun _ _ _ h => carries_pure h rfl

theorem carries_writeGlobal (h : Renumbered ρ first logs s t) (name : String) (node : Node K.Value) :
    Carried ρ first logs id s t (writeGlobal name node) (writeGlobal name (node.renumber ρ)) := by
  refine ⟨rfl, ?_, h.next, h.log, h.counts⟩
  change { t.store with globals := t.store.globals.set name (node.renumber ρ) } = _
  rw [h.store]
  exact congrArg (fun globals => { s.store.renumber ρ with globals }) (Dict.map_set ..).symm

end ShadowM

/-! ### The rules -/

namespace Tracer

open Shadow ShadowM

variable {K : Kinds} {ρ : Nat → Nat} {first : Nat} {logs : Prop} {s t : Shadow K} {host : Host K}
  {site : Site K} {frame : K.Frame} {value : K.Value}

theorem carries_pushOn (h : Renumbered ρ first logs s t) (ignores : host.Ignores ρ)
    (node : Node K.Value) :
    Carried ρ first logs id s t (pushOn host frame node) (pushOn host frame (node.renumber ρ)) :=
  carries_withRecord h ignores [node] frame fun _ _ h => RecordM.carries_push h node

theorem carries_pushNode (h : Renumbered ρ first logs s t) (ignores : host.Ignores ρ)
    (origins : List (Node K.Value)) :
    Carried ρ first logs id s t (do pushOn host frame (← nodeOf site value origins))
      (do pushOn host frame (← nodeOf site value (origins.map (Node.renumber ρ)))) :=
  (carries_create h _ _ origins).bind fun node _ _ h => carries_pushOn h ignores node

/-- The outline that is logged shows no number. -/
theorem carries_noteWritten (h : Renumbered ρ first logs s t) (apart : Function.Injective ρ)
    {tracer tracer' : Tracer} (same : logs → tracer' = tracer) (node : Node K.Value) :
    Carried ρ first logs id s t (noteWritten tracer site node)
      (noteWritten tracer' site (node.renumber ρ)) := by
  unfold noteWritten
  rw [Node.outline_renumber apart]
  by_cases logged : logs
  · obtain rfl := same logged
    split
    · exact carries_note h _ _ _
    · exact carries_pure h rfl
  · have unlogged : ∀ {log log' : Log}, logs → log' = log := fun there => absurd there logged
    split <;> split <;> exact ⟨rfl, h.store, h.next, unlogged, h.counts⟩

theorem find?_renumber (h : Renumbered ρ first logs s t) (frame : K.Frame) :
    t.store.frames.find? frame = (s.store.frames.find? frame).map (Entry.map (Record.renumber ρ)) := by
  rw [h.store]
  exact Table.find?_map ..

/-- A record gives up its operand if that is the only one. -/
theorem carries_giveUp {p q : Record K.Value × Nat} (h : PartOf ρ first (Record.renumber ρ) p q) :
    RecordM.Carried ρ first (Option.map (Node.renumber ρ)) p q
      (do
        let (record, _) ← get
        if record.depth = 1 then some <$> RecordM.take Record.pop else pure none :
          RecordM K.Value (Option (Node K.Value)))
      (do
        let (record, _) ← get
        if record.depth = 1 then some <$> RecordM.take Record.pop else pure none :
          RecordM K.Value (Option (Node K.Value))) := by
  refine .get_bind ?_
  obtain rfl := h.1
  dsimp only
  rw [Record.depth_renumber]
  split
  · exact (RecordM.carries_pop h).map some some fun _ => rfl
  · exact carries_pure h rfl

theorem carries_handBack (h : Renumbered ρ first logs s t) :
    Carried ρ first logs id s t (handBack host site frame) (handBack host site frame) := by
  unfold handBack
  cases host.callerOf frame with
  | none => exact carries_pure h rfl
  | some caller =>
    refine .get_bind ?_
    dsimp only
    rw [find?_renumber h, find?_renumber h, Option.isNone_map]
    split
    · exact (carries_note h _ _ _).bind fun _ _ _ h => carries_pure h rfl
    · cases s.store.frames.find? frame with
      | none => exact carries_pure h rfl
      | some callee =>
        refine (carries_onFrame h frame callee fun _ _ h => carries_giveUp h).bind
          fun result s' t' h => ?_
        cases result with
        | none =>
          have depth : (callee.map (Record.renumber ρ)).content.depth = callee.content.depth :=
            callee.content.depth_renumber ρ
          dsimp only [Option.map]
          rw [depth]
          exact carries_note h _ _ _
        | some node =>
          refine .get_bind ?_
          rw [find?_renumber h]
          cases s'.store.frames.find? caller with
          | none => exact carries_pure h rfl
          | some entry =>
            exact carries_onFrame h caller entry fun _ _ h => RecordM.carries_push h node

theorem carries_argumentOrigin (h : Renumbered ρ first logs s t) (index count : Nat) :
    Carried ρ first logs (Node.renumber ρ) s t (argumentOrigin host site frame index count)
      (argumentOrigin host site frame index count) := by
  unfold argumentOrigin
  refine .get_bind ?_
  cases host.callerOf frame with
  | none =>
    exact (carries_note h _ _ _).bind fun _ _ _ h => carries_create h none none []
  | some caller =>
    dsimp only [Option.bind]
    rw [find?_renumber h]
    cases s.store.frames.find? caller with
    | none =>
      exact (carries_note h _ _ _).bind fun _ _ _ h => carries_create h none none []
    | some entry =>
      refine carries_onFrame h caller entry fun p q h => .get_bind ?_
      obtain ⟨r, n⟩ := p
      obtain ⟨rfl, counts⟩ := h
      have operand : (r.renumber ρ).stack[count - (index + 1)]? =
          r.stack[count - (index + 1)]?.map (Node.renumber ρ) := List.getElem?_map
      dsimp only [Record.peekAt]
      rw [operand, Record.depth_renumber]
      cases r.stack[count - (index + 1)]? with
      | none => exact carries_throw ⟨rfl, counts⟩ _
      | some node => exact carries_pure ⟨rfl, counts⟩ rfl

theorem carries_bindArgument (h : Renumbered ρ first logs s t) (ignores : host.Ignores ρ) :
    Carried ρ first logs id s t (bindArgument host site frame value)
      (bindArgument host site frame value) := by
  have rest : ∀ {s t : Shadow K}, Renumbered ρ first logs s t → ∀ slot : ArgumentSlot, ∀ count,
      Carried ρ first logs id s t
        (do
          let origin ← argumentOrigin host site frame slot.index count
          pushOn host frame (← nodeOf site value [origin]))
        (do
          let origin ← argumentOrigin host site frame slot.index count
          pushOn host frame (← nodeOf site value [origin])) := fun h _ _ =>
    (carries_argumentOrigin h _ _).bind fun origin _ _ h => carries_pushNode h ignores [origin]
  unfold bindArgument
  refine (carries_settle_id h _).bind fun slot _ _ h => ?_
  dsimp only [id]
  cases slot.count with
  | declared count => exact rest h slot count
  | fromFrame =>
    dsimp only
    split
    · exact (carries_note h _ _ _).bind fun _ _ _ h => rest h slot _
    · exact rest h slot _

theorem objectBehind_renumber (node : Node K.Value) :
    objectBehind host (node.renumber ρ) = objectBehind host node := by
  rw [objectBehind, objectBehind, Node.value_renumber]

theorem carries_assignProperty (h : Renumbered ρ first logs s t) (ignores : host.Ignores ρ) :
    Carried ρ first logs id s t (assignProperty host site frame value)
      (assignProperty host site frame value) := by
  unfold assignProperty
  refine (carries_settle_id h _).bind fun property _ _ h => ?_
  refine (carries_withRecord (f := Prod.map (Node.renumber ρ) (Node.renumber ρ)) h ignores [] frame
    fun _ _ h => (carries_takeReceiver h site _).bind fun taken _ _ h => ?_).bind
      fun written _ _ h => ?_
  · obtain ⟨receiver, others⟩ := taken
    exact (RecordM.carries_create h _ _ (receiver :: others)).bind fun _ _ _ h => carries_pure h rfl
  obtain ⟨receiver, node⟩ := written
  dsimp only [Prod.map]
  rw [objectBehind_renumber]
  cases objectBehind host receiver with
  | some object =>
    exact (carries_withObject h ignores [node] object fun _ _ h =>
      SlotsM.carries_write h property node).bind fun _ _ _ h => carries_pushOn h ignores node
  | none =>
    exact (carries_note h _ _ _).bind fun _ _ _ h => carries_pushOn h ignores node

theorem carries_fetchProperty (h : Renumbered ρ first logs s t) (ignores : host.Ignores ρ) :
    Carried ρ first logs id s t (fetchProperty host site frame value)
      (fetchProperty host site frame value) := by
  unfold fetchProperty
  refine (carries_settle_id h _).bind fun property _ _ h => ?_
  refine (carries_withRecord h ignores [] frame fun _ _ h => carries_takeReceiver h site _).bind
    fun taken _ _ h => ?_
  obtain ⟨receiver, others⟩ := taken
  have push : ∀ {s t : Shadow K}, Renumbered ρ first logs s t → ∀ slot : Node K.Value,
      Carried ρ first logs id s t
      (do pushOn host frame (← nodeOf site value (receiver :: others ++ [slot])))
      (do pushOn host frame (← nodeOf site value
        (receiver.renumber ρ :: others.map (Node.renumber ρ) ++ [slot.renumber ρ]))) := by
    intro s t h slot
    have pushed : Carried ρ first logs id s t
        (do pushOn host frame (← nodeOf site value (receiver :: others ++ [slot]))) _ :=
      carries_pushNode h ignores _
    rwa [List.map_append] at pushed
  dsimp only [renumberReceiver]
  rw [objectBehind_renumber]
  cases objectBehind host receiver with
  | some object =>
    exact (carries_withObject h ignores (receiver :: others) object fun _ _ h =>
      SlotsM.carries_current h property).bind fun slot _ _ h => push h slot
  | none =>
    exact (carries_note h _ _ _).bind fun _ _ _ h =>
      (carries_create h none none []).bind fun slot _ _ h => push h slot

theorem carries_operands (h : Renumbered ρ first logs s t) (ignores : host.Ignores ρ) :
    Carried ρ first logs id s t
      (ShadowM.withRecord host [] frame do
        let operands ← takeOperands site
        let node ← RecordM.create (creatorOf site) (some value) operands
        RecordM.change (·.push node))
      (ShadowM.withRecord host [] frame do
        let operands ← takeOperands site
        let node ← RecordM.create (creatorOf site) (some value) operands
        RecordM.change (·.push node)) :=
  carries_withRecord h ignores [] frame fun _ _ h =>
    (carries_takeOperands h site).bind fun operands _ _ h =>
      (RecordM.carries_create h _ _ operands).bind fun node _ _ h => RecordM.carries_push h node

theorem carries_popped (h : Renumbered ρ first logs s t) (ignores : host.Ignores ρ) :
    Carried ρ first logs (Node.renumber ρ) s t (ShadowM.withRecord host [] frame (popInto site value))
      (ShadowM.withRecord host [] frame (popInto site value)) :=
  carries_withRecord h ignores [] frame fun _ _ h => carries_popInto h site value

theorem carries_applyLeave (h : Renumbered ρ first logs s t) (ignores : host.Ignores ρ)
    (apart : Function.Injective ρ) {tracer tracer' : Tracer} (same : logs → tracer' = tracer)
    (category : Category) :
    Carried ρ first logs id s t (applyLeave tracer host site frame value category)
      (applyLeave tracer' host site frame value category) := by
  cases category with
  | functionBoundary => exact carries_handBack h
  | noUseDefStack => exact carries_pushNode h ignores []
  | useStackDefStack => exact carries_operands h ignores
  | useLocalDefStack =>
    exact (carries_settle_id h _).bind fun name _ _ h =>
      carries_withRecord h ignores [] frame fun _ _ h =>
        (RecordM.carries_current h name).bind fun origin _ _ h =>
          (RecordM.carries_create h _ _ [origin]).bind fun node _ _ h => RecordM.carries_push h node
  | useStackDefLocalStack =>
    refine (carries_settle_id h _).bind fun name _ _ h => ?_
    refine (carries_withRecord h ignores [] frame fun _ _ h => ?_).bind fun node _ _ h =>
      carries_noteWritten h apart same node
    refine (carries_popInto h site value).bind fun node _ _ h => ?_
    refine (RecordM.carries_change h fun r => ?_).bind fun _ _ _ h => carries_pure h rfl
    exact congrArg (Record.push · (node.renumber ρ)) (r.renumber_write ρ name node).symm
  | useArgDefStack => exact carries_bindArgument h ignores
  | useStackDefPropertyStack => exact carries_assignProperty h ignores
  | usePropertyStackDefStack => exact carries_fetchProperty h ignores
  | useStackDefReturn => exact carries_pure h rfl
  | useClassVarDefStack =>
    exact (carries_settle_id h _).bind fun owned _ _ h =>
      (carries_withScope h ignores [] owned.scope fun _ _ h =>
        SlotsM.carries_current h owned.name).bind fun origin _ _ h =>
          carries_pushNode h ignores [origin]
  | useStackDefClassVar =>
    exact (carries_settle_id h _).bind fun owned _ _ h =>
      (carries_popped h ignores).bind fun node _ _ h =>
        (carries_withScope h ignores [node] owned.scope fun _ _ h =>
          SlotsM.carries_write h owned.name node).bind fun _ _ _ h =>
            (carries_noteWritten h apart same node).bind fun _ _ _ h =>
              carries_pushOn h ignores node
  | useGlobalDefStack =>
    exact (carries_settle_id h _).bind fun name _ _ h =>
      (carries_currentGlobal h name).bind fun origin _ _ h => carries_pushNode h ignores [origin]
  | useStackDefGlobal =>
    exact (carries_settle_id h _).bind fun name _ _ h =>
      (carries_popped h ignores).bind fun node _ _ h =>
        (carries_writeGlobal h name node).bind fun _ _ _ h => carries_pushOn h ignores node
  | callNode => exact carries_note h _ _ _

theorem carries_applyEnter (h : Renumbered ρ first logs s t) (ignores : host.Ignores ρ)
    (category : Category) :
    Carried ρ first logs id s t (applyEnter host site frame category)
      (applyEnter host site frame category) := by
  unfold applyEnter
  split
  · exact (carries_attachFrame h ignores frame).map (fun _ => ()) (fun _ => ()) fun _ => rfl
  · split
    · refine carries_withRecord h ignores [] frame fun _ _ h => RecordM.carries_change h fun r => ?_
      rw [Record.mark, Record.depth_renumber]
      rfl
    · exact carries_pure h rfl

theorem carries_applyUnwind (h : Renumbered ρ first logs s t) (ignores : host.Ignores ρ)
    (exception : String) (category : Category) :
    Carried ρ first logs id s t (applyUnwind host site frame exception category)
      (applyUnwind host site frame exception category) := by
  unfold applyUnwind
  split
  · exact carries_note h _ _ _
  · split
    · refine carries_withRecord h ignores [] frame fun _ _ h =>
        (RecordM.carries_pop h).bind fun origin _ _ h => ?_
      rw [Node.value_renumber]
      exact (RecordM.carries_create h _ _ [origin]).bind fun node _ _ h =>
        RecordM.carries_change h fun _ => rfl
    · split
      · refine .get_bind ?_
        rw [find?_renumber h]
        cases s.store.frames.find? frame with
        | none => exact carries_pure h rfl
        | some entry =>
          exact carries_onFrame h frame entry fun _ _ h => RecordM.carries_change h fun _ => rfl
      · exact carries_pure h rfl

/-- Told of a checkpoint in a renumbered state, a tracer answers as it does in the state itself, and
    leaves the state that it leaves there, renumbered. If logs are not compared, that is so of any two
    tracers, whatever each of them logs. -/
theorem carries_react (h : Renumbered ρ first logs s t) (ignores : host.Ignores ρ)
    (apart : Function.Injective ρ) {tracer tracer' : Tracer} (same : logs → tracer' = tracer)
    (c : Checkpoint K) :
    Carried ρ first logs id s t (tracer.react host c) (tracer'.react host c) := by
  have rules : ∀ {rule rule' : Category → ShadowM K Unit},
      (∀ category s t, Renumbered ρ first logs s t →
        Carried ρ first logs id s t (rule category) (rule' category)) →
      ∀ {s t : Shadow K}, Renumbered ρ first logs s t →
      Carried ρ first logs id s t (applyRules c.site rule) (applyRules c.site rule') :=
    fun each _ _ h => Carries.forM _ (fun category s t h => (each category s t h).adapt _) h
  unfold react
  cases c.moment with
  | enter =>
    exact (carries_note h _ _ _).bind fun _ _ _ h =>
      rules (fun category _ _ h => carries_applyEnter h ignores category) h
  | leave value =>
    exact (carries_note h _ _ _).bind fun _ _ _ h =>
      rules (fun category _ _ h => carries_applyLeave h ignores apart same category) h
  | unwind exception =>
    exact (carries_note h _ _ _).bind fun _ _ _ h =>
      rules (fun category _ _ h => carries_applyUnwind h ignores exception category) h

end Tracer

end Lineage
