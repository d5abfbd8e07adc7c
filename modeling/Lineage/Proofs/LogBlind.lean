import Lineage.Proofs.Renumbering

/-!
# What the log does not change

No rule of the tracer looks at the log, and none does anything else for what it logs. So tracers that
log different things, told of the same checkpoint in states that differ in their log at most, answer
the same and leave states that differ in their log at most: `Tracer.twin_react`.
-/

namespace Lineage

section Twins

variable {ε σ α β : Type}

/-- Run from `s` and from `t`, the two pieces of work come to the same outcome and to states that `R`
    relates. -/
def Twin (R : σ → σ → Prop) (s t : σ) (work work' : ExceptT ε (StateM σ) α) : Prop :=
  (work.run.run s).1 = (work'.run.run t).1 ∧ R (work.run.run s).2 (work'.run.run t).2

variable {R : σ → σ → Prop} {s t : σ}

theorem twin_iff_carries {work work' : ExceptT ε (StateM σ) α} :
    Twin R s t work work' ↔ Carries R id s t work work' := by
  have same : ∀ outcome : Except ε α, outcome.map id = outcome := by rintro (_ | _) <;> rfl
  unfold Twin Carries
  rw [same, eq_comm]

theorem twin_pure (h : R s t) (a : α) :
    Twin R s t (pure a : ExceptT ε (StateM σ) α) (pure a) := ⟨rfl, h⟩

theorem Twin.adapt {ε' : Type} {work work' : ExceptT ε (StateM σ) α} (h : Twin R s t work work')
    (f : ε → ε') : Twin R s t (ExceptT.adapt f work) (ExceptT.adapt f work') :=
  ⟨congrArg (Except.mapError f) h.1, h.2⟩

theorem Twin.forM {works works' : β → ExceptT ε (StateM σ) PUnit} (list : List β)
    (each : ∀ b s t, R s t → Twin R s t (works b) (works' b)) (h : R s t) :
    Twin R s t (list.forM works) (list.forM works') :=
  twin_iff_carries.mpr <|
    Carries.forM list (fun b s t related => twin_iff_carries.mp (each b s t related)) h

end Twins

open Shadow

variable {K : Kinds} {α : Type} {s t : Shadow K} {host : Host K}

/-- The outcome and the state after two pieces of work do not depend on the log. -/
abbrev LogBlind (s t : Shadow K) (work work' : ShadowM K α) : Prop := Twin SameState s t work work'

/-- States that differ in their log at most have the same numbers. -/
theorem Shadow.SameState.renumbered (same : SameState s t) :
    Renumbered id s.nextSeq False s t where
  store := same.1.trans s.store.renumber_id.symm
  next := same.2
  log := False.elim
  counts := ⟨Nat.le_refl _, fun _ => rfl⟩

/-- Told of a checkpoint in states that differ in their log at most, two tracers answer the same and
    leave such states. -/
theorem Tracer.twin_react (tracer tracer' : Tracer) (c : Checkpoint K) (same : SameState s t) :
    LogBlind s t (tracer.react host c) (tracer'.react host c) := by
  have ignores : host.Ignores id := fun nodes => by
    rw [List.map_congr_left fun node _ => node.renumber_id, List.map_id']
  obtain ⟨answer, after⟩ := twin_iff_carries.mpr
    (carries_react same.renumbered ignores Function.injective_id
      (False.elim : False → tracer' = tracer) c)
  exact ⟨answer, after.store.trans (Store.renumber_id _), after.next⟩

end Lineage
