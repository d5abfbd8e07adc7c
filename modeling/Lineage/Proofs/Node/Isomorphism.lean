import Mathlib.Data.List.Forall2
import Mathlib.Data.Set.Function
import Lineage.Proofs.Slice

/-!
# Graphs that are the same but for the numbers

Two graphs of nodes, each given by its roots, are isomorphic if their nodes correspond one to one, roots
to roots, and the origins of a node, in their order and as often as they stand there, to the origins of
the other. It is enough to pair nodes in a way that no node has two partners and to see that partners
have paired origins.
-/

namespace Lineage.Node

variable {V W : Type}

/-- `f` takes the nodes reached from `as` one to one to those reached from `bs`, position by position
    in the lists of roots and of origins. -/
structure Isomorphism (f : Node V → Node W) (as : List (Node V)) (bs : List (Node W)) : Prop where
  bijective : Set.BijOn f {a | Reached as a} {b | Reached bs b}
  roots : as.map f = bs
  origins : ∀ a, Reached as a → (f a).origins = a.origins.map f

namespace Isomorphism

variable {f : Node V → Node W} {as : List (Node V)} {bs : List (Node W)}

/-- All of the second graph is met by following the first. -/
theorem of_injOn (injective : Set.InjOn f {a | Reached as a}) (roots : as.map f = bs)
    (origins : ∀ a, Reached as a → (f a).origins = a.origins.map f) : Isomorphism f as bs where
  bijective := by
    refine ⟨fun a reached => ?_, injective, fun b reached => ?_⟩
    · induction (show Reached as a from reached) with
      | root mem => exact .root (roots ▸ List.mem_map_of_mem mem)
      | @origin node origin below used ih =>
        refine .origin (ih below) ?_
        rw [origins node below]
        exact List.mem_map_of_mem used
    · induction (show Reached bs b from reached) with
      | root mem =>
        rw [← roots] at mem
        obtain ⟨a, root, rfl⟩ := List.mem_map.mp mem
        exact ⟨a, .root root, rfl⟩
      | @origin node origin below used ih =>
        obtain ⟨a, from', rfl⟩ := ih below
        rw [origins a from'] at used
        obtain ⟨o, there, rfl⟩ := List.mem_map.mp used
        exact ⟨o, .origin from' there, rfl⟩
  roots := roots
  origins := origins

end Isomorphism

open Classical in
/-- The partner of a node in a pairing, if it has one. -/
noncomputable def partner (R : Node V → Node W → Prop) (a : Node V) : Node W :=
  if h : ∃ b, R a b then h.choose else unknown 0

section

variable {R : Node V → Node W → Prop}

theorem partner_eq (single : Relator.RightUnique R) {a : Node V} {b : Node W} (paired : R a b) :
    partner R a = b := by
  have some : ∃ b, R a b := ⟨b, paired⟩
  rw [partner, dif_pos some]
  exact single some.choose_spec paired

theorem map_partner_eq (single : Relator.RightUnique R) {as : List (Node V)} {bs : List (Node W)}
    (paired : List.Forall₂ R as bs) : as.map (partner R) = bs := by
  induction paired with
  | nil => rfl
  | cons first _ ih => rw [List.map_cons, ih, partner_eq single first]

/-- Graphs whose nodes are paired one to one, partners having paired origins, are isomorphic. -/
theorem isomorphism_partner (unique : Relator.BiUnique R) {as : List (Node V)} {bs : List (Node W)}
    (roots : List.Forall₂ R as bs) (origins : ∀ a b, R a b → List.Forall₂ R a.origins b.origins) :
    Isomorphism (partner R) as bs ∧ ∀ a, Reached as a → R a (partner R a) := by
  have each : ∀ {nodes : List (Node V)} {others : List (Node W)}, List.Forall₂ R nodes others →
      ∀ a ∈ nodes, R a (partner R a) := by
    intro nodes others paired
    rw [← map_partner_eq unique.2 paired, List.forall₂_map_right_iff] at paired
    exact List.forall₂_same.mp paired
  have reached : ∀ a, Reached as a → R a (partner R a) := by
    intro a reached
    induction reached with
    | root mem => exact each roots _ mem
    | origin _ used ih => exact each (origins _ _ ih) _ used
  refine ⟨.of_injOn ?_ (map_partner_eq unique.2 roots) ?_, reached⟩
  · intro a from' b from'' same
    have first := reached a from'
    rw [same] at first
    exact unique.1 first (reached b from'')
  · intro a from'
    exact (map_partner_eq unique.2 (origins a _ (reached a from'))).symm

end

end Lineage.Node
