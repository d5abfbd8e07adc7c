import Lineage.Proofs.Reaching
import Lineage.Proofs.Slice

/-!
# What is held meanwhile

While the tracer is at work nodes are taken off a stack, held in hand, put elsewhere or given up, and
new ones are made from them; with the nodes an entity may lose its last owner. `Holdings` are the nodes
that are held at one moment. `Leads` says which holdings may come later: nodes of before and new ones
made from these. An entity that has an owner whatever is held between two moments is live throughout;
one that `Loses` its owner may be swept.
-/

namespace Lineage

/-- The nodes that are held, and the number of the next one. -/
structure Holdings (V : Type) where
  nodes : List (Node V)
  next : Nat

namespace Holdings

variable {V : Type}

/-- The node is reached from those held, or has been made later from such nodes. -/
inductive Gives (h : Holdings V) : Node V → Prop
  | old {a : Node V} (reached : Node.Reached h.nodes a) : Gives h a
  | new {a : Node V} (later : h.next ≤ a.seq) (origins : ∀ o ∈ a.origins, Gives h o) : Gives h a

/-- The second holdings may come after the first. -/
structure Leads (h k : Holdings V) : Prop where
  next : h.next ≤ k.next
  nodes : ∀ a ∈ k.nodes, h.Gives a

variable {h k l : Holdings V} {a : Node V}

theorem Gives.of_mem (mem : a ∈ h.nodes) : h.Gives a := .old (.root mem)

theorem Gives.origin (gives : h.Gives a) {o : Node V} (used : o ∈ a.origins) : h.Gives o := by
  cases gives with
  | old reached => exact .old (.origin reached used)
  | new _ origins => exact origins o used

theorem Gives.trans (leads : h.Leads k) (gives : k.Gives a) : h.Gives a := by
  induction gives with
  | old reached =>
    induction reached with
    | root mem => exact leads.nodes _ mem
    | origin _ used ih => exact ih.origin used
  | new later _ ih => exact .new (Nat.le_trans leads.next later) ih

namespace Leads

theorem refl (h : Holdings V) : h.Leads h := ⟨Nat.le_refl _, fun _ => .of_mem⟩

theorem trans (first : h.Leads k) (second : k.Leads l) : h.Leads l :=
  ⟨Nat.le_trans first.next second.next, fun a mem => (second.nodes a mem).trans first⟩

theorem of_subset {nodes more : List (Node V)} {n : Nat} (sub : nodes ⊆ more) :
    Leads ⟨more, n⟩ ⟨nodes, n⟩ := ⟨Nat.le_refl _, fun _ mem => .of_mem (sub mem)⟩

end Leads

end Holdings

variable {K : Kinds}

/-- The entity has an owner as long as just these nodes are kept. -/
def Host.Owns (host : Host K) (nodes : List (Node K.Value)) : Handle K → Prop
  | .frame frame => (host.survivors nodes).frame frame = true
  | .object object => (host.survivors nodes).object object = true
  | .scope scope => (host.survivors nodes).scope scope = true

/-- From the first holdings to the second the entity may be without an owner at one moment. -/
def Host.Loses (host : Host K) (h k : Holdings K.Value) (handle : Handle K) : Prop :=
  ∃ between, h.Leads between ∧ between.Leads k ∧ ¬ host.Owns between.nodes handle

theorem Host.Loses.mono {host : Host K} {h h' k k' : Holdings K.Value} {handle : Handle K}
    (loses : host.Loses h k handle) (first : h'.Leads h) (last : k.Leads k') :
    host.Loses h' k' handle := by
  obtain ⟨between, before, after, without⟩ := loses
  exact ⟨between, first.trans before, after.trans last, without⟩

/-- The nodes that are held in the store and in hand. -/
def Shadow.holdings (s : Shadow K) (inHand : List (Node K.Value)) : Holdings K.Value :=
  ⟨inHand ++ s.store.nodes, s.nextSeq⟩

end Lineage
