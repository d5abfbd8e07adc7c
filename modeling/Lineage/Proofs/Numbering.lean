import Mathlib.Data.List.Sort
import Lineage.Node.Outline
import Lineage.Proofs.Contents
import Lineage.Proofs.Record
import Lineage.Proofs.Slice

/-!
# Other numbers

The number of a node tells it from other nodes and says which of two nodes is older. `renumber` gives
every node another number and leaves all else as it is. An outline shows nodes by their order of
appearance, so it is the same after any renumbering that keeps nodes apart; a slice is renumbered with
its roots if the renumbering keeps the order.
-/

namespace Lineage

namespace Node

variable {V : Type}

mutual

/-- The node, every number `k` in it replaced by `ρ k`. -/
def renumber (ρ : Nat → Nat) : Node V → Node V
  | ⟨seq, creator, value, origins⟩ => ⟨ρ seq, creator, value, renumberAll ρ origins⟩

def renumberAll (ρ : Nat → Nat) : List (Node V) → List (Node V)
  | [] => []
  | node :: rest => node.renumber ρ :: renumberAll ρ rest

end

section

variable (ρ : Nat → Nat)

theorem renumberAll_eq (nodes : List (Node V)) : renumberAll ρ nodes = nodes.map (renumber ρ) := by
  induction nodes with
  | nil => rfl
  | cons node rest ih => rw [renumberAll, ih, List.map_cons]

theorem renumber_eq (node : Node V) : node.renumber ρ =
    ⟨ρ node.seq, node.creator, node.value, node.origins.map (renumber ρ)⟩ := by
  cases node
  rw [renumber, renumberAll_eq]

@[simp]
theorem seq_renumber (node : Node V) : (node.renumber ρ).seq = ρ node.seq := by rw [renumber_eq]

@[simp]
theorem value_renumber (node : Node V) : (node.renumber ρ).value = node.value := by
  rw [renumber_eq]

@[simp]
theorem origins_renumber (node : Node V) :
    (node.renumber ρ).origins = node.origins.map (renumber ρ) := by rw [renumber_eq]

theorem header_renumber (inspect : V → String) (node : Node V) :
    (node.renumber ρ).header inspect = node.header inspect := by
  rw [renumber_eq]
  rfl

end

/-- Only the numbers of the nodes that are reached matter. -/
theorem renumber_congr {ρ σ : Nat → Nat} (node : Node V)
    (agree : ∀ a, Reached [node] a → ρ a.seq = σ a.seq) : node.renumber ρ = node.renumber σ := by
  rw [renumber_eq, renumber_eq, agree node (.root List.mem_cons_self)]
  have origins : ∀ origin ∈ node.origins, origin.renumber ρ = origin.renumber σ :=
    fun origin mem => renumber_congr origin fun a reached => agree a <| reached.mono fun b there => by
      rw [List.mem_singleton.mp there]
      exact .origin (.root List.mem_cons_self) mem
  rw [List.map_congr_left origins]
termination_by sizeOf node
decreasing_by exact sizeOf_origin_lt mem

theorem renumber_id (node : Node V) : node.renumber id = node := by
  rw [renumber_eq]
  have origins : ∀ origin ∈ node.origins, origin.renumber id = origin :=
    fun origin mem => renumber_id origin
  rw [List.map_congr_left origins, List.map_id']
  cases node
  rfl
termination_by sizeOf node
decreasing_by exact sizeOf_origin_lt mem

/-! ### Outlines -/

theorem ordinal?_congr {α : Type} {number number' : α → Nat} {seen : List α} {x : α}
    (agree : ∀ s ∈ seen, number' s = number' x ↔ number s = number x) :
    ordinal? (seen.map number') (number' x) = ordinal? (seen.map number) (number x) := by
  induction seen with
  | nil => rfl
  | cons s older ih =>
    rw [List.forall_mem_cons] at agree
    rw [List.map_cons, List.map_cons, ordinal?, ordinal?, ih agree.2, List.length_map, List.length_map]
    by_cases same : number s = number x
    · rw [if_pos same, if_pos (agree.1.mpr same)]
    · rw [if_neg same, if_neg fun same' => same (agree.1.mp same')]

theorem ordinal?_map {ρ : Nat → Nat} (apart : Function.Injective ρ) (seen : List Nat) (k : Nat) :
    ordinal? (seen.map ρ) (ρ k) = ordinal? seen k := by
  have same : ordinal? (seen.map ρ) (ρ k) = ordinal? (seen.map id) (id k) :=
    ordinal?_congr fun _ _ => apart.eq_iff
  rwa [List.map_id] at same

/-- The lines that begin with a node met for the first time. -/
theorem outlineLines_of_new {ρ : Nat → Nat} (apart : Function.Injective ρ) (inspect : V → String)
    (limit : Option Nat) {seen : List Nat} {node : Node V} (new : ordinal? seen node.seq = none)
    (depth : Nat) (rest : List (Node V × Nat)) :
    outlineLines inspect limit (seen.map ρ) ((node.renumber ρ, depth) :: rest) =
      .full depth (seen.length + 1) (node.header inspect) ::
        if node.origins.isEmpty then outlineLines inspect limit ((node.seq :: seen).map ρ) rest
        else if limit.any (· ≤ depth) then .elided depth node.origins.length ::
          outlineLines inspect limit ((node.seq :: seen).map ρ) rest
        else outlineLines inspect limit ((node.seq :: seen).map ρ)
          ((node.origins.map (renumber ρ)).map (·, depth + 1) ++ rest) := by
  rw [outlineLines, seq_renumber, ordinal?_map apart, new, header_renumber, origins_renumber,
    List.length_map]
  dsimp only
  rw [List.isEmpty_map, List.length_map, List.map_cons]
  split
  · rfl
  · split <;> rfl

theorem outlineLines_renumber {ρ : Nat → Nat} (apart : Function.Injective ρ) (inspect : V → String)
    (limit : Option Nat) (seen : List Nat) (work : List (Node V × Nat)) :
    outlineLines inspect limit (seen.map ρ) (work.map (Prod.map (renumber ρ) id)) =
      outlineLines inspect limit seen work := by
  fun_induction outlineLines inspect limit seen work with
  | case1 => rw [List.map_nil, outlineLines]
  | case2 seen node depth rest ordinal known ih =>
    rw [List.map_cons, Prod.map, outlineLines, seq_renumber, ordinal?_map apart, known]
    exact congrArg _ ih
  | case3 seen node depth rest new line more leaf ih =>
    rw [List.map_cons, Prod.map, outlineLines_of_new apart inspect limit new, if_pos leaf]
    exact congrArg _ ih
  | case4 seen node depth rest new line more inner cut ih =>
    rw [List.map_cons, Prod.map, outlineLines_of_new apart inspect limit new, if_neg inner,
      id_eq, if_pos cut]
    exact congrArg (fun lines => line :: .elided depth node.origins.length :: lines) ih
  | case5 seen node depth rest new line more inner deep ih =>
    rw [List.map_cons, Prod.map, outlineLines_of_new apart inspect limit new, if_neg inner,
      id_eq, if_neg deep]
    have attached : (node.origins.attach.map fun ⟨origin, _⟩ => (origin, depth + 1)) =
        node.origins.map (·, depth + 1) := by simp
    rw [attached, List.map_append, List.map_map] at ih
    rw [List.map_map]
    exact congrArg _ ih

/-- An outline shows no number. -/
theorem outline_renumber {ρ : Nat → Nat} (apart : Function.Injective ρ) (inspect : V → String)
    (limit : Option Nat) (node : Node V) :
    (node.renumber ρ).outline inspect limit = node.outline inspect limit := by
  have lines := outlineLines_renumber apart inspect limit [] [(node, 0)]
  unfold outline
  exact congrArg (fun lines : List OutlineLine =>
    String.join (lines.map fun line => line.text ++ "\n")) lines

/-! ### Slices -/

section

variable {ρ : Nat → Nat} {found found' : Std.TreeMap Nat (Node V)}

/-- The second map has the nodes of the first, renumbered. -/
structure Renumbers (ρ : Nat → Nat) (found found' : Std.TreeMap Nat (Node V)) : Prop where
  same : ∀ k, found'[ρ k]? = found[k]?.map (renumber ρ)
  only : ∀ j node, found'[j]? = some node → ∃ k, j = ρ k

theorem renumbers_empty : Renumbers ρ ({} : Std.TreeMap Nat (Node V)) {} where
  same _ := by rw [Std.TreeMap.getElem?_emptyc, Std.TreeMap.getElem?_emptyc]; rfl
  only _ _ there := by rw [Std.TreeMap.getElem?_emptyc] at there; cases there

theorem Renumbers.insert (apart : Function.Injective ρ) (h : Renumbers ρ found found')
    (node : Node V) :
    Renumbers ρ (found.insert node.seq node) (found'.insert (ρ node.seq) (node.renumber ρ)) where
  same k := by
    rw [Std.TreeMap.getElem?_insert, Std.TreeMap.getElem?_insert, h.same]
    simp only [Nat.compare_eq_eq, apart.eq_iff]
    split <;> rfl
  only j other there := by
    rw [Std.TreeMap.getElem?_insert] at there
    split at there
    · next same => exact ⟨node.seq, (Nat.compare_eq_eq.mp same).symm⟩
    · exact h.only j other there

theorem gather_renumber (apart : Function.Injective ρ) (work : List (Node V))
    (h : Renumbers ρ found found') :
    Renumbers ρ (gather found work) (gather found' (work.map (renumber ρ))) := by
  fun_induction gather found work generalizing found' with
  | case1 found =>
    rw [List.map_nil, gather]
    exact h
  | case2 found first rest seen ih =>
    have seen' : found'.contains (first.renumber ρ).seq = true := by
      rw [Std.TreeMap.contains_eq_isSome_getElem?] at seen ⊢
      rw [seq_renumber, h.same, Option.isSome_map]
      exact seen
    rw [List.map_cons, gather, if_pos seen']
    exact ih h
  | case3 found first rest unseen ih =>
    have unseen' : ¬ found'.contains (first.renumber ρ).seq = true := by
      rw [Std.TreeMap.contains_eq_isSome_getElem?] at unseen ⊢
      rw [seq_renumber, h.same, Option.isSome_map]
      exact unseen
    have later := ih (h.insert apart first)
    rw [List.map_cons, gather, if_neg unseen']
    rw [List.map_append] at later
    rw [seq_renumber, origins_renumber]
    exact later

/-- Nodes in order stay in order. -/
theorem Renumbers.toList (ordered : StrictMono ρ) (h : Renumbers ρ found found') :
    found'.toList = found.toList.map (Prod.map ρ (renumber ρ)) := by
  let Older : Nat × Node V → Nat × Node V → Prop := fun a b => a.1 < b.1
  have : Std.Antisymm Older := ⟨fun a b below above => absurd below (Nat.lt_asymm above)⟩
  have : Std.Irrefl Older := ⟨fun a => Nat.lt_irrefl a.1⟩
  have sorted : ∀ nodes : Std.TreeMap Nat (Node V), nodes.toList.Pairwise Older := fun nodes =>
    Std.TreeMap.ordered_keys_toList.imp Nat.compare_eq_lt.mp
  have sorted' : (found.toList.map (Prod.map ρ (renumber ρ))).Pairwise Older :=
    List.pairwise_map.mpr ((sorted found).imp fun below => ordered below)
  refine (sorted found').eq_of_mem_iff sorted' fun ⟨j, node⟩ => ?_
  rw [Std.TreeMap.mem_toList_iff_getElem?_eq_some, List.mem_map]
  constructor
  · intro there
    obtain ⟨k, rfl⟩ := h.only j node there
    rw [h.same] at there
    obtain ⟨old, found, rfl⟩ := Option.map_eq_some_iff.mp there
    exact ⟨(k, old), Std.TreeMap.mem_toList_iff_getElem?_eq_some.mpr found, rfl⟩
  · rintro ⟨⟨k, old⟩, mem, same⟩
    cases same
    rw [h.same, Std.TreeMap.mem_toList_iff_getElem?_eq_some.mp mem]
    rfl

end

/-- A slice has the same nodes in the same order. -/
theorem slice_renumber {ρ : Nat → Nat} (ordered : StrictMono ρ) (roots : List (Node V)) :
    slice (roots.map (renumber ρ)) = (slice roots).map (renumber ρ) := by
  have found := (gather_renumber ordered.injective roots renumbers_empty).toList ordered
  rw [slice, slice, found, List.map_map, List.map_map]
  rfl

end Node

/-! ### Stores -/

section

variable {V : Type}

def Record.renumber (ρ : Nat → Nat) (r : Record V) : Record V :=
  { r with
    stack := r.stack.map (Node.renumber ρ)
    histories := r.histories.map (List.map (Node.renumber ρ))
    result := r.result.map (Node.renumber ρ) }

def Slots.renumber (ρ : Nat → Nat) (slots : Slots V) : Slots V :=
  Dict.map (Node.renumber ρ) slots

theorem Record.renumber_empty {ρ : Nat → Nat} : ({} : Record V).renumber ρ = {} := rfl

theorem Slots.renumber_empty {ρ : Nat → Nat} : Slots.renumber ρ ({} : Slots V) = {} := rfl

theorem Record.nodes_renumber (ρ : Nat → Nat) (r : Record V) :
    (r.renumber ρ).nodes = r.nodes.map (Node.renumber ρ) := by
  rw [nodes, nodes, List.map_append, List.map_append]
  have result : (r.result.map (Node.renumber ρ)).toList = r.result.toList.map (Node.renumber ρ) := by
    cases r.result <;> rfl
  have histories : (r.renumber ρ).histories.values.flatten =
      r.histories.values.flatten.map (Node.renumber ρ) := by
    rw [List.map_flatten, ← Dict.values_map]
    rfl
  exact congrArg₂ _ (congrArg₂ _ rfl histories) result

theorem Slots.values_renumber (ρ : Nat → Nat) (slots : Slots V) :
    (Slots.renumber ρ slots).values = slots.values.map (Node.renumber ρ) :=
  Dict.values_map _ slots

theorem Record.renumber_congr {ρ σ : Nat → Nat} {r : Record V}
    (same : ∀ node ∈ r.nodes, node.renumber ρ = node.renumber σ) : r.renumber ρ = r.renumber σ := by
  have stack : r.stack.map (Node.renumber ρ) = r.stack.map (Node.renumber σ) :=
    List.map_congr_left fun node mem => same node (mem_nodes.mpr (.inl mem))
  have histories : r.histories.map (List.map (Node.renumber ρ)) =
      r.histories.map (List.map (Node.renumber σ)) :=
    Dict.map_congr fun history there => List.map_congr_left fun node mem =>
      same node (mem_nodes.mpr (.inr (.inl ⟨history, there, mem⟩)))
  have result : r.result.map (Node.renumber ρ) = r.result.map (Node.renumber σ) :=
    Option.map_congr fun node mem => same node (mem_nodes.mpr (.inr (.inr mem)))
  unfold renumber
  rw [stack, histories, result]

theorem Record.renumber_id (r : Record V) : r.renumber id = r := by
  have nodes : ∀ nodes : List (Node V), nodes.map (Node.renumber id) = nodes := fun nodes =>
    (List.map_congr_left fun node _ => node.renumber_id).trans (List.map_id _)
  have result : r.result.map (Node.renumber id) = r.result :=
    (Option.map_congr fun node _ => node.renumber_id).trans Option.map_id'
  unfold renumber
  rw [nodes, Dict.map_id nodes, result]

end

namespace Store

variable {K : Kinds}

/-- The store with other numbers for its nodes. -/
def renumber (ρ : Nat → Nat) (s : Store K) : Store K where
  frames := s.frames.map (Record.renumber ρ)
  objects := s.objects.map (Slots.renumber ρ)
  scopes := s.scopes.map (Slots.renumber ρ)
  globals := Slots.renumber ρ s.globals

theorem frames_renumber (ρ : Nat → Nat) (s : Store K) :
    (s.renumber ρ).frames = s.frames.map (Record.renumber ρ) := rfl

theorem objects_renumber (ρ : Nat → Nat) (s : Store K) :
    (s.renumber ρ).objects = s.objects.map (Slots.renumber ρ) := rfl

theorem scopes_renumber (ρ : Nat → Nat) (s : Store K) :
    (s.renumber ρ).scopes = s.scopes.map (Slots.renumber ρ) := rfl

theorem globals_renumber (ρ : Nat → Nat) (s : Store K) :
    (s.renumber ρ).globals = Slots.renumber ρ s.globals := rfl

theorem nodes_renumber (ρ : Nat → Nat) (s : Store K) :
    (s.renumber ρ).nodes = s.nodes.map (Node.renumber ρ) := by
  unfold nodes renumber
  simp only [Table.contents_map, List.flatMap_map, List.map_append, List.map_flatMap,
    Record.nodes_renumber, Slots.values_renumber]

theorem renumber_congr {ρ σ : Nat → Nat} {s : Store K}
    (agree : ∀ a, Node.Reached s.nodes a → ρ a.seq = σ a.seq) : s.renumber ρ = s.renumber σ := by
  have same : ∀ node ∈ s.nodes, node.renumber ρ = node.renumber σ := fun node mem =>
    node.renumber_congr fun a reached => agree a <| reached.mono fun b there => by
      rw [List.mem_singleton.mp there]
      exact .root mem
  have frames : s.frames.map (Record.renumber ρ) = s.frames.map (Record.renumber σ) :=
    Table.map_congr fun r there => Record.renumber_congr fun node mem => same node <| by
      simp only [nodes, List.mem_append, List.mem_flatMap]
      exact .inl (.inl (.inl ⟨r, there, mem⟩))
  have objects : s.objects.map (Slots.renumber ρ) = s.objects.map (Slots.renumber σ) :=
    Table.map_congr fun slots there => Dict.map_congr fun node mem => same node <| by
      simp only [nodes, List.mem_append, List.mem_flatMap]
      exact .inl (.inl (.inr ⟨slots, there, mem⟩))
  have scopes : s.scopes.map (Slots.renumber ρ) = s.scopes.map (Slots.renumber σ) :=
    Table.map_congr fun slots there => Dict.map_congr fun node mem => same node <| by
      simp only [nodes, List.mem_append, List.mem_flatMap]
      exact .inl (.inr ⟨slots, there, mem⟩)
  have globals : Slots.renumber ρ s.globals = Slots.renumber σ s.globals :=
    Dict.map_congr fun node mem => same node <| by
      simp only [nodes, List.mem_append]
      exact .inr mem
  unfold renumber
  rw [frames, objects, scopes, globals]

theorem renumber_id (s : Store K) : s.renumber id = s := by
  have slots : ∀ slots : Slots K.Value, Slots.renumber id slots = slots := Dict.map_id Node.renumber_id
  unfold renumber
  rw [Table.map_id Record.renumber_id, Table.map_id slots, Table.map_id slots, slots]

end Store

end Lineage
