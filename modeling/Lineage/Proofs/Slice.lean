import Lineage.Node.Slice

/-!
# What a slice has

A slice has nodes that its roots were computed from, and where nodes are told apart by their numbers it
has all of them.
-/

namespace Lineage.Node

variable {V : Type}

/-- The node is one of `roots`, or an origin of a node that is reached from them. -/
inductive Reached (roots : List (Node V)) : Node V → Prop where
  | root {node : Node V} (mem : node ∈ roots) : Reached roots node
  | origin {node origin : Node V} (from' : Reached roots node) (mem : origin ∈ node.origins) :
      Reached roots origin

theorem Reached.mono {roots more : List (Node V)} (sub : ∀ node ∈ roots, Reached more node)
    {node : Node V} (h : Reached roots node) : Reached more node := by
  induction h with
  | root mem => exact sub _ mem
  | origin _ mem ih => exact .origin ih mem

theorem not_reached_nil {node : Node V} (h : Reached [] node) : False := by
  induction h with
  | root mem => cases mem
  | origin _ _ ih => exact ih

/-- Nodes closed under origins that are told apart by their numbers. -/
structure Told (G : Node V → Prop) : Prop where
  closed : ∀ a, G a → ∀ o ∈ a.origins, G o
  unique : ∀ a b, G a → G b → a.seq = b.seq → a = b

theorem Told.reached {G : Node V → Prop} (told : Told G) {roots : List (Node V)}
    (inside : ∀ a ∈ roots, G a) {node : Node V} (h : Reached roots node) : G node := by
  induction h with
  | root mem => exact inside _ mem
  | origin _ used ih => exact told.closed _ ih _ used

/-- The node has been found. -/
def FoundIn (found : Std.TreeMap Nat (Node V)) (node : Node V) : Prop := found[node.seq]? = some node

theorem foundIn_insert {found : Std.TreeMap Nat (Node V)} {node other : Node V} :
    FoundIn (found.insert node.seq node) other ↔
      other = node ∨ node.seq ≠ other.seq ∧ FoundIn found other := by
  unfold FoundIn
  rw [Std.TreeMap.getElem?_insert]
  by_cases same : node.seq = other.seq
  · rw [if_pos (by rw [same]; exact Std.ReflCmp.compare_self), Option.some.injEq]
    constructor
    · exact fun eq => .inl eq.symm
    · rintro (rfl | ⟨ne, -⟩)
      · rfl
      · exact absurd same ne
  · rw [if_neg (by rwa [Nat.compare_eq_eq])]
    constructor
    · exact fun there => .inr ⟨same, there⟩
    · rintro (rfl | ⟨-, there⟩)
      · exact absurd rfl same
      · exact there

/-- What has been found is from before, or is reached from the work list. -/
theorem reached_of_gather (found : Std.TreeMap Nat (Node V)) (work : List (Node V)) {k : Nat}
    {node : Node V} (there : (gather found work)[k]? = some node) :
    found[k]? = some node ∨ Reached work node := by
  fun_induction gather found work with
  | case1 found => exact .inl there
  | case2 found first rest seen ih =>
    exact (ih there).imp_right <| .mono fun _ mem => .root (List.mem_cons_of_mem _ mem)
  | case3 found first rest unseen ih =>
    rcases ih there with before | later
    · rw [Std.TreeMap.getElem?_insert] at before
      split at before
      · cases before
        exact .inr (.root List.mem_cons_self)
      · exact .inl before
    · refine .inr (later.mono fun other mem => ?_)
      rcases List.mem_append.mp mem with used | mem
      · exact .origin (.root List.mem_cons_self) used
      · exact .root (List.mem_cons_of_mem _ mem)

/-- All of the work list is found, and with a node its origins, if those found before are on it. -/
theorem gather_complete {G : Node V → Prop} (told : Told G) (found : Std.TreeMap Nat (Node V))
    (work : List (Node V)) (known : ∀ k a, found[k]? = some a → G a ∧ a.seq = k)
    (inside : ∀ a ∈ work, G a)
    (pending : ∀ a, FoundIn found a → ∀ o ∈ a.origins, FoundIn found o ∨ o ∈ work) :
    (∀ a, FoundIn found a ∨ a ∈ work → FoundIn (gather found work) a) ∧
      ∀ a, FoundIn (gather found work) a → ∀ o ∈ a.origins, FoundIn (gather found work) o := by
  fun_induction gather found work with
  | case1 found =>
    refine ⟨fun a there => there.resolve_right List.not_mem_nil, fun a there o used => ?_⟩
    exact (pending a there o used).resolve_right List.not_mem_nil
  | case2 found first rest seen ih =>
    -- a node with the number of one that has been found is that one
    have again : FoundIn found first := by
      obtain ⟨b, there⟩ := Option.isSome_iff_exists.mp
        (Std.TreeMap.contains_eq_isSome_getElem?.symm.trans seen)
      obtain ⟨inG, number⟩ := known _ b there
      rw [told.unique b first inG (inside first List.mem_cons_self) number] at there
      exact there
    have keep : ∀ a, FoundIn found a ∨ a ∈ first :: rest → FoundIn found a ∨ a ∈ rest := by
      rintro a (there | mem)
      · exact .inl there
      · rcases List.mem_cons.mp mem with rfl | mem
        · exact .inl again
        · exact .inr mem
    obtain ⟨all, closed⟩ := ih known (fun a mem => inside a (List.mem_cons_of_mem _ mem))
      fun a there o used => keep o (pending a there o used)
    exact ⟨fun a there => all a (keep a there), closed⟩
  | case3 found first rest unseen ih =>
    have inG := inside first List.mem_cons_self
    have fresh : ∀ a, FoundIn found a → first.seq ≠ a.seq := by
      intro a there same
      refine unseen ?_
      rw [Std.TreeMap.contains_eq_isSome_getElem?, same, there]
      rfl
    have keep : ∀ a, FoundIn found a ∨ a ∈ first :: rest →
        FoundIn (found.insert first.seq first) a ∨ a ∈ first.origins ++ rest := by
      rintro a (there | mem)
      · exact .inl (foundIn_insert.mpr (.inr ⟨fresh a there, there⟩))
      · rcases List.mem_cons.mp mem with rfl | mem
        · exact .inl (foundIn_insert.mpr (.inl rfl))
        · exact .inr (List.mem_append_right _ mem)
    have known' : ∀ k a, (found.insert first.seq first)[k]? = some a → G a ∧ a.seq = k := by
      intro k a there
      rw [Std.TreeMap.getElem?_insert] at there
      split at there
      · next same =>
        cases there
        exact ⟨inG, Nat.compare_eq_eq.mp same⟩
      · exact known k a there
    have inside' : ∀ a ∈ first.origins ++ rest, G a := by
      intro a mem
      rcases List.mem_append.mp mem with used | mem
      · exact told.closed first inG a used
      · exact inside a (List.mem_cons_of_mem _ mem)
    obtain ⟨all, closed⟩ := ih known' inside' fun a there o used => by
      rcases foundIn_insert.mp there with rfl | ⟨-, there⟩
      · exact .inr (List.mem_append_left _ used)
      · exact keep o (pending a there o used)
    exact ⟨fun a there => all a (keep a there), closed⟩

theorem mem_slice {roots : List (Node V)} {node : Node V} :
    node ∈ slice roots ↔ ∃ k : Nat, (gather {} roots)[k]? = some node := by
  unfold slice
  rw [List.mem_map]
  constructor
  · rintro ⟨⟨k, other⟩, mem, rfl⟩
    exact ⟨k, Std.TreeMap.mem_toList_iff_getElem?_eq_some.mp mem⟩
  · rintro ⟨k, there⟩
    exact ⟨(k, node), Std.TreeMap.mem_toList_iff_getElem?_eq_some.mpr there, rfl⟩

theorem reached_of_mem_slice {roots : List (Node V)} {node : Node V} (mem : node ∈ slice roots) :
    Reached roots node := by
  obtain ⟨k, there⟩ := mem_slice.mp mem
  refine (reached_of_gather {} roots there).resolve_left fun before => ?_
  rw [Std.TreeMap.getElem?_emptyc] at before
  cases before

/-- Nodes that are told apart by their numbers are in the slice just if they are reached. -/
theorem mem_slice_iff {G : Node V → Prop} (told : Told G) {roots : List (Node V)}
    (inside : ∀ a ∈ roots, G a) {node : Node V} : node ∈ slice roots ↔ Reached roots node := by
  refine ⟨reached_of_mem_slice, fun reached => ?_⟩
  have nothing : ∀ (k : Nat) (a : Node V), ({} : Std.TreeMap Nat (Node V))[k]? ≠ some a := by
    intro k a there
    rw [Std.TreeMap.getElem?_emptyc] at there
    cases there
  obtain ⟨all, closed⟩ := gather_complete told {} roots (fun k a there => absurd there (nothing k a))
    inside fun a there => absurd there (nothing _ a)
  have found : FoundIn (gather {} roots) node := by
    induction reached with
    | root mem => exact all _ (.inr mem)
    | origin _ used ih => exact closed _ ih _ used
  exact mem_slice.mpr ⟨node.seq, found⟩

end Lineage.Node
