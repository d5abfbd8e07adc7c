import Lineage.Proofs.Node.Rows

/-!
# Outlines with a depth limit

A depth limit leaves out everything that is only reached by longer paths, but it may leave out more. The
depth that counts is the one at which a node is met first, and the nodes are not met on their shortest
paths: one that is met first at the limit is not gone into there, and where it is met again less deep
there is only a reference to it. So what is within the limit is all written in full just if the origins
of such nodes are written elsewhere.
-/

namespace Lineage.Node

variable {V : Type}

/-- The node is reached from the root by that many steps from a node to one of its origins. -/
inductive Path (root : Node V) : Nat → Node V → Prop
  | root : Path root 0 root
  | origin {length : Nat} {node origin : Node V} (path : Path root length node)
      (used : origin ∈ node.origins) : Path root (length + 1) origin

/-- The node is written in full in the outline. -/
def Shown (limit : Option Nat) (root node : Node V) : Prop :=
  ∃ row ∈ root.rows limit, row.first = true ∧ row.node = node

theorem mem_originsWithin_some {most depth : Nat} {node origin : Node V} :
    origin ∈ node.originsWithin (some most) depth ↔ depth < most ∧ origin ∈ node.origins := by
  rw [originsWithin, Option.any_some]
  by_cases cut : most ≤ depth
  · simp [cut]
  · simp [cut, Nat.lt_of_not_le cut]

namespace Nested

variable {depth : Nat} {nodes : List (Node V)} {rows : List (Row V)}

theorem path {root : Node V} {limit : Option Nat} (nested : Nested limit depth nodes rows)
    (paths : ∀ node ∈ nodes, Path root depth node) : ∀ row ∈ rows, Path root row.depth row.node := by
  induction nested with
  | nil => exact List.forall_mem_nil _
  | back ordinal behind ih =>
    obtain ⟨first, others⟩ := List.forall_mem_cons.mp paths
    exact List.forall_mem_cons.mpr ⟨first, ih others⟩
  | full ordinal under behind ihUnder ihBehind =>
    obtain ⟨first, others⟩ := List.forall_mem_cons.mp paths
    refine List.forall_mem_cons.mpr ⟨first, List.forall_mem_append.mpr ⟨?_, ihBehind others⟩⟩
    exact ihUnder fun o used => .origin first (mem_origins_of_within used)

theorem depth_le_limit {most : Nat} (nested : Nested (some most) depth nodes rows) (le : depth ≤ most) :
    ∀ row ∈ rows, row.depth ≤ most := by
  induction nested with
  | nil => exact List.forall_mem_nil _
  | back ordinal behind ih => exact List.forall_mem_cons.mpr ⟨le, ih le⟩
  | @full depth node nodes below others ordinal under behind ihUnder ihBehind =>
    refine List.forall_mem_cons.mpr ⟨le, List.forall_mem_append.mpr ⟨?_, ihBehind le⟩⟩
    by_cases cut : depth < most
    · exact ihUnder cut
    · -- nothing is written below the node
      have none : node.originsWithin (some most) depth = [] :=
        List.eq_nil_iff_forall_not_mem.mpr fun o mem => cut (mem_originsWithin_some.mp mem).1
      rw [none] at under
      cases under
      exact List.forall_mem_nil _

end Nested

section

variable {made : List (Node V)} (built : Built made) {a : Node V} (ha : a ∈ made)

theorem path_row (limit : Option Nat) : ∀ row ∈ a.rows limit, Path a row.depth row.node :=
  (nested_rows limit a).path fun _ mem => List.mem_singleton.mp mem ▸ .root

theorem depth_row_le (most : Nat) : ∀ row ∈ a.rows (some most), row.depth ≤ most :=
  (nested_rows (some most) a).depth_le_limit (Nat.zero_le most)

theorem shown_root (limit : Option Nat) : Shown limit a a :=
  ⟨_, by rw [rows, rowsFrom_of_unseen rfl]; exact List.mem_cons_self, rfl, rfl⟩

include built ha

/-- A node that is met at all is written in full somewhere. -/
theorem shown_row (limit : Option Nat) {row : Row V} (mem : row ∈ a.rows limit) :
    Shown limit a row.node := by
  cases first : row.first with
  | true => exact ⟨row, mem, first, rfl⟩
  | false =>
    obtain ⟨before, after, split⟩ := List.append_of_mem mem
    obtain ⟨full, above, written, -, same⟩ := references_rows built ha limit split first
    exact ⟨full, split ▸ List.mem_append_left _ above, written, same⟩

theorem shown_origin {most : Nat} {row : Row V} (mem : row ∈ a.rows (some most))
    (first : row.first = true) (within : row.depth < most) {origin : Node V}
    (used : origin ∈ row.node.origins) : Shown (some most) a origin := by
  obtain ⟨before, after, split⟩ := List.append_of_mem mem
  obtain ⟨below, rest, rfl, -, -, origins⟩ := (nested_rows (some most) a).children split first
  have there : origin ∈ (below.filter (·.depth = row.depth + 1)).map (·.node) :=
    origins ▸ mem_originsWithin_some.mpr ⟨within, used⟩
  obtain ⟨under, memUnder, rfl⟩ := List.mem_map.mp there
  have memRow : under ∈ a.rows (some most) := by
    rw [split]
    simp [(List.mem_filter.mp memUnder).1]
  exact shown_row built ha (some most) memRow

/-- Beside the root, those nodes are written in full that are origins of one that is written in full
    above the limit. -/
theorem shown_iff (most : Nat) (node : Node V) : Shown (some most) a node ↔ node = a ∨
    ∃ row ∈ a.rows (some most), row.first = true ∧ row.depth < most ∧ node ∈ row.node.origins := by
  constructor
  · rintro ⟨row, mem, -, rfl⟩
    obtain ⟨before, after, split⟩ := List.append_of_mem mem
    rcases (nested_rows (some most) a).parent split with
      ⟨-, root⟩ | ⟨above, parent, between, rfl, first, -, used, -⟩
    · exact .inl (List.mem_singleton.mp root)
    · obtain ⟨within, used⟩ := mem_originsWithin_some.mp used
      exact .inr ⟨parent, by simp [split], first, within, used⟩
  · rintro (rfl | ⟨row, mem, first, within, used⟩)
    · exact shown_root (some most)
    · exact shown_origin built ha mem first within used

/-- What is within the limit is all written in full, if the origins are of those nodes that are written
    at the limit and could have been met before. -/
theorem shown_of_path {most : Nat}
    (late : ∀ row ∈ a.rows (some most), row.first = true → row.depth = most →
      ∀ length < most, Path a length row.node → ∀ o ∈ row.node.origins, Shown (some most) a o)
    {length : Nat} {node : Node V} (path : Path a length node) (within : length ≤ most) :
    Shown (some most) a node := by
  induction path with
  | root => exact shown_root (some most)
  | @origin length node origin path used ih =>
    obtain ⟨row, mem, first, rfl⟩ := ih (Nat.le_of_succ_le within)
    rcases Nat.lt_or_eq_of_le (depth_row_le most row mem) with above | at_
    · exact shown_origin built ha mem first above used
    · exact late row mem first at_ length within path origin used

/-- An outline with a depth limit has no line deeper than that, and each line stands at the length of a
    path to its node. It has the root in full, and the origins of the nodes that it has in full above the
    limit. That is all that is within the limit just if it has the origins also of those nodes that are
    first met at the limit although a shorter path leads to them. -/
theorem outline_limited (most : Nat) (inspect : V → String) :
    a.outline inspect (some most) =
      OutlineLine.joined ((a.rows (some most)).flatMap (Row.lines inspect (some most))) ∧
    (∀ row ∈ a.rows (some most), row.depth ≤ most ∧ Path a row.depth row.node) ∧
    (∀ node, Shown (some most) a node ↔ node = a ∨
      ∃ row ∈ a.rows (some most), row.first = true ∧ row.depth < most ∧ node ∈ row.node.origins) ∧
    ((∀ length node, Path a length node → length ≤ most → Shown (some most) a node) ↔
      ∀ row ∈ a.rows (some most), row.first = true → row.depth = most →
        ∀ length < most, Path a length row.node → ∀ o ∈ row.node.origins, Shown (some most) a o) := by
  refine ⟨outline_eq_join inspect (some most) a, fun row mem => ?_, shown_iff built ha most, ?_, ?_⟩
  · exact ⟨depth_row_le most row mem, path_row (some most) row mem⟩
  · intro all row mem first at_ length shorter path o used
    exact all (length + 1) o (.origin path used) shorter
  · intro late length node path within
    exact shown_of_path built ha late path within

end

/-! ### A node that is met again on a shorter path -/

namespace Detour

def price : Node Nat := ⟨1, none, some 3, []⟩

def tax : Node Nat := ⟨2, none, some 4, [price]⟩

def sum : Node Nat := ⟨3, none, some 7, [tax]⟩

/-- Its second origin is below the first one too, one step deeper. -/
def total : Node Nat := ⟨4, none, some 11, [sum, tax]⟩

theorem built : Built [total, sum, tax, price] := by
  refine .cons (.cons (.cons (.cons .nil ?_ ?_) ?_ ?_) ?_ ?_) ?_ ?_ <;> simp [price, tax, sum, total]

theorem rows_total : total.rows (some 2) =
    [⟨total, 0, 1, true⟩, ⟨sum, 1, 2, true⟩, ⟨tax, 2, 3, true⟩, ⟨tax, 1, 3, false⟩] := by
  simp [rows, rowsFrom, ordinal?, originsWithin, total, sum, tax, price]

theorem path_price : Path total 2 price := by
  have first : Path total 1 tax := .origin .root (by simp [total])
  exact .origin first (by simp [tax])

/-- Two steps lead to the price, but with a depth limit of two it is left out. -/
theorem price_left_out : Path total 2 price ∧
    total.outline toString (some 2) = "[1] <unknown> = 11\n  [2] <unknown> = 7\n" ++
      "    [3] <unknown> = 4\n      ... 1 origin(s)\n  ^[3]\n" ∧
    ¬ Shown (some 2) total price := by
  refine ⟨path_price, ?_, ?_⟩
  · rw [outline_eq_join, rows_total]
    decide
  · rintro ⟨row, mem, first, same⟩
    rw [rows_total] at mem
    have numbers : ∀ row ∈ [(⟨total, 0, 1, true⟩ : Row Nat), ⟨sum, 1, 2, true⟩, ⟨tax, 2, 3, true⟩,
        ⟨tax, 1, 3, false⟩], row.node.seq ≠ price.seq := by
      simp [total, sum, tax, price]
    exact numbers row mem (congrArg seq same)

theorem outline_limited_total : Shown (some 2) total tax ∧ Shown (some 3) total price := by
  obtain ⟨-, -, shown, -⟩ := outline_limited built (a := total) (by simp) 2 toString
  obtain ⟨-, -, -, all⟩ := outline_limited built (a := total) (by simp) 3 toString
  have rows : total.rows (some 3) = [⟨total, 0, 1, true⟩, ⟨sum, 1, 2, true⟩, ⟨tax, 2, 3, true⟩,
      ⟨price, 3, 4, true⟩, ⟨tax, 1, 3, false⟩] := by
    simp [rows, rowsFrom, ordinal?, originsWithin, total, sum, tax, price]
  refine ⟨(shown tax).mpr (.inr ⟨⟨total, 0, 1, true⟩, ?_, rfl, by decide, by simp [total]⟩), ?_⟩
  · simp [rows_total]
  · -- only the price is met at the limit, and it has no origins
    refine all.mpr ?_ 2 price path_price (by decide)
    rw [rows]
    simp [price]

end Detour

end Lineage.Node
