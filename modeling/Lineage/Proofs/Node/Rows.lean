import Lineage.Proofs.Node.Outlines

/-!
# Outlines and slices

An outline writes the slice of its root. Each of its lines stands for a node (`Row`), and without a depth
limit the lines on which nodes are written in full stand for the nodes of the slice, each of them once.
The other lines refer back to those. The depths make a tree of the lines: under a node that is written in
full stand its origins, in their order, and under a reference stands nothing (`Nested`).
-/

namespace Lineage.Node

variable {V : Type}

/-! ### What the lines stand for -/

namespace OutlineLine

/-- The text of some lines. -/
def joined (lines : List OutlineLine) : String :=
  String.join (lines.map fun line => line.text ++ "\n")

theorem joined_append (lines more : List OutlineLine) :
    joined (lines ++ more) = joined lines ++ joined more := by
  rw [joined, List.map_append, String.join_append, joined, joined]

end OutlineLine

/-- The node that a line of an outline stands for, and whether it is met there for the first time. -/
structure Row (V : Type) where
  node : Node V
  depth : Nat
  ordinal : Nat
  first : Bool

namespace Row

def line (inspect : V → String) (row : Row V) : OutlineLine :=
  if row.first then .full row.depth row.ordinal (row.node.header inspect)
  else .back row.depth row.ordinal

/-- The line that counts the origins left out under a node. -/
def elision (limit : Option Nat) (row : Row V) : List OutlineLine :=
  if row.first && !row.node.origins.isEmpty && limit.any (· ≤ row.depth) then
    [.elided row.depth row.node.origins.length]
  else []

/-- All that is written about a node where it is met. -/
def lines (inspect : V → String) (limit : Option Nat) (row : Row V) : List OutlineLine :=
  row.line inspect :: row.elision limit

theorem lines_none (inspect : V → String) (row : Row V) :
    row.lines inspect none = [row.line inspect] := by
  simp [lines, elision]

end Row

/-- The origins of a node at `depth` that are written under it. -/
def originsWithin (limit : Option Nat) (depth : Nat) (node : Node V) : List (Node V) :=
  if limit.any (· ≤ depth) then [] else node.origins

@[simp] theorem originsWithin_none (depth : Nat) (node : Node V) :
    node.originsWithin none depth = node.origins := rfl

theorem sizeOf_originsWithin_lt (limit : Option Nat) (depth : Nat) (node : Node V) :
    sizeOf (node.originsWithin limit depth) < sizeOf node := by
  obtain ⟨seq, creator, value, origins⟩ := node
  rw [originsWithin]
  split
  · cases origins <;> simp +arith
  · simp only [mk.sizeOf_spec]
    omega

theorem mem_origins_of_within {limit : Option Nat} {depth : Nat} {node origin : Node V}
    (mem : origin ∈ node.originsWithin limit depth) : origin ∈ node.origins := by
  rw [originsWithin] at mem
  split at mem
  · cases mem
  · exact mem

/-- What the lines of the pending nodes stand for, after the nodes numbered `seen`. -/
def rowsFrom (limit : Option Nat) (seen : List Nat) : List (Node V × Nat) → List (Row V)
  | [] => []
  | (node, depth) :: rest =>
      match ordinal? seen node.seq with
      | some ordinal => ⟨node, depth, ordinal, false⟩ :: rowsFrom limit seen rest
      | none => ⟨node, depth, seen.length + 1, true⟩ :: rowsFrom limit (node.seq :: seen)
          ((node.originsWithin limit depth).map (·, depth + 1) ++ rest)
  termination_by work => sizeOf (work.map Prod.fst)
  decreasing_by
    · simp only [List.map_cons, List.cons.sizeOf_spec]; omega
    · have below := sizeOf_originsWithin_lt limit depth node
      have all := sizeOf_append (node.originsWithin limit depth) (rest.map Prod.fst)
      simp only [List.map_append, List.map_map, Function.comp_def, List.map_id', List.map_cons,
        List.cons.sizeOf_spec]
      omega

/-- What the lines of the outline of a node stand for. -/
def rows (limit : Option Nat) (root : Node V) : List (Row V) := rowsFrom limit [] [(root, 0)]

section

variable {limit : Option Nat} {seen : List Nat}

theorem rowsFrom_of_seen {node : Node V} {depth ordinal : Nat} {rest : List (Node V × Nat)}
    (known : ordinal? seen node.seq = some ordinal) :
    rowsFrom limit seen ((node, depth) :: rest) =
      ⟨node, depth, ordinal, false⟩ :: rowsFrom limit seen rest := by
  rw [rowsFrom, known]

theorem rowsFrom_of_unseen {node : Node V} {depth : Nat} {rest : List (Node V × Nat)}
    (new : ordinal? seen node.seq = none) :
    rowsFrom limit seen ((node, depth) :: rest) =
      ⟨node, depth, seen.length + 1, true⟩ :: rowsFrom limit (node.seq :: seen)
        ((node.originsWithin limit depth).map (·, depth + 1) ++ rest) := by
  rw [rowsFrom, new]

end

theorem outlineLines_eq_flatMap (inspect : V → String) (limit : Option Nat) (seen : List Nat)
    (work : List (Node V × Nat)) :
    outlineLines inspect limit seen work = (rowsFrom limit seen work).flatMap (Row.lines inspect limit) := by
  fun_induction rowsFrom limit seen work with
  | case1 seen => rw [outlineLines, List.flatMap_nil]
  | case2 seen node depth rest ordinal known ih =>
    rw [outlineLines, known, List.flatMap_cons, ← ih]
    rfl
  | case3 seen node depth rest new ih =>
    rw [outlineLines, new, List.flatMap_cons, ← ih]
    cases empty : node.origins.isEmpty with
    | true => simp [Row.lines, Row.line, Row.elision, originsWithin, List.isEmpty_iff.mp empty]
    | false =>
      cases cut : limit.any (· ≤ depth) with
      | true => simp [Row.lines, Row.line, Row.elision, originsWithin, empty, cut]
      | false => simp [Row.lines, Row.line, Row.elision, originsWithin, empty, cut]

/-- The text of an outline, by what its lines stand for. -/
theorem outline_eq_join (inspect : V → String) (limit : Option Nat) (root : Node V) :
    root.outline inspect limit =
      OutlineLine.joined ((root.rows limit).flatMap (Row.lines inspect limit)) := by
  rw [outline, outlineLines_eq_flatMap, rows, OutlineLine.joined]

/-! ### Passes of the loop -/

/-- One pass of the loop that writes an outline: a node is taken from the pending ones, its line is added
    to the text, and its origins become pending unless it has been seen or is too deep. -/
def outlinePass (inspect : V → String) (limit : Option Nat) :
    List Nat × List (Node V × Nat) × String → List Nat × List (Node V × Nat) × String
  | (seen, [], text) => (seen, [], text)
  | (seen, (node, depth) :: rest, text) =>
      match ordinal? seen node.seq with
      | some ordinal => (seen, rest, text ++ (OutlineLine.back depth ordinal).text ++ "\n")
      | none =>
          let line := OutlineLine.full depth (seen.length + 1) (node.header inspect)
          let text := text ++ line.text ++ "\n"
          let seen := node.seq :: seen
          if node.origins.isEmpty then (seen, rest, text)
          else if limit.any (· ≤ depth) then
            (seen, rest, text ++ (OutlineLine.elided depth node.origins.length).text ++ "\n")
          else (seen, node.origins.map (·, depth + 1) ++ rest, text)

/-- A pass writes what is to be written about one node. -/
theorem outlinePass_cons (inspect : V → String) (limit : Option Nat) (seen : List Nat)
    (item : Node V × Nat) (rest : List (Node V × Nat)) (text : String) :
    ∃ row seen' work, rowsFrom limit seen (item :: rest) = row :: rowsFrom limit seen' work ∧
      outlinePass inspect limit (seen, item :: rest, text) =
        (seen', work, text ++ OutlineLine.joined (row.lines inspect limit)) := by
  obtain ⟨node, depth⟩ := item
  cases known : ordinal? seen node.seq with
  | some ordinal =>
    refine ⟨_, _, _, rowsFrom_of_seen known, ?_⟩
    simp [outlinePass, known, Row.lines, Row.line, Row.elision, OutlineLine.joined, String.append_assoc]
  | none =>
    refine ⟨_, _, _, rowsFrom_of_unseen known, ?_⟩
    cases empty : node.origins.isEmpty with
    | true =>
      simp [outlinePass, known, Row.lines, Row.line, Row.elision, originsWithin,
        List.isEmpty_iff.mp empty, OutlineLine.joined, String.append_assoc]
    | false =>
      cases cut : limit.any (· ≤ depth) with
      | true =>
        simp [outlinePass, known, Row.lines, Row.line, Row.elision, originsWithin, empty, cut,
          OutlineLine.joined, String.append_assoc]
      | false =>
        simp [outlinePass, known, Row.lines, Row.line, Row.elision, originsWithin, empty, cut,
          OutlineLine.joined, String.append_assoc]

theorem outlinePass_rowsFrom (inspect : V → String) (limit : Option Nat) {rows : List (Row V)}
    {seen : List Nat} {work : List (Node V × Nat)} (reads : rowsFrom limit seen work = rows)
    (text : String) :
    ∃ seen', (outlinePass inspect limit)^[rows.length] (seen, work, text) =
      (seen', [], text ++ OutlineLine.joined (rows.flatMap (Row.lines inspect limit))) := by
  induction rows generalizing seen work text with
  | nil =>
    cases work with
    | nil => exact ⟨seen, by simp [OutlineLine.joined]⟩
    | cons item rest =>
      obtain ⟨row, seen', work, first, -⟩ := outlinePass_cons inspect limit seen item rest text
      rw [first] at reads
      cases reads
  | cons row rows ih =>
    cases work with
    | nil =>
      rw [rowsFrom] at reads
      cases reads
    | cons item rest =>
      obtain ⟨row', seen', work, first, passes⟩ := outlinePass_cons inspect limit seen item rest text
      rw [first] at reads
      obtain ⟨rfl, more⟩ := List.cons.inj reads
      obtain ⟨last, ends⟩ := ih more (text ++ OutlineLine.joined (row'.lines inspect limit))
      refine ⟨last, ?_⟩
      rw [List.length_cons, Function.iterate_succ_apply, passes, ends, List.flatMap_cons,
        OutlineLine.joined_append, String.append_assoc]

/-- The loop ends when it has passed once for each row, with the outline for its text. -/
theorem outlinePass_rows (inspect : V → String) (limit : Option Nat) (root : Node V) :
    ∃ seen, (outlinePass inspect limit)^[(root.rows limit).length] ([], [(root, 0)], "") =
      (seen, [], root.outline inspect limit) := by
  obtain ⟨seen, ends⟩ := outlinePass_rowsFrom inspect limit (rfl : rowsFrom limit [] [(root, 0)] = _) ""
  refine ⟨seen, ?_⟩
  rw [outline_eq_join, rows, ends, String.empty_append]

/-! ### The tree of the lines -/

/-- The rows of some nodes at one depth, one after the other: a node that has been seen gives one row, and
    behind the row of any other stand the rows of its origins, one step deeper. -/
inductive Nested (limit : Option Nat) : Nat → List (Node V) → List (Row V) → Prop
  | nil {depth : Nat} : Nested limit depth [] []
  | back {depth : Nat} {node : Node V} {nodes : List (Node V)} {others : List (Row V)} (ordinal : Nat)
      (behind : Nested limit depth nodes others) :
      Nested limit depth (node :: nodes) (⟨node, depth, ordinal, false⟩ :: others)
  | full {depth : Nat} {node : Node V} {nodes : List (Node V)} {below others : List (Row V)}
      (ordinal : Nat) (under : Nested limit (depth + 1) (node.originsWithin limit depth) below)
      (behind : Nested limit depth nodes others) :
      Nested limit depth (node :: nodes) (⟨node, depth, ordinal, true⟩ :: (below ++ others))

theorem rowsFrom_append (limit : Option Nat) (seen : List Nat) (work more : List (Node V × Nat)) :
    ∃ seen', rowsFrom limit seen (work ++ more) = rowsFrom limit seen work ++ rowsFrom limit seen' more := by
  fun_induction rowsFrom limit seen work with
  | case1 seen => exact ⟨seen, rfl⟩
  | case2 seen node depth rest ordinal known ih =>
    obtain ⟨seen', behind⟩ := ih
    refine ⟨seen', ?_⟩
    rw [List.cons_append, rowsFrom_of_seen known, behind, List.cons_append]
  | case3 seen node depth rest new ih =>
    obtain ⟨seen', behind⟩ := ih
    refine ⟨seen', ?_⟩
    rw [List.cons_append, rowsFrom_of_unseen new, ← List.append_assoc, behind, List.cons_append]

theorem nested_rowsFrom (limit : Option Nat) (seen : List Nat) (depth : Nat) (nodes : List (Node V)) :
    Nested limit depth nodes (rowsFrom limit seen (nodes.map (·, depth))) := by
  match nodes with
  | [] =>
    rw [List.map_nil, rowsFrom]
    exact .nil
  | node :: rest =>
    rw [List.map_cons]
    cases known : ordinal? seen node.seq with
    | some ordinal =>
      rw [rowsFrom_of_seen known]
      exact .back ordinal (nested_rowsFrom limit seen depth rest)
    | none =>
      rw [rowsFrom_of_unseen known]
      obtain ⟨seen', split⟩ := rowsFrom_append limit (node.seq :: seen)
        ((node.originsWithin limit depth).map (·, depth + 1)) (rest.map (·, depth))
      rw [split]
      exact .full _ (nested_rowsFrom limit (node.seq :: seen) (depth + 1) (node.originsWithin limit depth))
        (nested_rowsFrom limit seen' depth rest)
  termination_by sizeOf nodes
  decreasing_by
    all_goals
      have := sizeOf_originsWithin_lt limit depth node
      simp only [List.cons.sizeOf_spec]
      omega

/-- An element of two lists in a row is in the second or in the first. -/
theorem append_eq_split {α : Type} {xs ys before after : List α} {x : α}
    (split : xs ++ ys = before ++ x :: after) :
    (∃ front, before = xs ++ front ∧ ys = front ++ x :: after) ∨
      ∃ back, xs = before ++ x :: back ∧ after = back ++ ys := by
  rcases List.append_eq_append_iff.mp split with second | ⟨back, rfl, tail⟩
  · exact .inl second
  · cases back with
    | nil => exact .inl ⟨[], by simp, by simpa using tail.symm⟩
    | cons first back =>
      obtain ⟨rfl, rfl⟩ := List.cons.inj tail
      exact .inr ⟨back, rfl, rfl⟩

namespace Nested

variable {limit : Option Nat} {depth : Nat} {nodes : List (Node V)} {rows : List (Row V)}

theorem depth_le (nested : Nested limit depth nodes rows) : ∀ row ∈ rows, depth ≤ row.depth := by
  induction nested with
  | nil => simp
  | back ordinal behind ih => exact List.forall_mem_cons.mpr ⟨Nat.le_refl _, ih⟩
  | full ordinal under behind ihUnder ihBehind =>
    refine List.forall_mem_cons.mpr ⟨Nat.le_refl _, List.forall_mem_append.mpr ⟨fun row mem => ?_, ihBehind⟩⟩
    exact Nat.le_of_succ_le (ihUnder row mem)

/-- The first row stands at the depth of the nodes. -/
theorem depth_head (nested : Nested limit depth nodes rows) : ∀ row ∈ rows.head?, row.depth = depth := by
  cases nested <;> simp

/-- Behind the first row of a single node all is below it. -/
theorem tail_deeper {node : Node V} {row : Row V} {behind : List (Row V)}
    (nested : Nested limit depth [node] (row :: behind)) : ∀ other ∈ behind, depth < other.depth := by
  cases nested with
  | back ordinal others =>
    cases others
    exact List.forall_mem_nil _
  | full ordinal under others =>
    cases others
    rw [List.append_nil]
    exact under.depth_le

/-- The rows that are not below others stand for the nodes, in their order. -/
theorem map_node (nested : Nested limit depth nodes rows) :
    (rows.filter (·.depth = depth)).map (·.node) = nodes := by
  induction nested with
  | nil => rfl
  | back ordinal behind ih => simpa using ih
  | @full depth node nodes below others ordinal under behind ihUnder ihBehind =>
    have none : below.filter (·.depth = depth) = [] := by
      refine List.filter_eq_nil_iff.mpr fun row mem => ?_
      have := under.depth_le row mem
      simp only [decide_eq_true_eq]
      omega
    simpa [none] using ihBehind

theorem mem {made : List (Node V)} (built : Built made) (nested : Nested limit depth nodes rows)
    (inside : ∀ a ∈ nodes, a ∈ made) : ∀ row ∈ rows, row.node ∈ made := by
  induction nested with
  | nil => simp
  | back ordinal behind ih =>
    obtain ⟨first, others⟩ := List.forall_mem_cons.mp inside
    exact List.forall_mem_cons.mpr ⟨first, ih others⟩
  | full ordinal under behind ihUnder ihBehind =>
    obtain ⟨first, others⟩ := List.forall_mem_cons.mp inside
    refine List.forall_mem_cons.mpr ⟨first, List.forall_mem_append.mpr ⟨?_, ihBehind others⟩⟩
    exact ihUnder fun o used => built.origin_mem _ first o (mem_origins_of_within used)

/-- A row stands for one of the nodes, or one step below a row in front of it that is the last one less
    deep; on that a node is written in full that has the node of the row among its origins. -/
theorem parent (nested : Nested limit depth nodes rows) {before after : List (Row V)} {row : Row V}
    (split : rows = before ++ row :: after) :
    row.depth = depth ∧ row.node ∈ nodes ∨
      ∃ (above : List (Row V)) (parent : Row V) (between : List (Row V)),
        before = above ++ parent :: between ∧ parent.first = true ∧ row.depth = parent.depth + 1 ∧
        row.node ∈ parent.node.originsWithin limit parent.depth ∧
        ∀ other ∈ between, parent.depth < other.depth := by
  induction nested generalizing before row after with
  | nil => simp at split
  | back ordinal behind ih =>
    cases before with
    | nil =>
      obtain ⟨rfl, -⟩ := List.cons.inj split
      exact .inl ⟨rfl, List.mem_cons_self⟩
    | cons first before =>
      rcases ih (List.cons.inj split).2 with ⟨level, mem⟩ | ⟨above, parent, between, rfl, found⟩
      · exact .inl ⟨level, List.mem_cons_of_mem _ mem⟩
      · exact .inr ⟨first :: above, parent, between, rfl, found⟩
  | @full depth node nodes below others ordinal under behind ihUnder ihBehind =>
    cases before with
    | nil =>
      obtain ⟨rfl, -⟩ := List.cons.inj split
      exact .inl ⟨rfl, List.mem_cons_self⟩
    | cons first before =>
      obtain ⟨head, rest⟩ := List.cons.inj split
      -- the row is behind all of those below the node, or is one of them
      rcases append_eq_split rest with ⟨front, rfl, tail⟩ | ⟨back, inner, -⟩
      · rcases ihBehind tail with ⟨level, mem⟩ | ⟨above, parent, between, rfl, found⟩
        · exact .inl ⟨level, List.mem_cons_of_mem _ mem⟩
        · exact .inr ⟨first :: (below ++ above), parent, between, by simp, found⟩
      · rcases ihUnder inner with ⟨level, mem⟩ | ⟨above, parent, between, rfl, found⟩
        · refine .inr ⟨[], first, before, rfl, ?_⟩
          subst head
          refine ⟨rfl, level, mem, fun other there => ?_⟩
          exact under.depth_le other (inner ▸ List.mem_append_left _ there)
        · exact .inr ⟨first :: above, parent, between, rfl, found⟩

/-- Behind a row on which a node is written in full stand the deeper rows below it, those one step deeper
    for its origins in their order. -/
theorem children (nested : Nested limit depth nodes rows) {before after : List (Row V)} {row : Row V}
    (split : rows = before ++ row :: after) (first : row.first = true) :
    ∃ below rest : List (Row V), after = below ++ rest ∧ (∀ other ∈ below, row.depth < other.depth) ∧
      (∀ other ∈ rest.head?, other.depth ≤ row.depth) ∧
      (below.filter (·.depth = row.depth + 1)).map (·.node) = row.node.originsWithin limit row.depth := by
  induction nested generalizing before row after with
  | nil => simp at split
  | back ordinal behind ih =>
    cases before with
    | nil =>
      obtain ⟨rfl, -⟩ := List.cons.inj split
      cases first
    | cons head before => exact ih (List.cons.inj split).2 first
  | @full depth node nodes below others ordinal under behind ihUnder ihBehind =>
    cases before with
    | nil =>
      obtain ⟨rfl, rfl⟩ := List.cons.inj split
      refine ⟨below, others, rfl, fun other mem => under.depth_le other mem, fun other mem => ?_,
        under.map_node⟩
      exact (behind.depth_head other mem).le
    | cons head before =>
      rcases append_eq_split (List.cons.inj split).2 with ⟨front, rfl, tail⟩ | ⟨back, inner, rfl⟩
      · exact ihBehind tail first
      · obtain ⟨deeper, rest, rfl, all, stop, origins⟩ := ihUnder inner first
        have level : depth < row.depth := under.depth_le row (by simp [inner])
        refine ⟨deeper, rest ++ others, by rw [List.append_assoc], all, fun other mem => ?_, origins⟩
        rw [List.head?_append] at mem
        cases ends : rest.head? with
        | some next =>
          rw [ends] at mem stop
          exact stop other mem
        | none =>
          rw [ends] at mem
          exact (behind.depth_head other mem).trans_le level.le

end Nested

theorem nested_rows (limit : Option Nat) (root : Node V) : Nested limit 0 [root] (root.rows limit) :=
  nested_rowsFrom limit [] 0 [root]

/-! ### Ordinals and references -/

/-- The rows on which nodes are written in full, from top to bottom. -/
def fullRows (rows : List (Row V)) : List (Row V) := rows.filter (·.first)

theorem fullRows_cons_full (node : Node V) (depth ordinal : Nat) (rows : List (Row V)) :
    fullRows (⟨node, depth, ordinal, true⟩ :: rows) = ⟨node, depth, ordinal, true⟩ :: fullRows rows := rfl

theorem fullRows_cons_back (node : Node V) (depth ordinal : Nat) (rows : List (Row V)) :
    fullRows (⟨node, depth, ordinal, false⟩ :: rows) = fullRows rows := rfl

theorem ordinal_fullRows (limit : Option Nat) (seen : List Nat) (work : List (Node V × Nat)) :
    (fullRows (rowsFrom limit seen work)).map (·.ordinal) =
      List.range' (seen.length + 1) (fullRows (rowsFrom limit seen work)).length := by
  fun_induction rowsFrom limit seen work with
  | case1 seen => rfl
  | case2 seen node depth rest ordinal known ih => rw [fullRows_cons_back, ih]
  | case3 seen node depth rest new ih =>
    rw [fullRows_cons_full, List.map_cons, List.length_cons, List.range'_succ, ih, List.length_cons]

/-- A reference has the ordinal of a node seen before, or of one that is written in full above it. -/
theorem reference (limit : Option Nat) (seen : List Nat) (work : List (Node V × Nat))
    {before after : List (Row V)} {row : Row V} (split : rowsFrom limit seen work = before ++ row :: after)
    (again : row.first = false) :
    ordinal? seen row.node.seq = some row.ordinal ∨
      ∃ full ∈ before, full.first = true ∧ full.ordinal = row.ordinal ∧ full.node.seq = row.node.seq := by
  fun_induction rowsFrom limit seen work generalizing before with
  | case1 seen => simp at split
  | case2 seen node depth rest ordinal known ih =>
    cases before with
    | nil =>
      obtain ⟨rfl, -⟩ := List.cons.inj split
      exact .inl known
    | cons head before =>
      refine (ih (List.cons.inj split).2).imp_right fun ⟨full, mem, found⟩ => ?_
      exact ⟨full, List.mem_cons_of_mem _ mem, found⟩
  | case3 seen node depth rest new ih =>
    cases before with
    | nil =>
      obtain ⟨rfl, -⟩ := List.cons.inj split
      cases again
    | cons head before =>
      obtain ⟨rfl, tail⟩ := List.cons.inj split
      rcases ih tail with known | ⟨full, mem, found⟩
      · rw [ordinal?] at known
        split at known
        · next same =>
          exact .inr ⟨_, List.mem_cons_self, rfl, Option.some.inj known, same⟩
        · exact .inl known
      · exact .inr ⟨full, List.mem_cons_of_mem _ mem, found⟩

theorem length_rowsFrom (seen : List Nat) (work : List (Node V × Nat)) :
    (rowsFrom none seen work).length = work.length +
      ((fullRows (rowsFrom none seen work)).map fun row => row.node.origins.length).sum := by
  fun_induction rowsFrom none seen work with
  | case1 seen => rfl
  | case2 seen node depth rest ordinal known ih =>
    rw [List.length_cons, ih, List.length_cons, fullRows_cons_back]
    omega
  | case3 seen node depth rest new ih =>
    rw [List.length_append, List.length_map, originsWithin_none] at ih
    rw [List.length_cons, originsWithin_none, ih, List.length_cons, fullRows_cons_full, List.map_cons,
      List.sum_cons]
    dsimp only
    omega

/-! ### The slice -/

/-- The nodes that are written in full are those that are found for the slice. -/
theorem gather_fullRows (found : Std.TreeMap Nat (Node V)) (seen : List Nat)
    (work : List (Node V × Nat)) (same : ∀ k, found.contains k = true ↔ k ∈ seen) :
    ((gather found (work.map Prod.fst)).toList.map Prod.snd).Perm
      (found.toList.map Prod.snd ++ (fullRows (rowsFrom none seen work)).map (·.node)) := by
  fun_induction rowsFrom none seen work generalizing found with
  | case1 seen => simp [gather, fullRows]
  | case2 seen node depth rest ordinal known ih =>
    have there : found.contains node.seq = true := by
      rw [same]
      by_contra unseen
      rw [ordinal?_eq_none_iff.mpr unseen] at known
      cases known
    rw [List.map_cons, gather, if_pos there]
    exact ih found same
  | case3 seen node depth rest new ih =>
    have missing : ¬ found.contains node.seq = true := by
      rw [same]
      exact ordinal?_eq_none_iff.mp new
    have next := ih (found.insert node.seq node) fun k => by
      rw [Std.TreeMap.contains_insert, Bool.or_eq_true, same, List.mem_cons, beq_iff_eq,
        Nat.compare_eq_eq]
      exact or_congr eq_comm Iff.rfl
    rw [originsWithin_none, nodes_expand] at next
    rw [List.map_cons, gather, if_neg missing, originsWithin_none, fullRows_cons_full, List.map_cons]
    exact next.trans ((((toList_insert_new missing).map Prod.snd).append_right _).trans
      List.perm_middle.symm)

theorem slice_perm_fullRows (root : Node V) :
    ((fullRows (root.rows none)).map (·.node)).Perm (slice [root]) :=
  (gather_fullRows {} [] [(root, 0)] fun k => by simp).symm

/-- What the lines of an outline without a depth limit stand for. -/
structure WritesSlice (root : Node V) (rows : List (Row V)) : Prop where
  /-- The root stands first, and it alone is not indented. -/
  top : ∃ below, rows = ⟨root, 0, 1, true⟩ :: below ∧ ∀ row ∈ below, 0 < row.depth
  /-- The nodes that are written in full are those of the slice, each of them once. -/
  nodes : ((fullRows rows).map (·.node)).Perm (slice [root]) ∧ ((fullRows rows).map (·.node)).Nodup
  /-- They are numbered from top to bottom. -/
  ordinals : (fullRows rows).map (·.ordinal) = List.range' 1 (slice [root]).length
  /-- Any other line has the ordinal of a line above it, on which its node is written in full. -/
  references : ∀ (before : List (Row V)) (row : Row V) (after : List (Row V)),
    rows = before ++ row :: after → row.first = false →
      ∃ full ∈ before, full.first = true ∧ full.ordinal = row.ordinal ∧ full.node = row.node
  /-- Any line but that of the root stands one step below the last line above it that is less deep, and
      there a node is written in full of which its own node is an origin. -/
  parent : ∀ (before : List (Row V)) (row : Row V) (after : List (Row V)),
    rows = before ++ row :: after → before ≠ [] →
      ∃ (above : List (Row V)) (parent : Row V) (between : List (Row V)),
        before = above ++ parent :: between ∧ parent.first = true ∧ row.depth = parent.depth + 1 ∧
        row.node ∈ parent.node.origins ∧ ∀ other ∈ between, parent.depth < other.depth
  /-- Under a node that is written in full, as far as the lines are deeper, stand its origins one step
      deeper in their order. -/
  children : ∀ (before : List (Row V)) (row : Row V) (after : List (Row V)),
    rows = before ++ row :: after → row.first = true →
      ∃ below rest : List (Row V), after = below ++ rest ∧ (∀ other ∈ below, row.depth < other.depth) ∧
        (∀ other ∈ rest.head?, other.depth ≤ row.depth) ∧
        (below.filter (·.depth = row.depth + 1)).map (·.node) = row.node.origins
  /-- There is one line for the root and one for each origin in the slice. -/
  length : rows.length = 1 + ((slice [root]).map (·.origins.length)).sum

section

variable {made : List (Node V)} (built : Built made) {a : Node V} (ha : a ∈ made)

include built ha

theorem mem_of_mem_rows (limit : Option Nat) : ∀ row ∈ a.rows limit, row.node ∈ made :=
  (nested_rows limit a).mem built fun _ mem => List.mem_singleton.mp mem ▸ ha

/-- A reference is to a node that is written in full above it. -/
theorem references_rows (limit : Option Nat) {before after : List (Row V)} {row : Row V}
    (split : a.rows limit = before ++ row :: after) (again : row.first = false) :
    ∃ full ∈ before, full.first = true ∧ full.ordinal = row.ordinal ∧ full.node = row.node := by
  obtain known | ⟨full, mem, first, ordinal, number⟩ := reference limit [] [(a, 0)] split again
  · cases known
  · have inside := mem_of_mem_rows built ha limit
    rw [split] at inside
    exact ⟨full, mem, first, ordinal, built.unique _ (inside full (by simp [mem])) _
      (inside row (by simp)) number⟩

theorem writesSlice_rows : WritesSlice a (a.rows none) := by
  have nested := nested_rows none a
  have nodes := slice_perm_fullRows a
  have once : (slice [a]).Nodup := (slice_older [a]).imp fun {x y} below same => by
    rw [Older, same] at below
    exact Nat.lt_irrefl _ below
  obtain ⟨below, top⟩ : ∃ below, a.rows none = ⟨a, 0, 1, true⟩ :: below := ⟨_, rowsFrom_of_unseen rfl⟩
  have deeper : ∀ row ∈ below, 0 < row.depth := (top ▸ nested).tail_deeper
  refine ⟨⟨below, top, deeper⟩, ⟨nodes, nodes.nodup_iff.mpr once⟩, ?_, ?_, ?_, ?_, ?_⟩
  · have count := nodes.length_eq
    rw [List.length_map] at count
    rw [← count]
    exact ordinal_fullRows none [] [(a, 0)]
  · intro before row after split again
    exact references_rows built ha none split again
  · intro before row after split behind
    refine (nested.parent split).resolve_left fun root => ?_
    have level := root.1
    obtain ⟨head, before, rfl⟩ := List.exists_cons_of_ne_nil behind
    rw [top] at split
    have := deeper row ((List.cons.inj split).2 ▸ List.mem_append_right _ List.mem_cons_self)
    omega
  · intro before row after split first
    exact nested.children split first
  · have total := (nodes.map fun node => node.origins.length).sum_nat
    rw [← total, List.map_map]
    exact length_rowsFrom [] [(a, 0)]

/-- The loop that writes an outline without a depth limit ends, and it has written the slice: each node
    of it once in full, numbered from top to bottom, and under it its origins in their order, of which
    those that are written in full elsewhere are references to a line above. -/
theorem outline_writes_slice (inspect : V → String) :
    (∃ seen, (outlinePass inspect none)^[(a.rows none).length] ([], [(a, 0)], "") =
      (seen, [], a.outline inspect none)) ∧
    a.outline inspect none = OutlineLine.joined ((a.rows none).map (Row.line inspect)) ∧
    WritesSlice a (a.rows none) := by
  refine ⟨outlinePass_rows inspect none a, ?_, writesSlice_rows built ha⟩
  rw [outline_eq_join, funext (Row.lines_none inspect), List.map_eq_flatMap]

end

namespace Square

theorem outline_writes_slice_area :
    area.outline toString none = "[1] site-4 square = 9\n  [2] <unknown> = 3\n  ^[2]\n" ∧
      ((fullRows (area.rows none)).map (·.node)).Perm (slice [area]) ∧
      (area.rows none).length = 1 + ((slice [area]).map (·.origins.length)).sum := by
  obtain ⟨-, text, writes⟩ := outline_writes_slice built (a := area) (by simp) toString
  have rows : area.rows none = [⟨area, 0, 1, true⟩, ⟨side, 1, 2, true⟩, ⟨side, 1, 2, false⟩] := by
    simp [rows, rowsFrom, ordinal?, originsWithin, area, side]
  refine ⟨?_, writes.nodes.1, writes.length⟩
  rw [text, rows]
  decide

end Square

end Lineage.Node
