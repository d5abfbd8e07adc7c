import Mathlib.Data.List.Nodup
import Std.Data.String.ToNat
import Lineage.Proofs.Node.Isomorphism
import Lineage.Proofs.Node.Slices
import Lineage.Proofs.Numbering

/-!
# What outlines keep

Without a depth limit an outline can be read back: the depth of a line tells whose origin it is, an
ordinal on its own line is that of a node met for the first time, and a reference has the ordinal of the
node it refers to. So graphs with the same outline are isomorphic, and an isomorphism that keeps the
headers keeps the outline. The lines of an outline can be told from its text as long as no label and no
value has a line break.
-/

namespace Lineage.Node

/-! ### Texts of lines -/

theorem replicate_append_inj {α : Type} {a : α} {n m : Nat} {xs ys : List α} (hx : xs.head? ≠ some a)
    (hy : ys.head? ≠ some a) (same : List.replicate n a ++ xs = List.replicate m a ++ ys) :
    n = m ∧ xs = ys := by
  induction n generalizing m with
  | zero =>
    cases m with
    | zero => exact ⟨rfl, same⟩
    | succ m =>
      rw [List.replicate_zero, List.nil_append] at same
      rw [same] at hx
      exact absurd rfl hx
  | succ n ih =>
    cases m with
    | zero =>
      rw [List.replicate_zero, List.nil_append] at same
      rw [← same] at hy
      exact absurd rfl hy
    | succ m =>
      rw [List.replicate_succ, List.replicate_succ, List.cons_append, List.cons_append,
        List.cons.injEq] at same
      obtain ⟨rfl, rest⟩ := ih same.2
      exact ⟨rfl, rest⟩

/-- What stands before the first separator, and what stands behind it. -/
theorem append_cons_inj {α : Type} {sep : α} {xs ys xs' ys' : List α} (hx : sep ∉ xs) (hx' : sep ∉ xs')
    (same : xs ++ sep :: ys = xs' ++ sep :: ys') : xs = xs' ∧ ys = ys' := by
  induction xs generalizing xs' with
  | nil =>
    cases xs' with
    | nil => exact ⟨rfl, (List.cons.inj same).2⟩
    | cons x rest => exact absurd (by simp [(List.cons.inj same).1]) hx'
  | cons x rest ih =>
    cases xs' with
    | nil => exact absurd (by simp [(List.cons.inj same).1]) hx
    | cons x' rest' =>
      obtain ⟨rfl, more⟩ := List.cons.inj same
      obtain ⟨rfl, behind⟩ := ih (List.not_mem_of_not_mem_cons hx) (List.not_mem_of_not_mem_cons hx') more
      exact ⟨rfl, behind⟩

theorem not_mem_toDigits {c : Char} (other : c.isDigit = false) (n : Nat) : c ∉ Nat.toDigits 10 n := by
  intro mem
  have digit := Nat.isDigit_of_mem_toDigits (by decide) (by decide) mem
  rw [other] at digit
  cases digit

theorem toDigits_inj {n m : Nat} (same : Nat.toDigits 10 n = Nat.toDigits 10 m) : n = m := by
  rw [← Nat.toList_repr, ← Nat.toList_repr] at same
  exact Nat.repr_injective (String.toList_inj.mp same)

namespace OutlineLine

/-- The line has no line break, and leaves nothing out. -/
inductive Plain : OutlineLine → Prop
  | full (depth ordinal : Nat) {header : String} (oneLine : '\n' ∉ header.toList) :
      Plain (.full depth ordinal header)
  | back (depth ordinal : Nat) : Plain (.back depth ordinal)

theorem toList_text_full (depth ordinal : Nat) (header : String) :
    (full depth ordinal header).text.toList = List.replicate (2 * depth) ' ' ++
      '[' :: (Nat.toDigits 10 ordinal ++ ']' :: ' ' :: header.toList) := by
  have text : (full depth ordinal header).text =
      indent depth ++ "[" ++ ordinal.repr ++ "] " ++ header := rfl
  rw [text]
  simp [indent]

theorem toList_text_back (depth ordinal : Nat) :
    (back depth ordinal).text.toList = List.replicate (2 * depth) ' ' ++
      '^' :: '[' :: (Nat.toDigits 10 ordinal ++ [']']) := by
  have text : (back depth ordinal).text = indent depth ++ "^[" ++ ordinal.repr ++ "]" := rfl
  rw [text]
  simp [indent]

theorem Plain.newline {line : OutlineLine} (plain : Plain line) : '\n' ∉ line.text.toList := by
  have digits := fun n => not_mem_toDigits (c := '\n') rfl n
  cases plain with
  | full depth ordinal oneLine =>
    rw [toList_text_full]
    simp [digits, oneLine]
  | back depth ordinal =>
    rw [toList_text_back]
    simp [digits]

theorem Plain.text_inj {line other : OutlineLine} (plain : Plain line) (plain' : Plain other)
    (same : line.text = other.text) : line = other := by
  have digits := fun n => not_mem_toDigits (c := ']') rfl n
  replace same := congrArg String.toList same
  cases plain with
  | full depth ordinal =>
    rw [toList_text_full] at same
    cases plain' with
    | full depth' ordinal' =>
      rw [toList_text_full] at same
      obtain ⟨depths, rest⟩ := replicate_append_inj (by simp) (by simp) same
      obtain ⟨ordinals, rest⟩ := append_cons_inj (digits _) (digits _) (List.cons.inj rest).2
      rw [Nat.eq_of_mul_eq_mul_left (by decide) depths, toDigits_inj ordinals,
        String.toList_inj.mp (List.cons.inj rest).2]
    | back depth' ordinal' =>
      rw [toList_text_back] at same
      obtain ⟨-, rest⟩ := replicate_append_inj (by simp) (by simp) same
      exact absurd (List.cons.inj rest).1 (by decide)
  | back depth ordinal =>
    rw [toList_text_back] at same
    cases plain' with
    | full depth' ordinal' =>
      rw [toList_text_full] at same
      obtain ⟨-, rest⟩ := replicate_append_inj (by simp) (by simp) same
      exact absurd (List.cons.inj rest).1 (by decide)
    | back depth' ordinal' =>
      rw [toList_text_back] at same
      obtain ⟨depths, rest⟩ := replicate_append_inj (by simp) (by simp) same
      obtain ⟨ordinals, -⟩ := append_cons_inj (digits _) (digits _)
        (List.cons.inj (List.cons.inj rest).2).2
      rw [Nat.eq_of_mul_eq_mul_left (by decide) depths,
        toDigits_inj ordinals]

/-- The lines are got back from the text they are joined to. -/
theorem eq_of_join {lines others : List OutlineLine} (plain : ∀ line ∈ lines, Plain line)
    (plain' : ∀ line ∈ others, Plain line)
    (same : String.join (lines.map fun line => line.text ++ "\n") =
      String.join (others.map fun line => line.text ++ "\n")) : lines = others := by
  replace same := congrArg String.toList same
  rw [String.toList_join, String.toList_join, List.flatMap_map, List.flatMap_map] at same
  induction lines generalizing others with
  | nil =>
    cases others with
    | nil => rfl
    | cons other rest => simp at same
  | cons line lines ih =>
    cases others with
    | nil => simp at same
    | cons other others =>
      rw [List.flatMap_cons, List.flatMap_cons, String.toList_append, String.toList_append,
        List.append_assoc, List.append_assoc] at same
      have first := plain line List.mem_cons_self
      have first' := plain' other List.mem_cons_self
      obtain ⟨text, rest⟩ := append_cons_inj first.newline first'.newline same
      rw [first.text_inj first' (String.toList_inj.mp text),
        ih (fun line mem => plain line (List.mem_cons_of_mem _ mem))
          (fun line mem => plain' line (List.mem_cons_of_mem _ mem)) rest]

end OutlineLine

variable {V W : Type}

/-! ### Ordinals -/

theorem ordinal?_le {seen : List Nat} {k ordinal : Nat} (known : ordinal? seen k = some ordinal) :
    ordinal ≤ seen.length := by
  induction seen with
  | nil => cases known
  | cons s older ih =>
    rw [ordinal?] at known
    split at known
    · cases known
      exact Nat.le_refl _
    · exact Nat.le_succ_of_le (ih known)

theorem ordinal?_eq_none_iff {seen : List Nat} {k : Nat} : ordinal? seen k = none ↔ k ∉ seen := by
  induction seen with
  | nil => exact ⟨fun _ => List.not_mem_nil, fun _ => rfl⟩
  | cons s older ih =>
    rw [ordinal?, List.mem_cons, not_or, ← ih]
    by_cases same : s = k
    · simp [same]
    · rw [if_neg same]
      exact ⟨fun none => ⟨Ne.symm same, none⟩, And.right⟩

/-- The nodes with one ordinal were seen together. -/
theorem seen_together {seen : List (Node V × Node W)} {j k ordinal : Nat}
    (known : ordinal? (seen.map (·.1.seq)) j = some ordinal)
    (known' : ordinal? (seen.map (·.2.seq)) k = some ordinal) :
    ∃ pair ∈ seen, pair.1.seq = j ∧ pair.2.seq = k := by
  induction seen with
  | nil => cases known
  | cons pair older ih =>
    have bound : ∀ {k}, ordinal? (older.map (·.1.seq)) k = some ordinal → ordinal ≤ older.length :=
      fun known => by simpa using ordinal?_le known
    have bound' : ∀ {k}, ordinal? (older.map (·.2.seq)) k = some ordinal → ordinal ≤ older.length :=
      fun known => by simpa using ordinal?_le known
    rw [List.map_cons, ordinal?, List.length_map] at known known'
    split at known
    · next first =>
      split at known'
      · next second => exact ⟨pair, List.mem_cons_self, first, second⟩
      · have := bound' known'
        cases known
        omega
    · split at known'
      · have := bound known
        cases known'
        omega
      · obtain ⟨earlier, mem, numbers⟩ := ih known known'
        exact ⟨earlier, List.mem_cons_of_mem _ mem, numbers⟩

/-! ### Reading an outline line by line -/

section

variable {inspect : V → String} {seen : List Nat} {work : List (Node V × Nat)}

theorem outlineLines_of_seen {node : Node V} {depth ordinal : Nat} {rest : List (Node V × Nat)}
    (known : ordinal? seen node.seq = some ordinal) :
    outlineLines inspect none seen ((node, depth) :: rest) =
      .back depth ordinal :: outlineLines inspect none seen rest := by
  rw [outlineLines, known]

theorem outlineLines_of_unseen {node : Node V} {depth : Nat} {rest : List (Node V × Nat)}
    (new : ordinal? seen node.seq = none) :
    outlineLines inspect none seen ((node, depth) :: rest) =
      .full depth (seen.length + 1) (node.header inspect) ::
        outlineLines inspect none (node.seq :: seen) (node.origins.map (·, depth + 1) ++ rest) := by
  rw [outlineLines, new]
  cases origins : node.origins with
  | nil => simp
  | cons origin others => simp

theorem outlineLines_eq_nil (none : outlineLines inspect none seen work = []) : work = [] := by
  cases work with
  | nil => rfl
  | cons item rest =>
    cases known : ordinal? seen item.1.seq with
    | none =>
      rw [outlineLines_of_unseen known] at none
      cases none
    | some ordinal =>
      rw [outlineLines_of_seen known] at none
      cases none

/-- The first line is about the first pending node: a reference if the node has been seen, else the node
    itself, whose origins are pending from then on. -/
theorem outlineLines_eq_cons {line : OutlineLine} {lines : List OutlineLine}
    (reads : outlineLines inspect none seen work = line :: lines) :
    ∃ node depth rest, work = (node, depth) :: rest ∧
      ((∃ ordinal, ordinal? seen node.seq = some ordinal ∧ line = .back depth ordinal ∧
        outlineLines inspect none seen rest = lines) ∨
      ordinal? seen node.seq = none ∧
        line = .full depth (seen.length + 1) (node.header inspect) ∧
        outlineLines inspect none (node.seq :: seen) (node.origins.map (·, depth + 1) ++ rest) =
          lines) := by
  cases work with
  | nil =>
    rw [outlineLines] at reads
    cases reads
  | cons item rest =>
    refine ⟨item.1, item.2, rest, rfl, ?_⟩
    cases known : ordinal? seen item.1.seq with
    | none =>
      rw [outlineLines_of_unseen known] at reads
      obtain ⟨rfl, more⟩ := List.cons.inj reads
      exact .inr ⟨rfl, rfl, more⟩
    | some ordinal =>
      rw [outlineLines_of_seen known] at reads
      obtain ⟨rfl, more⟩ := List.cons.inj reads
      exact .inl ⟨ordinal, rfl, rfl, more⟩

end

/-! ### Pending nodes -/

section

variable (node : Node V) (depth : Nat) (rest : List (Node V × Nat))

theorem nodes_expand : (node.origins.map (·, depth + 1) ++ rest).map Prod.fst =
    node.origins ++ rest.map Prod.fst := by
  rw [List.map_append, List.map_map]
  exact congrArg (· ++ _) (List.map_id _)

theorem depths_expand : (node.origins.map (·, depth + 1) ++ rest).map Prod.snd =
    List.replicate node.origins.length (depth + 1) ++ rest.map Prod.snd := by
  rw [List.map_append, List.map_map]
  exact congrArg (· ++ _) List.map_const'

theorem inside_expand {made : List (Node V)} (built : Built made) (mem : node ∈ made)
    (others : ∀ a ∈ rest.map Prod.fst, a ∈ made) :
    ∀ a ∈ (node.origins.map (·, depth + 1) ++ rest).map Prod.fst, a ∈ made := by
  rw [nodes_expand]
  exact List.forall_mem_append.mpr ⟨built.origin_mem node mem, others⟩

/-- Nodes are put before those that are less deep. -/
theorem descending_expand (descending : (depth :: rest.map Prod.snd).Pairwise (· ≥ ·)) :
    ((node.origins.map (·, depth + 1) ++ rest).map Prod.snd).Pairwise (· ≥ ·) := by
  obtain ⟨below, others⟩ := List.pairwise_cons.mp descending
  rw [depths_expand]
  refine List.pairwise_append.mpr ⟨List.pairwise_replicate.mpr (.inr (Nat.le_refl _)), others, ?_⟩
  intro first mem other there
  rw [List.eq_of_mem_replicate mem]
  exact Nat.le_succ_of_le (below other there)

/-- The origins of a node can be told from the pending nodes behind them by their depth. -/
theorem replicate_depth_inj {depth n m : Nat} {depths depths' : List Nat}
    (descending : (depth :: depths).Pairwise (· ≥ ·)) (descending' : (depth :: depths').Pairwise (· ≥ ·))
    (same : List.replicate n (depth + 1) ++ depths = List.replicate m (depth + 1) ++ depths') :
    n = m ∧ depths = depths' := by
  have less : ∀ {depths : List Nat}, (depth :: depths).Pairwise (· ≥ ·) →
      depths.head? ≠ some (depth + 1) := by
    intro depths descending first
    have := (List.pairwise_cons.mp descending).1 _ (List.mem_of_head? first)
    omega
  exact replicate_append_inj (less descending) (less descending') same

end

/-! ### One outline of two graphs -/

/-- Nodes of two graphs in pairs, none of them twice. -/
structure Pairing (made : List (Node V)) (made' : List (Node W)) (pairs : List (Node V × Node W)) :
    Prop where
  left : ∀ pair ∈ pairs, pair.1 ∈ made
  right : ∀ pair ∈ pairs, pair.2 ∈ made'
  leftOnce : (pairs.map (·.1.seq)).Nodup
  rightOnce : (pairs.map (·.2.seq)).Nodup

namespace Pairing

variable {made : List (Node V)} {made' : List (Node W)} {pairs : List (Node V × Node W)}

theorem nil : Pairing made made' [] where
  left := by simp
  right := by simp
  leftOnce := List.nodup_nil
  rightOnce := List.nodup_nil

theorem cons (pairing : Pairing made made' pairs) {a : Node V} {b : Node W} (ha : a ∈ made)
    (hb : b ∈ made') (newA : a.seq ∉ pairs.map (·.1.seq)) (newB : b.seq ∉ pairs.map (·.2.seq)) :
    Pairing made made' ((a, b) :: pairs) where
  left := List.forall_mem_cons.mpr ⟨ha, pairing.left⟩
  right := List.forall_mem_cons.mpr ⟨hb, pairing.right⟩
  leftOnce := List.nodup_cons.mpr ⟨newA, pairing.leftOnce⟩
  rightOnce := List.nodup_cons.mpr ⟨newB, pairing.rightOnce⟩

theorem biUnique (pairing : Pairing made made' pairs) :
    Relator.BiUnique fun a b => (a, b) ∈ pairs := by
  constructor
  · intro a b c first second
    exact congrArg Prod.fst (List.inj_on_of_nodup_map pairing.rightOnce first second rfl)
  · intro a b c first second
    exact congrArg Prod.snd (List.inj_on_of_nodup_map pairing.leftOnce first second rfl)

end Pairing

section

variable {made : List (Node V)} {made' : List (Node W)} (built : Built made) (built' : Built made')
  {inspect : V → String} {inspect' : W → String}

include built built'

/-- Pending nodes that give the same lines, after nodes that were seen in pairs, are as deep and as many,
    and they are paired along with everything below them. The induction is on the lines. -/
theorem pairing_of_outlineLines {lines : List OutlineLine} {seen : List (Node V × Node W)}
    {work : List (Node V × Nat)} {work' : List (Node W × Nat)} (pairing : Pairing made made' seen)
    (inside : ∀ a ∈ work.map Prod.fst, a ∈ made) (inside' : ∀ b ∈ work'.map Prod.fst, b ∈ made')
    (descending : (work.map Prod.snd).Pairwise (· ≥ ·))
    (descending' : (work'.map Prod.snd).Pairwise (· ≥ ·))
    (reads : outlineLines inspect none (seen.map (·.1.seq)) work = lines)
    (reads' : outlineLines inspect' none (seen.map (·.2.seq)) work' = lines) :
    work.map Prod.snd = work'.map Prod.snd ∧
      ∃ pairs, Pairing made made' pairs ∧ seen ⊆ pairs ∧
        List.Forall₂ (fun a b => (a, b) ∈ pairs) (work.map Prod.fst) (work'.map Prod.fst) ∧
        ∀ pair ∈ pairs, pair ∈ seen ∨ pair.2.header inspect' = pair.1.header inspect ∧
          List.Forall₂ (fun a b => (a, b) ∈ pairs) pair.1.origins pair.2.origins := by
  induction lines generalizing seen work work' with
  | nil =>
    rw [outlineLines_eq_nil reads, outlineLines_eq_nil reads']
    exact ⟨rfl, seen, pairing, List.Subset.refl seen, .nil, fun pair mem => .inl mem⟩
  | cons line lines ih =>
    obtain ⟨a, depth, rest, rfl, first⟩ := outlineLines_eq_cons reads
    obtain ⟨b, depth', rest', rfl, first'⟩ := outlineLines_eq_cons reads'
    rw [List.map_cons, List.forall_mem_cons] at inside inside'
    rw [List.map_cons] at descending descending'
    rcases first with ⟨ordinal, known, rfl, more⟩ | ⟨new, rfl, more⟩
    · rcases first' with ⟨ordinal', known', same, more'⟩ | ⟨-, same, -⟩
      · obtain ⟨rfl, rfl⟩ := OutlineLine.back.inj same
        obtain ⟨depths, pairs, paired, keeps, others, below⟩ := ih pairing inside.2 inside'.2
          descending.of_cons descending'.of_cons more more'
        obtain ⟨pair, mem, left, right⟩ := seen_together known known'
        have again : (a, b) ∈ pairs := by
          rw [← built.unique _ (pairing.left pair mem) a inside.1 left,
            ← built'.unique _ (pairing.right pair mem) b inside'.1 right]
          exact keeps mem
        refine ⟨congrArg (depth :: ·) depths, pairs, paired, keeps, ?_, below⟩
        exact .cons again others
      · cases same
    · rcases first' with ⟨ordinal', -, same, -⟩ | ⟨new', same, more'⟩
      · cases same
      · obtain ⟨rfl, -, header⟩ := OutlineLine.full.inj same
        rw [ordinal?_eq_none_iff] at new new'
        obtain ⟨depths, pairs, paired, keeps, all, below⟩ :=
          ih (pairing.cons inside.1 inside'.1 new new')
            (inside_expand a depth rest built inside.1 inside.2)
            (inside_expand b depth rest' built' inside'.1 inside'.2)
            (descending_expand a depth rest descending)
            (descending_expand b depth rest' descending') more more'
        rw [nodes_expand, nodes_expand] at all
        rw [depths_expand, depths_expand] at depths
        obtain ⟨count, depths⟩ := replicate_depth_inj descending descending' depths
        have origins := List.forall₂_take_append _ _ _ all
        have others := List.forall₂_drop_append _ _ _ all
        rw [← count, List.take_left] at origins
        rw [← count, List.drop_left] at others
        have both : (a, b) ∈ pairs := keeps List.mem_cons_self
        refine ⟨congrArg (depth :: ·) depths, pairs, paired,
          fun pair mem => keeps (List.mem_cons_of_mem _ mem), .cons both others, fun pair mem => ?_⟩
        rcases below pair mem with before | good
        · rcases List.mem_cons.mp before with rfl | before
          · exact .inr ⟨header.symm, origins⟩
          · exact .inl before
        · exact .inr good

end

/-- Neither the label nor the text of the value has a line break. -/
structure OneLine (inspect : V → String) (node : Node V) : Prop where
  label : ∀ creator, node.creator = some creator → '\n' ∉ creator.label.toList
  value : ∀ v, node.value = some v → '\n' ∉ (inspect v).toList

theorem OneLine.header {inspect : V → String} {node : Node V} (oneLine : node.OneLine inspect) :
    '\n' ∉ (node.header inspect).toList := by
  have digits := fun n => not_mem_toDigits (c := '\n') rfl n
  have creator : '\n' ∉ node.creatorText.toList := by
    rw [creatorText]
    cases known : node.creator with
    | none => decide
    | some creator =>
      have label := oneLine.label creator known
      have site : creator.text = "site-" ++ creator.site.number.repr ++ " " ++ creator.label := rfl
      rw [Option.map_some, Option.getD_some, site]
      simp [digits, label]
  have value : '\n' ∉ (node.valueText inspect).toList := by
    rw [valueText]
    cases known : node.value with
    | none => exact (by decide : '\n' ∉ "<unknown>".toList)
    | some v => exact oneLine.value v known
  rw [Node.header]
  simp [creator, value]

/-- The lines are about the pending nodes and those below them. -/
theorem plain_of_outlineLines {inspect : V → String} {lines : List OutlineLine} {seen : List Nat}
    {work : List (Node V × Nat)} (oneLine : ∀ a, Reached (work.map Prod.fst) a → a.OneLine inspect)
    (reads : outlineLines inspect none seen work = lines) : ∀ line ∈ lines, line.Plain := by
  induction lines generalizing seen work with
  | nil => simp
  | cons line lines ih =>
    obtain ⟨node, depth, rest, rfl, first⟩ := outlineLines_eq_cons reads
    rw [List.map_cons] at oneLine
    refine List.forall_mem_cons.mpr ?_
    rcases first with ⟨ordinal, -, rfl, more⟩ | ⟨-, rfl, more⟩
    · refine ⟨.back depth ordinal, ih (fun a reached => oneLine a ?_) more⟩
      exact reached.mono fun b mem => .root (List.mem_cons_of_mem _ mem)
    · refine ⟨.full depth _ (oneLine node (.root List.mem_cons_self)).header,
        ih (fun a reached => oneLine a ?_) more⟩
      rw [nodes_expand] at reached
      refine reached.mono fun b mem => ?_
      rcases List.mem_append.mp mem with used | mem
      · exact .origin (.root List.mem_cons_self) used
      · exact .root (List.mem_cons_of_mem _ mem)

section

variable {made : List (Node V)} {made' : List (Node W)} (built : Built made) (built' : Built made')
  {inspect : V → String} {inspect' : W → String}

include built built'

/-- An isomorphism that keeps the headers takes pending nodes to nodes with the same lines. -/
theorem outlineLines_of_isomorphism {f : Node V → Node W} {as : List (Node V)} {bs : List (Node W)}
    (inside : ∀ a ∈ as, a ∈ made) (inside' : ∀ b ∈ bs, b ∈ made') (iso : Isomorphism f as bs)
    (headers : ∀ a, Reached as a → (f a).header inspect' = a.header inspect) {lines : List OutlineLine}
    {seen : List (Node V)} (before : ∀ a ∈ seen, Reached as a) {work : List (Node V × Nat)}
    (pending : ∀ item ∈ work, Reached as item.1)
    (reads : outlineLines inspect none (seen.map (·.seq)) work = lines) :
    outlineLines inspect' none (seen.map fun a => (f a).seq) (work.map (Prod.map f id)) = lines := by
  have number : ∀ a, Reached as a → ∀ b, Reached as b → ((f a).seq = (f b).seq ↔ a.seq = b.seq) := by
    intro a ha b hb
    constructor
    · intro same
      have := built'.unique _ (Reached.mem built' inside' (iso.bijective.mapsTo ha)) _
        (Reached.mem built' inside' (iso.bijective.mapsTo hb)) same
      rw [iso.bijective.injOn ha hb this]
    · intro same
      rw [built.unique a (Reached.mem built inside ha) b (Reached.mem built inside hb) same]
  induction lines generalizing seen work with
  | nil =>
    rw [outlineLines_eq_nil reads, List.map_nil, outlineLines]
  | cons line lines ih =>
    obtain ⟨node, depth, rest, rfl, first⟩ := outlineLines_eq_cons reads
    rw [List.forall_mem_cons] at pending
    have ordinals : ordinal? (seen.map fun a => (f a).seq) (f node).seq =
        ordinal? (seen.map (·.seq)) node.seq :=
      ordinal?_congr fun s mem => number s (before s mem) node pending.1
    rw [List.map_cons, Prod.map_apply, id]
    rcases first with ⟨ordinal, known, rfl, more⟩ | ⟨new, rfl, more⟩
    · rw [outlineLines_of_seen (ordinals.trans known), ih before pending.2 more]
    · have origins : ∀ item ∈ node.origins.map (·, depth + 1) ++ rest, Reached as item.1 := by
        refine List.forall_mem_append.mpr ⟨List.forall_mem_map.mpr fun o used => ?_, pending.2⟩
        exact .origin pending.1 used
      have known : ∀ a ∈ node :: seen, Reached as a := List.forall_mem_cons.mpr ⟨pending.1, before⟩
      have next := ih known origins more
      rw [List.map_append, List.map_map, List.map_cons] at next
      rw [outlineLines_of_unseen (ordinals.trans new), headers node pending.1,
        iso.origins node pending.1, List.map_map, List.length_map, List.length_map]
      exact congrArg _ next

/-- The outline of a node without line breaks in it has all of the graph below the node but the numbers:
    the origins of each node in their order, which of them are one node, and the headers. And it has
    nothing else. -/
theorem outline_faithful {a : Node V} (ha : a ∈ made) {b : Node W} (hb : b ∈ made') :
    ((∀ x, Reached [a] x → x.OneLine inspect) → (∀ y, Reached [b] y → y.OneLine inspect') →
      a.outline inspect none = b.outline inspect' none →
      ∃ f, Isomorphism f [a] [b] ∧ ∀ x, Reached [a] x → (f x).header inspect' = x.header inspect) ∧
    ∀ f, Isomorphism f [a] [b] →
      (∀ x, Reached [a] x → (f x).header inspect' = x.header inspect) →
      a.outline inspect none = b.outline inspect' none := by
  have inside : ∀ x ∈ [a], x ∈ made := fun x mem => List.mem_singleton.mp mem ▸ ha
  have inside' : ∀ y ∈ [b], y ∈ made' := fun y mem => List.mem_singleton.mp mem ▸ hb
  constructor
  · intro oneLine oneLine' same
    have lines : outlineLines inspect none [] [(a, 0)] = outlineLines inspect' none [] [(b, 0)] :=
      OutlineLine.eq_of_join (plain_of_outlineLines oneLine rfl) (plain_of_outlineLines oneLine' rfl) same
    have nodes : ∀ x ∈ [(a, 0)].map Prod.fst, x ∈ made := inside
    have nodes' : ∀ y ∈ [(b, 0)].map Prod.fst, y ∈ made' := inside'
    obtain ⟨-, pairs, pairing, -, roots, below⟩ := pairing_of_outlineLines built built' .nil
      nodes nodes' (List.pairwise_singleton _ _) (List.pairwise_singleton _ _) lines rfl
    have each := fun a b (mem : (a, b) ∈ pairs) => (below (a, b) mem).resolve_left List.not_mem_nil
    obtain ⟨iso, paired⟩ := isomorphism_partner pairing.biUnique roots fun a b mem => (each a b mem).2
    exact ⟨_, iso, fun x reached => (each x _ (paired x reached)).1⟩
  · intro f iso headers
    have image : f a = b := (List.cons.inj iso.roots).1
    have root : ∀ item ∈ [(a, 0)], Reached [a] item.1 := by simpa using .root List.mem_cons_self
    have lines := outlineLines_of_isomorphism built built' inside inside' iso headers
      (List.forall_mem_nil _) root rfl
    rw [List.map_singleton, Prod.map_apply, image] at lines
    rw [outline, outline]
    exact congrArg (fun lines : List OutlineLine =>
      String.join (lines.map fun line => line.text ++ "\n")) lines.symm

end

/-! ### Two graphs with one outline -/

namespace Square

def side : Node Nat := ⟨1, none, some 3, []⟩

def area : Node Nat := ⟨2, some ⟨⟨4⟩, "square"⟩, some 9, [side, side]⟩

/-- The same in another run, where values are texts. -/
def otherSide : Node String := ⟨6, none, some "3", []⟩

def otherArea : Node String := ⟨8, some ⟨⟨4⟩, "square"⟩, some "9", [otherSide, otherSide]⟩

theorem built : Built [area, side] := by
  refine .cons (.cons .nil ?_ ?_) ?_ ?_ <;> simp [area, side]

theorem otherBuilt : Built [otherArea, otherSide] := by
  refine .cons (.cons .nil ?_ ?_) ?_ ?_ <;> simp [otherArea, otherSide]

def move (node : Node Nat) : Node String := if node.seq = 1 then otherSide else otherArea

theorem reached_area {x : Node Nat} (h : Reached [area] x) : x = area ∨ x = side := by
  have mem : x ∈ [area, side] := h.mem built (by simp)
  simpa using mem

theorem outline_faithful_area :
    area.outline toString none = otherArea.outline id none ∧
      ∃ f, Isomorphism f [area] [otherArea] := by
  have faithful := @outline_faithful _ _ _ _ built otherBuilt toString id area (by simp) otherArea
    (by simp)
  have iso : Isomorphism move [area] [otherArea] := by
    refine .of_injOn ?_ rfl ?_
    · intro x hx y hy same
      rcases reached_area hx with rfl | rfl <;> rcases reached_area hy with rfl | rfl
      · rfl
      · exact absurd (congrArg seq same) (by decide)
      · exact absurd (congrArg seq same) (by decide)
      · rfl
    · intro x hx
      rcases reached_area hx with rfl | rfl <;> rfl
  have same := faithful.2 move iso fun x hx => by
    rcases reached_area hx with rfl | rfl <;> decide
  have oneLine : ∀ x, Reached [area] x → x.OneLine toString := by
    intro x hx
    rcases reached_area hx with rfl | rfl
    · exact ⟨by simp [area], by simp [area]; decide⟩
    · exact ⟨by simp [side], by simp [side]; decide⟩
  have otherLine : ∀ y, Reached [otherArea] y → y.OneLine id := by
    intro y hy
    have mem : y ∈ [otherArea, otherSide] := hy.mem otherBuilt (by simp)
    rcases List.mem_pair.mp mem with rfl | rfl
    · exact ⟨by simp [otherArea], by simp [otherArea]⟩
    · exact ⟨by simp [otherSide], by simp [otherSide]⟩
  obtain ⟨f, found, -⟩ := faithful.1 oneLine otherLine same
  exact ⟨same, f, found⟩

end Square

end Lineage.Node
