import Lineage.Node.Snapshot
import Lineage.Proofs.Node.Isomorphism
import Lineage.Proofs.Node.Slices

/-!
# What snapshots keep

A snapshot has one entry for each node that is reached, those of its origins before it. So a graph can
be put together again from the entries (`Snapshot.restore`), with the texts of the values in the place
of the values, and graphs with the same snapshot are isomorphic.
-/

namespace Lineage

namespace Node

variable {V : Type}

mutual

/-- The node, every value in it replaced by its text. -/
def shown (inspect : V → String) : Node V → Node String
  | ⟨seq, creator, value, origins⟩ => ⟨seq, creator, value.map inspect, shownAll inspect origins⟩

def shownAll (inspect : V → String) : List (Node V) → List (Node String)
  | [] => []
  | node :: rest => node.shown inspect :: shownAll inspect rest

end

theorem shownAll_eq (inspect : V → String) (nodes : List (Node V)) :
    shownAll inspect nodes = nodes.map (shown inspect) := by
  induction nodes with
  | nil => rfl
  | cons node rest ih => rw [shownAll, ih, List.map_cons]

theorem shown_eq (inspect : V → String) (node : Node V) : node.shown inspect =
    ⟨node.seq, node.creator, node.value.map inspect, node.origins.map (shown inspect)⟩ := by
  cases node
  rw [shown, shownAll_eq]

@[simp]
theorem seq_shown (inspect : V → String) (node : Node V) : (node.shown inspect).seq = node.seq := by
  rw [shown_eq]

/-- What `inspect` does not tell apart does not matter for the shape of a graph. -/
theorem isomorphism_shown {made : List (Node V)} (built : Built made) (inspect : V → String)
    {roots : List (Node V)} (inside : ∀ root ∈ roots, root ∈ made) :
    Isomorphism (shown inspect) roots (roots.map (shown inspect)) := by
  refine .of_injOn ?_ rfl fun a _ => by rw [shown_eq]
  intro a reached b reached' same
  have number := congrArg seq same
  rw [seq_shown, seq_shown] at number
  exact built.unique a (Reached.mem built inside reached) b (Reached.mem built inside reached') number

/-- Graphs that show the same are isomorphic. -/
theorem isomorphic_of_shown {W : Type} {made : List (Node V)} {made' : List (Node W)}
    (built : Built made) (built' : Built made') {inspect : V → String} {inspect' : W → String}
    {roots : List (Node V)} {roots' : List (Node W)} (inside : ∀ root ∈ roots, root ∈ made)
    (inside' : ∀ root ∈ roots', root ∈ made')
    (same : roots.map (shown inspect) = roots'.map (shown inspect')) :
    ∃ f, Isomorphism f roots roots' ∧
      ∀ a, Reached roots a → (f a).shown inspect' = a.shown inspect := by
  let R : Node V → Node W → Prop := fun a b =>
    a ∈ made ∧ b ∈ made' ∧ a.shown inspect = b.shown inspect'
  have number : ∀ {a b}, R a b → a.seq = b.seq := by
    intro a b paired
    have := congrArg seq paired.2.2
    rwa [seq_shown, seq_shown] at this
  have unique : Relator.BiUnique R := by
    constructor
    · intro a b c first second
      exact built.unique a first.1 b second.1 ((number first).trans (number second).symm)
    · intro a b c first second
      exact built'.unique b first.2.1 c second.2.1 ((number first).symm.trans (number second))
  have each : ∀ {as : List (Node V)} {bs : List (Node W)}, (∀ a ∈ as, a ∈ made) →
      (∀ b ∈ bs, b ∈ made') → as.map (shown inspect) = bs.map (shown inspect') →
      List.Forall₂ R as bs := by
    intro as bs inA inB same
    rw [← List.forall₂_eq_eq_eq, List.forall₂_map_left_iff, List.forall₂_map_right_iff] at same
    rw [List.forall₂_iff_zip] at same ⊢
    refine ⟨same.1, fun {a b} mem => ?_⟩
    exact ⟨inA a (List.of_mem_zip mem).1, inB b (List.of_mem_zip mem).2, same.2 mem⟩
  obtain ⟨iso, paired⟩ := isomorphism_partner unique (each inside inside' same) fun a b paired => by
    have origins := congrArg origins paired.2.2
    rw [shown_eq, shown_eq] at origins
    exact each (built.origin_mem a paired.1) (built'.origin_mem b paired.2.1) origins
  exact ⟨partner R, iso, fun a reached => (paired a reached).2.2.symm⟩

end Node

namespace Snapshot

/-! ### Putting a graph together from a snapshot -/

/-- The nodes with these numbers. -/
def pick (made : List (Node String)) (numbers : List Nat) : List (Node String) :=
  numbers.filterMap fun k => made.find? (·.seq = k)

namespace Entry

/-- The node of an entry, its origins being `made`. -/
def toNode (made : List (Node String)) (entry : Entry) : Node String :=
  { seq := entry.seq
    creator := entry.site.map fun number => ⟨⟨number⟩, entry.label⟩
    value := entry.value
    origins := pick made entry.origins }

theorem toNode_ofNode {V : Type} {inspect : V → String} {node : Node V} {made : List (Node String)}
    (origins : pick made (node.origins.map (·.seq)) = node.origins.map (Node.shown inspect)) :
    (ofNode inspect node).toNode made = node.shown inspect := by
  rw [Node.shown_eq, ← origins]
  obtain ⟨seq, creator, value, origins⟩ := node
  cases creator <;> rfl

end Entry

/-- The nodes of some entries, the latest first, after those that have been `made`. -/
def restoreFrom (made : List (Node String)) : List Entry → List (Node String)
  | [] => made
  | entry :: rest => restoreFrom (entry.toNode made :: made) rest

/-- The roots of the graph a snapshot was taken of. -/
def restore (s : Snapshot) : List (Node String) := pick (restoreFrom [] s.entries) s.roots

section

variable {V : Type} {made roots : List (Node V)} (built : Node.Built made)
  (inside : ∀ root ∈ roots, root ∈ made) (inspect : V → String)

include built

/-- What is kept of some nodes is found by the number of the node. -/
theorem find?_seq {α : Type} {f : Node V → α} (number : α → Nat) (keeps : ∀ a, number (f a) = a.seq)
    {nodes : List (Node V)} (within : ∀ a ∈ nodes, a ∈ made) {a : Node V} (mem : a ∈ nodes) :
    (nodes.map f).find? (number · = a.seq) = some (f a) := by
  cases found : (nodes.map f).find? (number · = a.seq) with
  | none =>
    have none := List.find?_eq_none.mp found _ (List.mem_map_of_mem mem)
    simp [keeps] at none
  | some x =>
    obtain ⟨b, there, rfl⟩ := List.mem_map.mp (List.mem_of_find?_eq_some found)
    have same := List.find?_some found
    simp only [keeps, decide_eq_true_eq] at same
    rw [built.unique b (within b there) a (within a mem) same]

theorem pick_shown {nodes : List (Node V)} (within : ∀ a ∈ nodes, a ∈ made) {chosen : List (Node V)}
    (there : ∀ a ∈ chosen, a ∈ nodes) : pick (nodes.map (Node.shown inspect)) (chosen.map (·.seq)) =
      chosen.map (Node.shown inspect) := by
  induction chosen with
  | nil => rfl
  | cons a rest ih =>
    have first := find?_seq built Node.seq (Node.seq_shown inspect) within
      (there a List.mem_cons_self)
    rw [pick, List.map_cons, List.filterMap_cons, first, List.map_cons]
    exact congrArg _ (ih fun b mem => there b (List.mem_cons_of_mem _ mem))

include inside

/-- The entries that are left of a slice give the nodes that are left. -/
theorem restoreFrom_shown {before after : List (Node V)} (split : Node.slice roots = before ++ after) :
    restoreFrom (before.reverse.map (Node.shown inspect)) (after.map (Entry.ofNode inspect)) =
      (Node.slice roots).reverse.map (Node.shown inspect) := by
  induction after generalizing before with
  | nil => rw [split, List.append_nil, List.map_nil, restoreFrom]
  | cons a after ih =>
    have member := Node.mem_slice_built built inside
    have within : ∀ b ∈ before.reverse, b ∈ made := fun b mem =>
      ((member b).mp (by simp [split, List.mem_reverse.mp mem])).mem built inside
    have origins : ∀ o ∈ a.origins, o ∈ before.reverse := fun o used =>
      List.mem_reverse.mpr (Node.origin_before built inside split used)
    have node : (Entry.ofNode inspect a).toNode (before.reverse.map (Node.shown inspect)) =
        a.shown inspect :=
      Entry.toNode_ofNode (pick_shown built inspect within origins)
    have further : Node.slice roots = (before ++ [a]) ++ after := by
      rw [split, List.append_assoc, List.singleton_append]
    have next := ih further
    rw [List.reverse_append, List.reverse_singleton, List.singleton_append, List.map_cons] at next
    rw [List.map_cons, restoreFrom, node, next]

/-- The graph is got back from its snapshot. -/
theorem restore_ofRoots : (ofRoots inspect roots).restore = roots.map (Node.shown inspect) := by
  have member := Node.mem_slice_built built inside
  have nodes := restoreFrom_shown built inside inspect (List.nil_append (Node.slice roots)).symm
  rw [restore, ofRoots]
  refine (congrArg (pick · _) nodes).trans (pick_shown built inspect ?_ ?_)
  · intro a mem
    exact ((member a).mp (List.mem_reverse.mp mem)).mem built inside
  · intro a mem
    exact List.mem_reverse.mpr ((member a).mpr (.root mem))

/-! ### Entries by number -/

/-- Each node that is reached has one entry. -/
theorem countP_seq {a : Node V} (reached : Node.Reached roots a) :
    (ofRoots inspect roots).entries.countP (·.seq = a.seq) = 1 := by
  have numbers : ((Node.slice roots).map (·.seq)).Nodup :=
    List.pairwise_map.mpr ((Node.slice_older roots).imp fun below => Nat.ne_of_lt below)
  have there : a.seq ∈ (Node.slice roots).map (·.seq) :=
    List.mem_map_of_mem ((Node.mem_slice_iff built.told inside).mpr reached)
  have once := List.count_eq_one_of_mem numbers there
  rw [List.count, List.countP_map] at once
  rw [ofRoots, List.countP_map]
  exact once

theorem entry?_seq {a : Node V} (reached : Node.Reached roots a) :
    Snapshot.entry? (ofRoots inspect roots) a.seq = some (.ofNode inspect a) := by
  have member := Node.mem_slice_built built inside
  exact find?_seq built Entry.seq (fun _ => rfl)
    (fun b mem => ((member b).mp mem).mem built inside) ((member a).mpr reached)

/-- The numbers a snapshot has as links are those of nodes that are reached. -/
theorem reached_of_link {k : Nat} (link : k ∈ (ofRoots inspect roots).roots ∨
    ∃ entry ∈ (ofRoots inspect roots).entries, k ∈ entry.origins) :
    ∃ a, Node.Reached roots a ∧ a.seq = k := by
  rcases link with root | ⟨entry, there, origin⟩
  · obtain ⟨a, mem, rfl⟩ := List.mem_map.mp root
    exact ⟨a, .root mem, rfl⟩
  · obtain ⟨a, mem, rfl⟩ := List.mem_map.mp there
    obtain ⟨o, used, rfl⟩ := List.mem_map.mp origin
    exact ⟨o, .origin ((Node.mem_slice_iff built.told inside).mp mem) used, rfl⟩

/-- The links of an entry go to earlier ones. -/
theorem origin_before {before after : List Entry} {entry : Entry}
    (split : (ofRoots inspect roots).entries = before ++ entry :: after) {k : Nat}
    (link : k ∈ entry.origins) : ∃ earlier ∈ before, earlier.seq = k := by
  obtain ⟨first, rest, nodes, rfl, others⟩ := List.map_eq_append_iff.mp split
  obtain ⟨a, last, rfl, rfl, -⟩ := List.map_eq_cons_iff.mp others
  obtain ⟨o, used, rfl⟩ := List.mem_map.mp link
  exact ⟨_, List.mem_map_of_mem (Node.origin_before built inside nodes used), rfl⟩

theorem exists_entry_iff {k : Nat} :
    (∃ entry, Snapshot.entry? (ofRoots inspect roots) k = some entry) ↔
      ∃ a, Node.Reached roots a ∧ a.seq = k := by
  constructor
  · rintro ⟨entry, found⟩
    have number := List.find?_some found
    obtain ⟨a, mem, rfl⟩ := List.mem_map.mp (List.mem_of_find?_eq_some found)
    exact ⟨a, (Node.mem_slice_built built inside a).mp mem, of_decide_eq_true number⟩
  · rintro ⟨a, reached, rfl⟩
    exact ⟨_, entry?_seq built inside inspect reached⟩

omit built inside in
theorem site_none_iff {node : Node V} :
    (Entry.ofNode inspect node).site = none ↔ node.creator = none := Option.map_eq_none_iff

omit built inside in
theorem value_none_iff {node : Node V} :
    (Entry.ofNode inspect node).value = none ↔ node.value = none := Option.map_eq_none_iff

end

/-- A snapshot is closed: what it links to is one of its entries, and an earlier one. It has the entries
    of the nodes that are reached, an unknown creator or value being told from one that reads so. And
    nothing else is lost but what `inspect` leaves out of the values: the graph can be put together
    again, and graphs with one snapshot are isomorphic. -/
theorem closed_and_lossless {V : Type} (inspect : V → String) {made : List (Node V)}
    (built : Node.Built made) {roots : List (Node V)} (inside : ∀ root ∈ roots, root ∈ made) :
    (∀ k, (k ∈ (ofRoots inspect roots).roots ∨
        ∃ entry ∈ (ofRoots inspect roots).entries, k ∈ entry.origins) →
      (ofRoots inspect roots).entries.countP (·.seq = k) = 1) ∧
    (∀ before entry after, (ofRoots inspect roots).entries = before ++ entry :: after →
      ∀ k ∈ entry.origins, ∃ earlier ∈ before, earlier.seq = k) ∧
    (∀ k, (∃ entry, Snapshot.entry? (ofRoots inspect roots) k = some entry) ↔
      ∃ a, Node.Reached roots a ∧ a.seq = k) ∧
    (∀ a, Node.Reached roots a →
      Snapshot.entry? (ofRoots inspect roots) a.seq = some
        { seq := a.seq
          site := a.creator.map (·.site.number)
          label := (a.creator.map (·.label)).getD "<unknown>"
          value := a.value.map inspect
          origins := a.origins.map (·.seq) } ∧
      ∀ entry, Snapshot.entry? (ofRoots inspect roots) a.seq = some entry →
        (entry.site = none ↔ a.creator = none) ∧ (entry.value = none ↔ a.value = none)) ∧
    (∃ f, Node.Isomorphism f roots (ofRoots inspect roots).restore ∧
      ∀ a, Node.Reached roots a →
        (f a).seq = a.seq ∧ (f a).creator = a.creator ∧ (f a).value = a.value.map inspect) ∧
    ∀ {W : Type} (inspect' : W → String) {made' : List (Node W)}, Node.Built made' →
      ∀ {roots' : List (Node W)}, (∀ root ∈ roots', root ∈ made') →
        ofRoots inspect' roots' = ofRoots inspect roots →
        ∃ f, Node.Isomorphism f roots roots' ∧ ∀ a, Node.Reached roots a →
          (f a).creator = a.creator ∧ (f a).value.map inspect' = a.value.map inspect := by
  refine ⟨?_, ?_, ?_, ?_, ?_, ?_⟩
  · intro k link
    obtain ⟨a, reached, rfl⟩ := reached_of_link built inside inspect link
    exact countP_seq built inside inspect reached
  · intro before entry after split k link
    exact origin_before built inside inspect split link
  · intro k
    exact exists_entry_iff built inside inspect
  · intro a reached
    have found := entry?_seq built inside inspect reached
    refine ⟨found, fun entry there => ?_⟩
    rw [found, Option.some.injEq] at there
    rw [← there]
    exact ⟨site_none_iff inspect, value_none_iff inspect⟩
  · rw [restore_ofRoots built inside]
    refine ⟨Node.shown inspect, Node.isomorphism_shown built inspect inside, fun a _ => ?_⟩
    rw [Node.shown_eq]
    exact ⟨rfl, rfl, rfl⟩
  · intro W inspect' made' built' roots' inside' same
    have restored := congrArg restore same
    rw [restore_ofRoots built inside, restore_ofRoots built' inside'] at restored
    obtain ⟨f, iso, shows⟩ := Node.isomorphic_of_shown built built' inside inside' restored.symm
    refine ⟨f, iso, fun a reached => ?_⟩
    have same := shows a reached
    rw [Node.shown_eq, Node.shown_eq, Node.mk.injEq] at same
    exact ⟨same.2.1, same.2.2.1⟩

/-! ### A value that reads like an unknown one -/

namespace Unread

def unknown : Node String := Node.unknown 1

def named : Node String := ⟨2, some ⟨⟨7⟩, "<unknown>"⟩, some "<unknown>", [unknown, unknown]⟩

theorem built : Node.Built [named, unknown] := by
  refine .cons (.cons .nil ?_ ?_) ?_ ?_ <;> simp [named, unknown, Node.unknown]

/-- The snapshot tells the node of which nothing is known from the one whose texts say so. -/
theorem closed_and_lossless_named :
    (∀ entry, Snapshot.entry? (ofRoots id [named]) 1 = some entry →
      entry.site = none ∧ entry.value = none) ∧
    (∀ entry, Snapshot.entry? (ofRoots id [named]) 2 = some entry →
      entry.site ≠ none ∧ entry.value ≠ none) ∧
    ∃ f, Node.Isomorphism f [named] (ofRoots id [named]).restore := by
  have inside : ∀ root ∈ [named], root ∈ [named, unknown] := by simp
  obtain ⟨-, -, -, entries, ⟨f, iso, -⟩, -⟩ := closed_and_lossless id built inside
  have root : Node.Reached [named] named := .root List.mem_cons_self
  refine ⟨fun entry there => ?_, fun entry there => ?_, f, iso⟩
  · have known := (entries unknown (.origin root List.mem_cons_self)).2 entry there
    exact ⟨known.1.mpr rfl, known.2.mpr rfl⟩
  · have known := (entries named root).2 entry there
    exact ⟨fun none => absurd (known.1.mp none) nofun, fun none => absurd (known.2.mp none) nofun⟩

end Unread

end Snapshot

end Lineage
