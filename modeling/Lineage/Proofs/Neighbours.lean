import Lineage.Proofs.Graph
import Lineage.Proofs.Reaching
import Lineage.Proofs.Renumbering

/-!
# Sessions side by side

Two sessions have a store each, and their hosts have no entity in common; what they share is the
counter that numbers the nodes. What one session does shows in the other as gaps between numbers and
not otherwise: each answers as it does alone, and comes to the state to which it comes alone, but for
the numbers, which keep their order.
-/

namespace Lineage

variable {K L : Kinds}

/-- The answers of the tracer to an act: one, if it is a checkpoint. -/
def Act.answers (tracer : Tracer) (s : Shadow K) : Act K → List (Except Fault Unit)
  | checkpoint host c => [((tracer.react host c).run.run s).1]
  | sweep _ | release _ => []

/-- The answers of the tracer to some acts, in order. -/
def Shadow.answersTo (tracer : Tracer) (s : Shadow K) : List (Act K) → List (Except Fault Unit)
  | [] => []
  | act :: rest => act.answers tracer s ++ answersTo tracer (act.after tracer s) rest

theorem Shadow.answersTo_append {tracer : Tracer} {s : Shadow K} (first second : List (Act K)) :
    s.answersTo tracer (first ++ second) =
      s.answersTo tracer first ++ (s.afterAll tracer first).answersTo tracer second := by
  induction first generalizing s with
  | nil => rfl
  | cons act rest ih =>
    rw [List.cons_append, answersTo, answersTo, ih, List.append_assoc]
    rfl

/-- Two sessions on one counter. -/
structure Neighbours (K L : Kinds) where
  left : Shadow K
  right : Shadow L
  shared : left.nextSeq = right.nextSeq

/-- One of the two sessions has its turn. Whatever its host says may depend on the nodes that the other
    session keeps, as they may own some of its entities. -/
inductive Turn (K L : Kinds) where
  | left (act : List (Node L.Value) → Act K)
  | right (act : List (Node K.Value) → Act L)

namespace Turn

/-- What the left session does in the turn, if it is alone. -/
def left? : Turn K L → Option (Act K)
  | left act => some (act [])
  | right _ => none

/-- What the right session does in the turn, if it is alone. -/
def right? : Turn K L → Option (Act L)
  | left _ => none
  | right act => some (act [])

/-- The nodes of the other session own no entity of the host that has the turn. -/
def Apart : Turn K L → Prop
  | left act => ∀ nodes, act nodes = act []
  | right act => ∀ nodes, act nodes = act []

end Turn

namespace Neighbours

variable (tracer tracer' : Tracer)

/-- Both sessions, about to give the number `next` to a node. -/
def start (s : Shadow K) (u : Shadow L) (next : Nat) : Neighbours K L where
  left := { s with nextSeq := next }
  right := { u with nextSeq := next }
  shared := rfl

def after (p : Neighbours K L) : Turn K L → Neighbours K L
  | .left act =>
      let left := (act p.right.store.nodes).after tracer p.left
      ⟨left, { p.right with nextSeq := left.nextSeq }, rfl⟩
  | .right act =>
      let right := (act p.left.store.nodes).after tracer' p.right
      ⟨{ p.left with nextSeq := right.nextSeq }, right, rfl⟩

def afterAll (p : Neighbours K L) (turns : List (Turn K L)) : Neighbours K L :=
  turns.foldl (after tracer tracer') p

/-- What each of the two sessions answers in a turn. -/
def answersIn (p : Neighbours K L) :
    Turn K L → List (Except Fault Unit) × List (Except Fault Unit)
  | .left act => ((act p.right.store.nodes).answers tracer p.left, [])
  | .right act => ([], (act p.left.store.nodes).answers tracer' p.right)

/-- What each of the two sessions answers in some turns. -/
def answersTo (p : Neighbours K L) :
    List (Turn K L) → List (Except Fault Unit) × List (Except Fault Unit)
  | [] => ([], [])
  | turn :: rest =>
      let now := p.answersIn tracer tracer' turn
      let later := (p.after tracer tracer' turn).answersTo rest
      (now.1 ++ later.1, now.2 ++ later.2)

end Neighbours

/-! ### One act in a renumbered state -/

/-- What has an owner is no matter of the numbers of nodes. -/
def Host.Numberless (host : Host K) : Prop := ∀ ρ, StrictMono ρ → host.Ignores ρ

def Act.Numberless : Act K → Prop
  | checkpoint host _ => host.Numberless
  | sweep host => host.Numberless
  | release _ => True

def Turn.Numberless : Turn K L → Prop
  | left act => (act []).Numberless
  | right act => (act []).Numberless

namespace Shadow

variable {ρ : Nat → Nat} {first : Nat} {s t : Shadow K} {act : Act K} (tracer : Tracer)

/-- In a renumbered state an act has the same answer, and leaves what it leaves in the state itself,
    renumbered. -/
theorem Renumbered.after (h : Renumbered ρ first True s t) (ordered : StrictMono ρ)
    (numberless : act.Numberless) : act.answers tracer t = act.answers tracer s ∧
      Renumbered ρ first True (act.after tracer s) (act.after tracer t) := by
  cases act with
  | checkpoint host c =>
    obtain ⟨answer, left⟩ := Tracer.carries_react h (numberless ρ ordered) ordered.injective
      (fun _ => rfl : True → tracer = tracer) c
    have same : ∀ outcome : Except Fault Unit, outcome.map id = outcome := by rintro (_ | _) <;> rfl
    rw [same] at answer
    exact ⟨congrArg ([·]) answer, left⟩
  | sweep host =>
    have swept := s.store.sweep_renumber (numberless ρ ordered)
    rw [← h.store] at swept
    have log : ((t.sweep host).2).log = ((s.sweep host).2).log := by
      unfold Shadow.sweep
      rw [swept]
      exact congrArg (Log.add · _ _ _) (h.log trivial)
    exact ⟨rfl, congrArg Prod.snd swept, h.next, fun _ => log, h.counts⟩
  | release frame =>
    have gone := Table.remove_map (Record.renumber ρ) s.store.frames frame
    have store : (t.release frame).store = (s.release frame).store.renumber ρ := by
      unfold Shadow.release
      rw [h.store, Store.frames_renumber, gone]
      rfl
    exact ⟨rfl, store, h.next, h.log, h.counts⟩

/-- Whatever happens, the graph stays well formed. -/
theorem WellFormed.after (sane : s.Unpoisoned) (h : s.WellFormed) (act : Act K) :
    (act.after tracer s).Unpoisoned ∧ (act.after tracer s).WellFormed := by
  let P : List (Step K) → Shadow K → Prop := fun _ t =>
    t.Unpoisoned ∧ t.Extends (fun _ => True) fun _ => False
  have started : P [] s :=
    ⟨sane, _, fun _ => False.elim, h.family fun _ _ => trivial, h.within⟩
  have ended : P ([] ++ s.steps tracer [act]) (s.afterAll tracer [act]) := by
    refine (Shadow.along ?_ ?_ [act] [] s started).2
    · rintro past s t same ⟨sane, G, more, family, within⟩
      exact ⟨same.unpoisoned sane, G, more, by rwa [same.2], within.of_store same.1⟩
    · rintro past step valid ⟨sane, G, -, family, within⟩
      obtain ⟨G', -, rest⟩ := Step.extends valid sane family within
      exact ⟨(Step.keeps valid sane).1, G', fun _ => False.elim, rest⟩
  exact ⟨ended.1, ended.2.wellFormed⟩

theorem WellFormed.afterAll (sane : s.Unpoisoned) (h : s.WellFormed) (acts : List (Act K)) :
    (s.afterAll tracer acts).Unpoisoned ∧ (s.afterAll tracer acts).WellFormed := by
  induction acts generalizing s with
  | nil => exact ⟨sane, h⟩
  | cons act rest ih =>
    obtain ⟨sane', h'⟩ := h.after tracer sane act
    exact ih sane' h'

/-! ### A session and its double -/

/-- `t` is `s` with other numbers in the same order. -/
structure Trails (s t : Shadow K) : Prop where
  sane : s.Unpoisoned
  wellFormed : s.WellFormed
  renumbered : ∃ ρ, StrictMono ρ ∧ Renumbered ρ s.nextSeq True s t

theorem trails_refl (sane : s.Unpoisoned) (wellFormed : s.WellFormed) : s.Trails s where
  sane := sane
  wellFormed := wellFormed
  renumbered :=
    ⟨id, strictMono_id, s.store.renumber_id.symm, rfl, fun _ => rfl, Nat.le_refl _, fun _ => rfl⟩

/-- The same below `next`, and from there on the numbers from `later` on. -/
def skipTo (ρ : Nat → Nat) (next later k : Nat) : Nat :=
  if k < next then ρ k else later + (k - next)

theorem strictMono_skipTo (ordered : StrictMono ρ) {next later : Nat} (reached : ρ next ≤ later) :
    StrictMono (skipTo ρ next later) := by
  intro i j below
  unfold skipTo
  split <;> split
  · exact ordered below
  · have := @ordered i next ‹_›
    omega
  · omega
  · omega

namespace Trails

/-- Others take some numbers. -/
theorem skip (h : s.Trails t) {later : Nat} (reached : t.nextSeq ≤ later) :
    s.Trails { t with nextSeq := later } := by
  obtain ⟨sane, wellFormed, ρ, ordered, renumbered⟩ := h
  rw [renumbered.next] at reached
  refine ⟨sane, wellFormed, skipTo ρ s.nextSeq later, strictMono_skipTo ordered reached, ?_⟩
  have agree : ∀ a, Node.Reached s.store.nodes a → ρ a.seq = skipTo ρ s.nextSeq later a.seq :=
    fun a there => (if_pos (wellFormed.counted a there)).symm
  have onward : ∀ k, skipTo ρ s.nextSeq later (s.nextSeq + k) = later + k := fun k => by
    unfold skipTo
    rw [if_neg (by omega), Nat.add_sub_cancel_left]
  exact {
    store := renumbered.store.trans (Store.renumber_congr agree)
    next := (onward 0).symm
    log := renumbered.log
    counts := ⟨Nat.le_refl _, fun k => (onward k).trans (congrArg (· + k) (onward 0).symm)⟩ }

/-- Both do the same. -/
theorem after (h : s.Trails t) (numberless : act.Numberless) :
    act.answers tracer t = act.answers tracer s ∧
      (act.after tracer s).Trails (act.after tracer t) ∧ t.nextSeq ≤ (act.after tracer t).nextSeq := by
  obtain ⟨sane, wellFormed, ρ, ordered, renumbered⟩ := h
  obtain ⟨answers, ended⟩ := renumbered.after tracer ordered numberless
  obtain ⟨sane', wellFormed'⟩ := wellFormed.after tracer sane act
  refine ⟨answers, ⟨sane', wellFormed', ρ, ordered, ?_⟩, ?_⟩
  · exact ⟨ended.store, ended.next, ended.log, Nat.le_refl _, ended.counts.2⟩
  · rw [renumbered.next, ended.next]
    exact ordered.monotone ended.counts.1

end Trails

/-- `t` is `s` with the numbers changed by `ρ`, which keeps their order. Corresponding nodes have the
    same outline, and slices have corresponding nodes in the same order. -/
structure Alike (ρ : Nat → Nat) (s t : Shadow K) : Prop where
  ordered : StrictMono ρ
  state : t = s.renumber ρ
  nodes : t.store.nodes = s.store.nodes.map (Node.renumber ρ)
  outline : ∀ inspect limit (node : Node K.Value),
    (node.renumber ρ).outline inspect limit = node.outline inspect limit
  slice : ∀ roots : List (Node K.Value),
    Node.slice (roots.map (Node.renumber ρ)) = (Node.slice roots).map (Node.renumber ρ)

theorem Trails.alike (h : s.Trails t) : ∃ ρ, Alike ρ s t := by
  obtain ⟨-, -, ρ, ordered, store, next, log, -⟩ := h
  have state : t = s.renumber ρ := by
    obtain ⟨_, _, _⟩ := t
    obtain ⟨rfl, rfl, rfl⟩ : _ ∧ _ ∧ _ := ⟨store, next, log trivial⟩
    rfl
  refine ⟨ρ, ordered, state, ?_, Node.outline_renumber ordered.injective,
    Node.slice_renumber ordered⟩
  rw [store, Store.nodes_renumber]

end Shadow

namespace Neighbours

open Shadow

variable (tracer tracer' : Tracer)

/-- In a turn, each of the two sessions does what it does alone; one of them does nothing. -/
theorem trails_after {s : Shadow K} {u : Shadow L} {p : Neighbours K L} (left : s.Trails p.left)
    (right : u.Trails p.right) {turn : Turn K L} (apart : turn.Apart) (numberless : turn.Numberless) :
    p.answersIn tracer tracer' turn =
      (s.answersTo tracer turn.left?.toList, u.answersTo tracer' turn.right?.toList) ∧
    (s.afterAll tracer turn.left?.toList).Trails (p.after tracer tracer' turn).left ∧
    (u.afterAll tracer' turn.right?.toList).Trails (p.after tracer tracer' turn).right := by
  cases turn with
  | left act =>
    obtain ⟨now, left, later⟩ := left.after tracer numberless
    dsimp only [answersIn, after]
    rw [apart p.right.store.nodes]
    refine ⟨?_, left, right.skip (p.shared ▸ later)⟩
    exact Prod.ext (now.trans (List.append_nil _).symm) rfl
  | right act =>
    obtain ⟨now, right, later⟩ := right.after tracer' numberless
    dsimp only [answersIn, after]
    rw [apart p.left.store.nodes]
    refine ⟨?_, left.skip (p.shared ▸ later), right⟩
    exact Prod.ext rfl (now.trans (List.append_nil _).symm)

/-- Turn after turn, each of the two sessions does what it does alone. -/
theorem trails_afterAll {turns : List (Turn K L)} (apart : ∀ turn ∈ turns, turn.Apart)
    (numberless : ∀ turn ∈ turns, turn.Numberless) {s : Shadow K} {u : Shadow L}
    {p : Neighbours K L} (left : s.Trails p.left) (right : u.Trails p.right) :
    p.answersTo tracer tracer' turns = (s.answersTo tracer (turns.filterMap Turn.left?),
      u.answersTo tracer' (turns.filterMap Turn.right?)) ∧
    (s.afterAll tracer (turns.filterMap Turn.left?)).Trails
      (p.afterAll tracer tracer' turns).left ∧
    (u.afterAll tracer' (turns.filterMap Turn.right?)).Trails
      (p.afterAll tracer tracer' turns).right := by
  induction turns generalizing s u p with
  | nil => exact ⟨rfl, left, right⟩
  | cons turn rest ih =>
    obtain ⟨apart, apart'⟩ := List.forall_mem_cons.mp apart
    obtain ⟨numberless, numberless'⟩ := List.forall_mem_cons.mp numberless
    obtain ⟨now, left, right⟩ :=
      trails_after tracer tracer' left right apart numberless
    obtain ⟨later, left, right⟩ := ih apart' numberless' left right
    have lefts : (turn :: rest).filterMap Turn.left? =
        turn.left?.toList ++ rest.filterMap Turn.left? := by cases turn <;> rfl
    have rights : (turn :: rest).filterMap Turn.right? =
        turn.right?.toList ++ rest.filterMap Turn.right? := by cases turn <;> rfl
    rw [← Shadow.afterAll_append, ← lefts] at left
    rw [← Shadow.afterAll_append, ← rights] at right
    refine ⟨?_, left, right⟩
    rw [lefts, rights, Shadow.answersTo_append, Shadow.answersTo_append, answersTo, now, later]

/-- However the turns of the two sessions come after one another: each of them answers what it answers
    alone, and comes to the state to which it comes alone, but for the numbers, which keep their order.
    So outlines and slices of the nodes that it keeps show nothing of its neighbour. The two may have
    been told of checkpoints before, by themselves, and may start with numbers left out. -/
theorem each_as_alone {s : Shadow K} {u : Shadow L} {next : Nat}
    (sane : s.Unpoisoned) (sane' : u.Unpoisoned) (wellFormed : s.WellFormed)
    (wellFormed' : u.WellFormed) (reached : s.nextSeq ≤ next) (reached' : u.nextSeq ≤ next)
    {turns : List (Turn K L)} (apart : ∀ turn ∈ turns, turn.Apart)
    (numberless : ∀ turn ∈ turns, turn.Numberless) :
    let lefts := turns.filterMap Turn.left?
    let rights := turns.filterMap Turn.right?
    let both := (start s u next).afterAll tracer tracer' turns
    (start s u next).answersTo tracer tracer' turns =
        (s.answersTo tracer lefts, u.answersTo tracer' rights) ∧
      (∃ ρ, Shadow.Alike ρ (s.afterAll tracer lefts) both.left) ∧
      ∃ ρ, Shadow.Alike ρ (u.afterAll tracer' rights) both.right := by
  have left : s.Trails (start s u next).left := (trails_refl sane wellFormed).skip reached
  have right : u.Trails (start s u next).right := (trails_refl sane' wellFormed').skip reached'
  obtain ⟨answers, left, right⟩ := trails_afterAll tracer tracer' apart numberless left right
  exact ⟨answers, left.alike, right.alike⟩

/-! Two sessions push constants by turns. The values of nodes own objects. -/

namespace Constants

open WriteThenRead (numbers)

def interpreter : Host numbers where
  callerOf _ := none
  argumentCount _ := 0
  objectOf value := some value
  survivors nodes := {
    frame := fun _ => true
    object := fun object => nodes.any fun node => node.value == some object
    scope := fun _ => true }

theorem interpreter_numberless : interpreter.Numberless := by
  intro ρ _ nodes
  simp only [interpreter, List.any_map, Function.comp_def, Node.value_renumber]

def constant (value : Nat) : Act numbers :=
  .checkpoint interpreter
    ⟨{ id := ⟨1⟩, label := "constant", categories := .single .noUseDefStack }, 0, .leave value⟩

def turns : List (Turn numbers numbers) :=
  [.left fun _ => constant 10, .right fun _ => constant 20, .left fun _ => constant 30]

def fresh : Shadow numbers := ⟨.ofInterval 0, 1, {}⟩

theorem each_as_alone_constants :
    let both := (start fresh fresh 1).afterAll {} {} turns
    let alone := fresh.afterAll {} [constant 10, constant 30]
    (∃ ρ, Shadow.Alike ρ alone both.left) ∧ alone.store.nodes.map Node.seq = [2, 1] ∧
      both.left.store.nodes.map Node.seq = [3, 1] := by
  have sane : fresh.Unpoisoned := unpoisoned_ofInterval 0 1 {}
  have wellFormed : fresh.WellFormed := (extends_ofInterval 0 1 {}).wellFormed
  have apart : ∀ turn ∈ turns, turn.Apart := by simp [turns, Turn.Apart]
  have numberless : ∀ turn ∈ turns, turn.Numberless := by
    simp [turns, Turn.Numberless, constant, Act.Numberless, interpreter_numberless]
  have same := each_as_alone {} {} sane sane wellFormed wellFormed (Nat.le_refl 1) (Nat.le_refl 1)
    apart numberless
  exact ⟨same.2.1, rfl, rfl⟩

end Constants

end Neighbours

end Lineage
