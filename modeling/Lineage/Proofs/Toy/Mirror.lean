import Lineage.Proofs.Toy.Compile
import Lineage.Proofs.Toy.Provenance
import Lineage.Proofs.Toy.World

/-!
# A shadow state and a ledger that agree

`Mirrors` says that the shadow state has, at the place where code runs, what the ledger has: the
operands that the code has left are on the stack of its frame, above those of the code around, and
the latest node of each local is in its history. If the stores are followed exactly, the other slots
have the same nodes too. Each elementary change of the shadow state keeps this with a change of the
ledger.
-/

namespace Lineage.Toy

open Shadow

/-- The invocation around a piece of code, as the shadow state knows it. -/
structure Activation where
  traced : Bool
  arguments : Option (List (Node Value)) := none
  /-- The operands of the code around. -/
  below : List (Node Value) := []
  /-- The depths noted by the code around. -/
  marks : List DepthMark := []

/-- Where a checkpoint is reported. -/
structure Place where
  world : World
  /-- The shares from outside the world. -/
  held : List Entity
  /-- The nodes that are kept from then on. -/
  kept : List (Node Value)
  frame : FrameId
  scope : ScopeId

namespace Place

def host (p : Place) : Host kinds := p.world.host p.held []

/-- The entity is owned from outside the world, through a handle or a node. -/
def Owns (p : Place) (e : Entity) : Prop := e ∈ p.held ∨ World.KeptBy p.kept e

/-- The object is alive as long as nothing else is given up. -/
def Lives (p : Place) (o : ObjectId) : Prop := p.world.Alive p.Owns (.object o)

/-- The same place, where other nodes are kept. -/
def keeping (p : Place) (nodes : List (Node Value)) : Place := { p with kept := nodes }

structure Sound (p : Place) : Prop where
  ownFrame : .frame p.frame ∈ p.held
  ownScope : .scope p.scope ∈ p.held
  frame : ∃ frame, p.world.frame? p.frame = some frame ∧ ∀ caller, frame.caller = some caller →
    caller ≠ p.frame ∧ p.world.Made (.frame caller)

/-- Records of other frames have stayed, except those of frames that nothing holds. -/
def Spared (p : Place) (t u : Shadow kinds) : Prop :=
  ∀ f, p.world.Made (.frame f) → f ≠ p.frame →
    Table.Spares (¬ p.world.Holds p.held (.frame f)) t.store.frames u.store.frames f

variable {p : Place} {t u v : Shadow kinds}

theorem Spared.of_frames (same : u.store.frames = t.store.frames) : p.Spared t u :=
  fun _ _ _ => .inl (by rw [same])

theorem Spared.trans (first : p.Spared t u) (second : p.Spared u v) : p.Spared t v :=
  fun f made ne => (first f made ne).trans (second f made ne)

theorem Spared.record?_eq {f : FrameId} (h : p.Spared t u) (made : p.world.Made (.frame f))
    (ne : f ≠ p.frame) (held : p.world.Holds p.held (.frame f)) : u.record? f = t.record? f :=
  (h f made ne).content?_eq fun gone => gone held

theorem lives_of_holds {o : ObjectId} (h : p.world.Holds p.held (.object o)) : p.Lives o :=
  h.alive fun _ => .inl

theorem not_mayDrop {f : FrameId} (made : p.world.Made (.frame f))
    (held : p.world.Holds p.held (.frame f)) : ¬ p.host.MayDrop f :=
  World.not_mayDrop made held []

theorem spared_of_rebinds {r : Record Value}
    (h : t.store.frames.Rebinds p.host.MayDrop u.store.frames p.frame r) : p.Spared t u :=
  fun f made ne => (h.others f ne).mono fun dropped held => not_mayDrop made held dropped

/-- Code has gone on from `p` to `q` without a checkpoint: what is alive now was alive before or has
    just been made. -/
structure Moves (p q : Place) : Prop where
  frame : q.frame = p.frame
  scope : q.scope = p.scope
  grows : p.world.Grows q.world
  scopes : p.world.Made (.scope p.scope) → q.world.Made (.scope p.scope)
  objects : ∀ o, p.world.Made (.object o) → q.world.Made (.object o)
  lives : ∀ o, q.Lives o → p.Lives o ∨ q.world.Made (.object o) ∧ ¬ p.world.Made (.object o)

end Place

/-- The record has the operands, marks and locals of the innermost invocation. -/
structure Recorded (a : Activation) (r : Record Value) (l : Ledger) : Prop where
  stack : r.stack = l.operands ++ a.below
  marks : r.marks = a.marks
  locals : ∀ name, (r.histories.getD name []).head? = l.localNodes.get? name

/-- The slots that outlive an invocation have the same nodes in the shadow state as in the ledger,
    those of an object as long as it is alive. -/
structure Stored (p : Place) (t : Shadow kinds) (l : Ledger) : Prop where
  globals : l.globalNodes = t.store.globals
  scope : p.world.Made (.scope p.scope)
  classes : l.classNodes = t.scopeSlots p.scope
  objects : ∀ o, p.Lives o → p.world.Made (.object o) ∧ l.propertyNodes o = t.objectSlots o
  fresh : ∀ o, ¬ p.world.Made (.object o) → l.propertyNodes o = {} ∧ t.objectSlots o = {}
  nodes : ∀ node ∈ t.store.nodes, node ∈ l.made

/-- The arguments of the invocation are on top of the stack of its caller, if that is traced. -/
structure Passed (arguments : Option (List (Node Value))) (frame : Frame) (t : Shadow kinds) :
    Prop where
  known : arguments = (frame.caller.bind t.record?).map (·.stack.take frame.args.length)
  enough : ∀ r, frame.caller.bind t.record? = some r → frame.args.length ≤ r.stack.length

/-- The shadow state and the ledger agree at `p`; on the slots that outlive the invocation they do so
    if `exact`. -/
structure Mirrors (exact : Prop) (p : Place) (a : Activation) (t : Shadow kinds) (l : Ledger) :
    Prop where
  next : l.next = t.nextSeq
  sane : t.Unpoisoned
  known : ∀ f, t.record? f ≠ none → p.world.Made (.frame f)
  passed : ∀ frame, p.world.frame? p.frame = some frame → Passed a.arguments frame t
  traced : a.traced = true → ∃ r, t.record? p.frame = some r ∧ Recorded a r l
  untraced : a.traced = false → t.record? p.frame = none ∧ l.operands = []
  stored : exact → Stored p t l

namespace Mirrors

variable {exact : Prop} {p : Place} {a a' : Activation} {t u : Shadow kinds} {l l' : Ledger}

/-- The caller of the invocation has the record that it had. -/
theorem caller_of_spared (sound : p.Sound) (spared : p.Spared t u) {frame : Frame}
    (found : p.world.frame? p.frame = some frame) :
    frame.caller.bind u.record? = frame.caller.bind t.record? := by
  obtain ⟨_, same, callers⟩ := sound.frame
  rw [found] at same
  cases same
  cases called : frame.caller with
  | none => rfl
  | some caller =>
    obtain ⟨ne, made⟩ := callers caller called
    exact spared.record?_eq made ne (.caller (.direct sound.ownFrame) found called)

theorem passed_of_spared (h : Mirrors exact p a t l) (sound : p.Sound) (spared : p.Spared t u) :
    ∀ frame, p.world.frame? p.frame = some frame → Passed a.arguments frame u := by
  intro frame found
  obtain ⟨known, enough⟩ := h.passed frame found
  constructor
  · rw [caller_of_spared sound spared found]
    exact known
  · rw [caller_of_spared sound spared found]
    exact enough

theorem known_of_rebinds (h : Mirrors exact p a t l) (sound : p.Sound) {dead : FrameId → Prop}
    {r : Record Value} (on : t.store.frames.Rebinds dead u.store.frames p.frame r) :
    ∀ f, u.record? f ≠ none → p.world.Made (.frame f) := by
  intro f there
  by_cases own : f = p.frame
  · subst own
    obtain ⟨frame, found, -⟩ := sound.frame
    exact World.made_frame.mpr ⟨frame, found⟩
  · refine h.known f fun absent => there ?_
    have gone : t.store.frames.find? f = none := Option.map_eq_none_iff.mp absent
    exact Option.map_eq_none_iff.mpr ((on.others f own).none_of_none gone)

/-- A change of the record of the frame, with what the ledger makes of it. -/
theorem onRecord (h : Mirrors exact p a t l) (sound : p.Sound) {r : Record Value} {n : Nat}
    (on : OnRecord p.host.MayDrop p.frame t u r n) (traced : a'.traced = true)
    (arguments : a'.arguments = a.arguments) (recorded : Recorded a' r l') (next : l'.next = n)
    (stores : l'.propertyNodes = l.propertyNodes ∧ l'.classNodes = l.classNodes ∧
      l'.globalNodes = l.globalNodes)
    (made : ∀ node, node ∈ l.made → node ∈ l'.made)
    (nodes : exact → ∀ node ∈ r.nodes, node ∈ l'.made) :
    p.Spared t u ∧ Mirrors exact p a' u l' := by
  have spared := Place.spared_of_rebinds on.frames
  refine ⟨spared, ?_⟩
  constructor
  · exact next.trans on.nextSeq.symm
  · exact on.unpoisoned h.sane
  · exact h.known_of_rebinds sound on.frames
  · rw [arguments]
    exact h.passed_of_spared sound spared
  · exact fun _ => ⟨r, on.record?, recorded⟩
  · intro untraced
    rw [traced] at untraced
    cases untraced
  · intro hexact
    obtain ⟨properties, classes, globals⟩ := stores
    have before := h.stored hexact
    constructor
    · rw [globals, on.globals]
      exact before.globals
    · exact before.scope
    · rw [classes, scopeSlots_congr on.scopes]
      exact before.classes
    · intro o lives
      rw [properties, objectSlots_congr on.objects]
      exact before.objects o lives
    · intro o unmade
      rw [properties, objectSlots_congr on.objects]
      exact before.fresh o unmade
    · intro node mem
      rcases on.nodes mem with inside | before'
      · exact nodes hexact node inside
      · exact made node (before.nodes node before')

/-- A node is pushed on a record of which all operands are those of the code around. -/
theorem pushed (h : Mirrors exact p a' t l) (sound : p.Sound) {r : Record Value} {node : Node Value}
    {n : Nat} (on : OnRecord p.host.MayDrop p.frame t u (r.push node) n) (traced : a.traced = true)
    (arguments : a.arguments = a'.arguments) {outer : List (Node Value)}
    (stack : r.stack = outer ++ a.below) (marks : r.marks = a.marks) {slots : Slots Value}
    (locals : ∀ name, (r.histories.getD name []).head? = slots.get? name)
    {m : List (Node Value)} (made : ∀ other ∈ l.made, other ∈ m)
    (nodes : exact → node ∈ m ∧ ∀ other ∈ r.nodes, other ∈ m) :
    p.Spared t u ∧ Mirrors exact p a u
      { l with operands := node :: outer, localNodes := slots, next := n, made := m } := by
  refine h.onRecord sound on traced arguments ⟨?_, marks, locals⟩ rfl ⟨rfl, rfl, rfl⟩ made ?_
  · exact congrArg (node :: ·) stack
  · intro hexact other mem
    obtain ⟨new, old⟩ := nodes hexact
    rcases Record.nodes_push mem with rfl | mem
    · exact new
    · exact old other mem

/-- The operands of a record may be told apart in another way. -/
theorem recast (h : Mirrors exact p a t l) {operands : List (Node Value)} (was : a.traced = true)
    (traced : a'.traced = true) (arguments : a'.arguments = a.arguments)
    (recorded : ∀ r, Recorded a r l → Recorded a' r { l with operands }) :
    Mirrors exact p a' t { l with operands } := by
  constructor
  · exact h.next
  · exact h.sane
  · exact h.known
  · rw [arguments]
    exact h.passed
  · intro _
    obtain ⟨r, found, before⟩ := h.traced was
    exact ⟨r, found, recorded r before⟩
  · intro untraced
    rw [traced] at untraced
    cases untraced
  · intro hexact
    obtain ⟨globals, scope, classes, objects, fresh, nodes⟩ := h.stored hexact
    exact ⟨globals, scope, classes, objects, fresh, nodes⟩

/-- It makes no difference which nodes are kept, if what is alive then is alive already. -/
theorem keeping (h : Mirrors exact p a t l) {nodes : List (Node Value)}
    (lives : exact → ∀ o, (p.keeping nodes).Lives o → p.Lives o) :
    Mirrors exact (p.keeping nodes) a t l where
  next := h.next
  sane := h.sane
  known := h.known
  passed := h.passed
  traced := h.traced
  untraced := h.untraced
  stored hexact := by
    obtain ⟨globals, scope, classes, objects, fresh, nodes⟩ := h.stored hexact
    exact ⟨globals, scope, classes, fun o alive => objects o (lives hexact o alive), fresh, nodes⟩

/-- A change that leaves the records alone. -/
theorem frames_kept (h : Mirrors exact p a t l) (frames : u.store.frames = t.store.frames)
    (sane : u.Unpoisoned) (next : l'.next = u.nextSeq) (operands : l'.operands = l.operands)
    (locals : l'.localNodes = l.localNodes) (stored : exact → Stored p u l') :
    Mirrors exact p a u l' := by
  have same := record?_congr frames
  constructor
  · exact next
  · exact sane
  · intro f
    rw [same]
    exact h.known f
  · intro frame found
    obtain ⟨known, enough⟩ := h.passed frame found
    have caller : frame.caller.bind u.record? = frame.caller.bind t.record? := by
      cases frame.caller with
      | none => rfl
      | some caller => exact same caller
    exact ⟨caller ▸ known, caller ▸ enough⟩
  · intro traced
    obtain ⟨r, found, stack, marks, histories⟩ := h.traced traced
    refine ⟨r, (same _).trans found, ?_, marks, ?_⟩
    · rw [operands]
      exact stack
    · rw [locals]
      exact histories
  · intro untraced
    rw [same, operands]
    exact h.untraced untraced
  · exact stored

/-- Numbers may be given away without anything being stored. -/
theorem fresh (h : Mirrors exact p a t l) {n : Nat} {m : List (Node Value)}
    (store : u.store = t.store) (next : u.nextSeq = n) (made : ∀ node ∈ l.made, node ∈ m) :
    Mirrors exact p a u { l with next := n, made := m } := by
  have sane : u.Unpoisoned := by
    constructor <;> rw [store]
    · exact h.sane.frames
    · exact h.sane.objects
    · exact h.sane.scopes
  refine h.frames_kept (by rw [store]) sane next.symm rfl rfl fun hexact => ?_
  obtain ⟨globals, scope, classes, objects, fresh, nodes⟩ := h.stored hexact
  constructor
  · rw [store]
    exact globals
  · exact scope
  · rw [scopeSlots_congr (s := t) (t := u) (by rw [store])]
    exact classes
  · intro o
    rw [objectSlots_congr (s := t) (t := u) (by rw [store])]
    exact objects o
  · intro o
    rw [objectSlots_congr (s := t) (t := u) (by rw [store])]
    exact fresh o
  · rw [store]
    exact fun node mem => made node (nodes node mem)

theorem same (h : Mirrors exact p a t l) (same : SameState t u) : Mirrors exact p a u l :=
  h.fresh same.1 (same.2.trans h.next.symm) fun _ mem => mem

theorem onScope (h : Mirrors exact p a t l) {slots : Slots Value} {n : Nat}
    (on : OnScope p.host.MayDropScope p.scope t u slots n) {m : List (Node Value)}
    (made : ∀ node ∈ l.made, node ∈ m) (nodes : exact → ∀ node ∈ slots.values, node ∈ m) :
    Mirrors exact p a u { l with classNodes := slots, next := n, made := m } := by
  refine h.frames_kept on.frames (on.unpoisoned h.sane) on.nextSeq.symm rfl rfl fun hexact => ?_
  have before := h.stored hexact
  constructor
  · rw [on.globals]
    exact before.globals
  · exact before.scope
  · unfold scopeSlots
    rw [on.scopes.here]
    rfl
  · intro o
    rw [objectSlots_congr on.objects]
    exact before.objects o
  · intro o
    rw [objectSlots_congr on.objects]
    exact before.fresh o
  · intro node mem
    rcases on.nodes mem with inside | before'
    · exact nodes hexact node inside
    · exact made node (before.nodes node before')

theorem onGlobals (h : Mirrors exact p a t l) {globals : Slots Value} {n : Nat}
    (on : OnGlobals t u globals n) {m : List (Node Value)}
    (made : ∀ node ∈ l.made, node ∈ m)
    (nodes : exact → ∀ node ∈ globals.values, node ∈ m) :
    Mirrors exact p a u { l with globalNodes := globals, next := n, made := m } := by
  refine h.frames_kept on.frames (on.unpoisoned h.sane) on.nextSeq.symm rfl rfl fun hexact => ?_
  have before := h.stored hexact
  constructor
  · exact on.globals.symm
  · exact before.scope
  · rw [scopeSlots_congr on.scopes]
    exact before.classes
  · intro o
    rw [objectSlots_congr on.objects]
    exact before.objects o
  · intro o
    rw [objectSlots_congr on.objects]
    exact before.fresh o
  · intro node mem
    rcases on.nodes mem with inside | before'
    · exact nodes hexact node inside
    · exact made node (before.nodes node before')

/-- The slots of an object change; those of the other objects that are alive stay. -/
theorem onObject (h : Mirrors exact p a t l) {inHand : List (Node Value)} {object : ObjectId}
    {slots : Slots Value} {n : Nat} (on : OnObject (p.host.Lost inHand t u object) object t u slots n)
    (exists' : exact → p.world.Made (.object object))
    (notLost : exact → ∀ o, p.world.Made (.object o) → p.Lives o →
      ¬ p.host.Lost inHand t u object o)
    {m : List (Node Value)}
    (made : ∀ node ∈ l.made, node ∈ m) (nodes : exact → ∀ node ∈ slots.values, node ∈ m) :
    Mirrors exact p a u
      { l with
        propertyNodes := fun o => if o = object then slots else l.propertyNodes o
        next := n, made := m } := by
  refine h.frames_kept on.frames (on.unpoisoned h.sane) on.nextSeq.symm rfl rfl fun hexact => ?_
  have before := h.stored hexact
  have here : u.objectSlots object = slots := by
    unfold objectSlots
    rw [on.objects.here]
    rfl
  constructor
  · rw [on.globals]
    exact before.globals
  · exact before.scope
  · rw [scopeSlots_congr on.scopes]
    exact before.classes
  · intro o lives
    obtain ⟨there, same⟩ := before.objects o lives
    refine ⟨there, ?_⟩
    dsimp only
    split
    · next eq => rw [eq, here]
    · next ne =>
      unfold objectSlots
      rw [(on.objects.others o ne).content?_eq (notLost hexact o there lives)]
      exact same
  · intro o unmade
    have ne : o ≠ object := by
      rintro rfl
      exact unmade (exists' hexact)
    obtain ⟨empty, none⟩ := before.fresh o unmade
    refine ⟨?_, ?_⟩
    · dsimp only
      rw [if_neg ne]
      exact empty
    · unfold objectSlots at none ⊢
      rcases on.objects.others o ne with kept | ⟨gone, -⟩
      · rw [Table.content?, kept]
        exact none
      · rw [Table.content?, gone]
        rfl
  · intro node mem
    rcases on.nodes mem with inside | before'
    · exact nodes hexact node inside
    · exact made node (before.nodes node before')

/-- Nothing changes where code goes on without a checkpoint. -/
theorem move (h : Mirrors exact p a t l) (sound : p.Sound) {q : Place} (moves : p.Moves q)
    (world : World) (globals locals : Dict String Value) :
    Mirrors exact q a t { l with world, globals, locals } := by
  constructor
  · exact h.next
  · exact h.sane
  · exact fun f there => moves.grows.made (h.known f there)
  · intro frame found
    obtain ⟨same, here, -⟩ := sound.frame
    refine h.passed frame ?_
    rw [here, ← found, moves.frame, moves.grows _ _ here]
  · rw [moves.frame]
    exact fun traced => (h.traced traced).imp fun r ⟨there, stack, marks, locals⟩ =>
      ⟨there, stack, marks, locals⟩
  · rw [moves.frame]
    exact h.untraced
  · intro hexact
    obtain ⟨globals, scope, classes, objects, fresh, nodes⟩ := h.stored hexact
    constructor
    · exact globals
    · rw [moves.scope]
      exact moves.scopes scope
    · rw [moves.scope]
      exact classes
    · intro o after
      rcases moves.lives o after with before | ⟨made, unmade⟩
      · exact ⟨moves.objects o (objects o before).1, (objects o before).2⟩
      · exact ⟨made, (fresh o unmade).1.trans (fresh o unmade).2.symm⟩
    · exact fun o unmade => fresh o fun made => unmade (moves.objects o made)
    · exact nodes

/-- The operands that the code has left are on the stack of its frame. -/
theorem mem_nodes_of_operands (h : Mirrors exact p a t l) (traced : a.traced = true)
    {node : Node Value} (mem : node ∈ l.operands) : node ∈ t.store.nodes := by
  obtain ⟨record, found, stack, -, -⟩ := h.traced traced
  refine mem_nodes_of_record p.frame ?_
  rw [recordOf_eq found]
  refine Record.mem_nodes.mpr (.inl ?_)
  rw [stack]
  exact List.mem_append_left _ mem

end Mirrors

end Lineage.Toy
