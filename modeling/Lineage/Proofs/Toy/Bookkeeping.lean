import Lineage.Proofs.Toy.Books

/-!
# Every traced run keeps the books

One theorem for each form of code, and by induction on the steps allowed one for all code: code that
comes to a value has left one node, of its own site and with that value, and a `return` has left the
node of its value on top of the operands.
-/

namespace Lineage.Toy

open Tracer (creatorOf)

/-! ### What code comes to -/

/-- The arguments of the invocation have the values that are passed in its frame. -/
def Supplied (s : Setting) (l : Ledger) : Prop :=
  ∃ frame, l.world.frame? s.frame = some frame ∧
    (s.arguments.getD []).map (·.value) = frame.args.reverse.map some ∧
    ∀ node ∈ s.arguments.getD [], node ∈ l.made

/-- Code of the program is run in a traced invocation with the books in order. -/
structure Ordered (p : Program) (start : Nat) (s : Setting) (l : Ledger) : Prop where
  program : s.program = p
  traced : s.traced = true
  books : Books p start l
  supplied : Supplied s l

/-- The code has left the node of its value. -/
def Yields (p : Program) (start : Nat) (l : Ledger) (code : Code) (v : Value) (l' : Ledger) : Prop :=
  Kept p start l l' ∧
    ∃ node, l'.operands = node :: l.operands ∧ node.value = some v ∧ MadeBy code node

/-- A `return` has left the node of its value on top. -/
def Escapes (p : Program) (start : Nat) (l : Ledger) (v : Value) (l' : Ledger) : Prop :=
  Kept p start l l' ∧ ∃ node others, l'.operands = node :: others ++ l.operands ∧ node.value = some v

/-- The operands of a piece that has come to a value, and the variable it reads, make up the rule of
    its site. -/
def Finished (p : Program) (s : Setting) (v : Value) (l : Ledger) (code : Code) : Prop :=
  match code with
  | .getLocal name => l.operands = [] ∧ v = (l.value? p.scope (.localVar name)).getD .nil
  | .getGlobal name => l.operands = [] ∧ v = (l.value? p.scope (.globalVar name)).getD .nil
  | .getClassVariable name => l.operands = [] ∧ v = (l.value? p.scope (.classVar name)).getD .nil
  | .arg index => l.operands = [] ∧
      ∃ frame, l.world.frame? s.frame = some frame ∧ frame.args[index]? = some v
  | .getProperty receiver name => ∃ node, l.operands = [node] ∧ MadeBy receiver node ∧
      v = ((Ledger.objectBehind node).bind fun o => l.value? p.scope (.property o name)).getD .nil
  | code => Rule p l.operands (some v) code

/-- A piece has come to a value; what it assigns has got the value, but not yet its node. -/
def Pending (p : Program) (start : Nat) (s : Setting) (l : Ledger) (code : Code) (v : Value)
    (l' : Ledger) : Prop :=
  ∃ settled, Kept p start l settled ∧ settled.world.MadeValue v ∧ Finished p s v settled code ∧
    l' = settled.settle p.scope (code.writes settled.operands) v

/-- Arguments have left one node each. -/
def Supplies (p : Program) (start : Nat) (l : Ledger) (args : List Code) (values : List Value)
    (l' : Ledger) : Prop :=
  Kept p start l l' ∧ ∃ nodes, l'.operands = nodes.reverse ++ l.operands ∧
    List.Forall₂ MadeBy args nodes ∧ nodes.map (·.value) = values.map some

/-- Statements have left the node of the last one on top, if there is any. -/
def Tops (p : Program) (start : Nat) (l : Ledger) (last : Value) (statements : List Code) (v : Value)
    (l' : Ledger) : Prop :=
  Kept p start l l' ∧
    ((∃ node others, l'.operands = node :: others ++ l.operands ∧ node.value = some v) ∨
      statements = [] ∧ l' = l ∧ v = last)

variable {p : Program} {start n : Nat} {s : Setting} {l l' l'' : Ledger} {code : Code} {v : Value}

theorem Kept.refl (h : Books p start l) : Kept p start l l := ⟨h, .refl l⟩

theorem Kept.trans (first : Kept p start l l') (second : Kept p start l' l'') :
    Kept p start l l'' := ⟨second.books, first.extends'.trans second.extends'⟩

theorem Supplied.after (h : Supplied s l) (later : l.Extends l') : Supplied s l' := by
  obtain ⟨frame, found, passed, known⟩ := h
  exact ⟨frame, later.grows _ _ found, passed, fun node mem => later.made node (known node mem)⟩

theorem Ordered.after (h : Ordered p start s l) (kept : Kept p start l l') :
    Ordered p start s l' := ⟨h.program, h.traced, kept.books, h.supplied.after kept.extends'⟩

theorem Yields.kept (h : Yields p start l code v l') : Kept p start l l' := h.1

theorem Yields.madeValue (h : Yields p start l code v l') : l'.world.MadeValue v := by
  obtain ⟨kept, node, operands, value, -⟩ := h
  refine kept.books.madeValue (kept.books.operands node ?_) value
  rw [operands]
  exact List.mem_cons_self

/-- A `return` interrupts whatever has been left before it. -/
theorem Escapes.after {nodes : List (Node Value)} (h : Escapes p start l' v l'')
    (kept : Kept p start l l') (operands : l'.operands = nodes ++ l.operands) :
    Escapes p start l v l'' := by
  obtain ⟨later, node, others, top, value⟩ := h
  refine ⟨kept.trans later, node, others ++ nodes, ?_, value⟩
  rw [top, operands]
  simp

theorem Yields.escapes (h : Yields p start l code v l') {w : Value}
    (escapes : Escapes p start l' w l'') : Escapes p start l w l'' := by
  obtain ⟨kept, node, operands, -⟩ := h
  exact escapes.after kept (show l'.operands = [node] ++ l.operands from operands)

theorem objectBehind_of_value {node : Node Value} {id : ObjectId} {className : String}
    (value : node.value = some (.object id className)) : Ledger.objectBehind node = some id := by
  unfold Ledger.objectBehind
  rw [value]

theorem objectBehind_of_plain {node : Node Value} (value : node.value = some v)
    (plain : Entity.ofValue v = []) : Ledger.objectBehind node = none := by
  unfold Ledger.objectBehind
  rw [value]
  cases v with
  | object => cases plain
  | _ => rfl

/-! ### The node of a piece -/

section Concluding

variable {settled : Ledger} {site : Site kinds} {outer : List (Node Value)}
  {ret : Value → Ledger → Prop}

/-- The piece has been given its node. -/
def Concludes (p : Program) (start : Nat) (l : Ledger) (site : Site kinds) (v : Value)
    (outer : List (Node Value)) (l' : Ledger) : Prop :=
  Kept p start l l' ∧
    ∃ node, l'.operands = node :: outer ∧ node.value = some v ∧ node.creator = creatorOf site

/-- The origins of the node of a piece are gathered, and obey the rule. -/
theorem keeps_conclude (origins : List (Node Value)) (kept : Kept p start l settled)
    (run : (Ledger.originsOf s l'.operands code).run.run l' =
      (.ok origins, settled.settle p.scope (code.writes l'.operands) v))
    (tagged : p.Tags site code) (known : ∀ origin ∈ origins, origin ∈ settled.made)
    (rule : Rule p origins (some v) code) (madeValue : settled.world.MadeValue v)
    (made : ∀ x, code.writes l'.operands = some x → x.Made settled.world p.scope)
    (outside : ∀ node ∈ outer, node ∈ l.made) :
    Keeps p start (Ledger.conclude s site code v outer) l'
      (fun _ l'' => Concludes p start l site v outer l'') ret := by
  refine .of_run (Ledger.run_conclude_settled run) ?_
  let node := site.node settled.next v origins
  have books : Books p start (settled.add node) :=
    kept.books.add rfl (.inr ⟨site, code, tagged, rfl, rule⟩) known fun w value =>
      Option.some.inj value ▸ madeValue
  have written := books.settle made List.mem_cons_self rfl
  have later := (settled.extends_add node).trans
    (Ledger.extends_settle _ p.scope (code.writes l'.operands) v node)
  have there : node ∈ (((settled.add node).settle p.scope (code.writes l'.operands) v).putNode?
      (code.writes l'.operands) node).made :=
    (Ledger.extends_settle _ p.scope (code.writes l'.operands) v node).made node List.mem_cons_self
  refine ⟨⟨written.withOperands fun other mem => ?_, kept.extends'.trans ⟨later.grows, later.made⟩⟩,
    node, rfl, rfl, rfl⟩
  rcases List.mem_cons.mp mem with rfl | mem
  · exact there
  · exact later.made other (kept.extends'.made other (outside other mem))

/-- A piece that reads nothing has its operands for origins. -/
theorem conclude_plain (kept : Kept p start l settled) (madeValue : settled.world.MadeValue v)
    (gathers : ∀ used, Ledger.originsOf s used code = pure used)
    (rule : Rule p settled.operands (some v) code) (tagged : p.Tags site code)
    (outside : ∀ node ∈ outer, node ∈ l.made) :
    Keeps p start (Ledger.conclude s site code v outer)
      (settled.settle p.scope (code.writes settled.operands) v)
      (fun _ l'' => Concludes p start l site v outer l'') ret := by
  refine keeps_conclude settled.operands kept ?_ tagged
    kept.books.operands rule madeValue ?_ outside
  · rw [gathers, Ledger.settle_operands]
    rfl
  · rw [Ledger.settle_operands]
    exact fun x => kept.books.made_writes

/-- A piece that reads a variable has the node of that for its last origin. -/
theorem conclude_reads {x : Variable} (kept : Kept p start l settled)
    (writes : code.writes settled.operands = none) (reads : code.reads settled.operands = some x)
    (alone : (∀ r name, code ≠ .getProperty r name) → settled.operands = [])
    (rule : ∀ slot, FromSlot slot (some ((settled.value? p.scope x).getD .nil)) →
      Rule p (settled.operands ++ [slot]) (some v) code)
    (value : v = (settled.value? p.scope x).getD .nil) (tagged : p.Tags site code)
    (outside : ∀ node ∈ outer, node ∈ l.made) :
    Keeps p start (Ledger.conclude s site code v outer)
      (settled.settle p.scope (code.writes settled.operands) v)
      (fun _ l'' => Concludes p start l site v outer l'') ret := by
  obtain ⟨books, later, known, slot⟩ := kept.books.touch x
  have same : settled.settle p.scope (code.writes settled.operands) v = settled := by
    rw [writes]
    rfl
  have world : (settled.touch x).world = settled.world := by
    unfold Ledger.touch
    cases settled.node? x with
    | some _ => rfl
    | none => exact Ledger.world_putNode
  rw [same]
  refine keeps_conclude _ (kept.trans ⟨books, later⟩) ?_ tagged ?_ (rule _ slot) ?_ ?_ outside
  · rw [writes]
    exact Ledger.run_originsOf_reads reads alone
  · intro origin mem
    rcases List.mem_append.mp mem with mem | mem
    · exact later.made origin (kept.books.operands origin mem)
    · rw [List.mem_singleton.mp mem]
      exact known
  · rw [world, value]
    exact kept.books.madeValue_read x
  · rw [writes]
    nofun

/-- The property of what is no object is unknown. -/
theorem conclude_noProperty {receiver : Code} {name : String} {node : Node Value}
    (kept : Kept p start l settled) (one : settled.operands = [node])
    (madeBy : MadeBy receiver node) (behind : Ledger.objectBehind node = none)
    (tagged : p.Tags site (.getProperty receiver name)) (outside : ∀ node ∈ outer, node ∈ l.made) :
    Keeps p start (Ledger.conclude s site (.getProperty receiver name) .nil outer) settled
      (fun _ l'' => Concludes p start l site .nil outer l'') ret := by
  let fresh : Node Value := .unknown settled.next
  have books := kept.books.addUnknown
  refine keeps_conclude [node, fresh]
    (kept.trans ⟨books, settled.extends_add fresh⟩) ?_ tagged ?_
    ⟨node, fresh, rfl, madeBy, .inr ⟨rfl, rfl⟩⟩ (Books.madeValue_nil _) nofun outside
  · unfold Ledger.originsOf
    simp only [one, List.head?_cons, Option.bind_some, behind]
    rfl
  · intro origin mem
    rcases List.mem_cons.mp mem with rfl | mem
    · refine List.mem_cons_of_mem _ (kept.books.operands origin ?_)
      rw [one]
      exact List.mem_cons_self
    · rw [List.mem_singleton.mp mem]
      exact List.mem_cons_self

/-- Of arguments and their values in reverse order, both have the same at one index. -/
theorem argument_value {nodes : List (Node Value)} {values : List Value}
    (inOrder : nodes.map (·.value) = values.reverse.map some) {index : Nat}
    (passed : values[index]? = some v) :
    ∃ node, nodes[nodes.length - (index + 1)]? = some node ∧ node.value = some v := by
  have bound : index < values.length := (List.getElem?_eq_some_iff.mp passed).1
  have length : nodes.length = values.length := by
    simpa using congrArg List.length inOrder
  have there : (nodes.map (·.value))[nodes.length - (index + 1)]? = some (some v) := by
    rw [inOrder, List.getElem?_map, length, List.getElem?_reverse (by omega),
      show values.length - 1 - (values.length - (index + 1)) = index by omega, passed]
    rfl
  rw [List.getElem?_map] at there
  exact Option.map_eq_some_iff.mp there

/-- The node of an argument is what the caller has passed. -/
theorem conclude_arg {index : Nat} {frame : Frame} (kept : Kept p start l settled)
    (supplied : Supplied s settled)
    (here : settled.world.frame? s.frame = some frame) (passed : frame.args[index]? = some v)
    (tagged : p.Tags site (.arg index)) (outside : ∀ node ∈ outer, node ∈ l.made) :
    Keeps p start (Ledger.conclude s site (.arg index) v outer) settled
      (fun _ l'' => Concludes p start l site v outer l'') ret := by
  obtain ⟨frame', found, inOrder, known⟩ := supplied
  obtain rfl := Option.some.inj (here.symm.trans found)
  obtain ⟨node, there, value⟩ := argument_value inOrder passed
  have mem : node ∈ settled.made := known node (List.mem_of_getElem? there)
  refine keeps_conclude [node] kept ?_ tagged ?_
    ⟨node, rfl, value⟩ (kept.books.madeValue mem value) nofun outside
  · cases arguments : s.arguments with
    | none =>
      rw [arguments] at there
      cases there
    | some nodes =>
      rw [arguments] at there
      exact run_only (run_argument arguments there settled)
  · intro origin inside
    rw [List.mem_singleton.mp inside]
    exact mem

/-- Whatever the piece is, its node obeys the rule of its site. -/
theorem Pending.conclude (h : Pending p start s l code v l') (ordered : Ordered p start s l)
    (tagged : p.Tags site code) (outside : ∀ node ∈ outer, node ∈ l.made) :
    Keeps p start (Ledger.conclude s site code v outer) l'
      (fun _ l'' => Concludes p start l site v outer l'') ret := by
  obtain ⟨settled, kept, madeValue, finished, rfl⟩ := h
  cases code with
  | getLocal name | getGlobal name | getClassVariable name =>
    obtain ⟨empty, value⟩ := finished
    refine conclude_reads kept rfl rfl (fun _ => empty) (fun slot found => ?_) value tagged outside
    rw [empty]
    exact ⟨slot, rfl, value ▸ found⟩
  | getProperty receiver name =>
    obtain ⟨node, one, madeBy, value⟩ := finished
    cases behind : Ledger.objectBehind node with
    | none =>
      rw [behind] at value
      subst value
      exact conclude_noProperty kept one madeBy behind tagged outside
    | some o =>
      rw [behind] at value
      refine conclude_reads (x := .property o name) kept rfl ?_ (fun other => absurd rfl (other _ _))
        (fun slot found => ?_) value tagged outside
      · unfold Code.reads
        rw [one, List.head?_cons, Option.bind_some, behind]
        rfl
      · rw [one]
        exact ⟨node, slot, rfl, madeBy, value ▸ found⟩
  | arg index =>
    obtain ⟨-, frame, here, passed⟩ := finished
    exact conclude_arg kept (ordered.after kept).supplied here passed tagged outside
  | int | str | nil | new | setLocal | setGlobal | setClassVariable | setProperty | add | call | ret
  | body | tagged => exact conclude_plain kept madeValue (fun _ => rfl) finished tagged outside

/-- A `return` leaves a piece behind. -/
theorem keeps_abandon (h : Escapes p start { l with operands := [] } v l')
    (tagged : p.Tags site code) (outside : ∀ node ∈ outer, node ∈ l.made) :
    Keeps p start (Ledger.abandon site code outer) l' (fun _ l'' => Kept p start l l'' ∧
      ∃ node others, l''.operands = node :: others ++ outer ∧ node.value = some v) ret := by
  obtain ⟨kept, node, others, operands, value⟩ := h
  have later : l.Extends l' := ⟨kept.extends'.grows, kept.extends'.made⟩
  rw [List.append_nil] at operands
  have inside : ∀ other ∈ node :: others ++ outer, other ∈ l'.made := by
    intro other mem
    rcases List.mem_append.mp mem with mem | mem
    · exact kept.books.operands other (operands ▸ mem)
    · exact later.made other (outside other mem)
  have known : node ∈ l'.made := inside node (List.mem_append_left _ List.mem_cons_self)
  have stays : Kept p start l { l' with operands := node :: others ++ outer } ∧
      ∃ top below, node :: others ++ outer = top :: below ++ outer ∧ top.value = some v :=
    ⟨⟨kept.books.withOperands inside, ⟨later.grows, later.made⟩⟩, node, others, rfl, value⟩
  cases code with
  | ret returned =>
    let late : Node Value := ⟨l'.next, creatorOf site, node.value, [node]⟩
    have run : (Ledger.abandon site (.ret returned) outer).run.run l' =
        (.ok (), { l'.add late with operands := late :: others ++ outer }) := by
      unfold Ledger.abandon
      rw [run_bind, run_get]
      dsimp only
      rw [operands]
      rfl
    have books : Books p start (l'.add late) := by
      refine kept.books.add rfl (.inr ⟨site, _, tagged, rfl, node, rfl, rfl⟩) ?_ ?_
      · intro origin mem
        rw [List.mem_singleton.mp mem]
        exact known
      · exact fun w same => kept.books.values node known w same
    have grown := later.trans (l'.extends_add late)
    refine .of_run run ⟨⟨books.withOperands ?_, ⟨grown.grows, grown.made⟩⟩, late, others, rfl, value⟩
    intro other mem
    rcases List.mem_cons.mp mem with rfl | mem
    · exact List.mem_cons_self
    · exact List.mem_cons_of_mem _ (inside other (List.mem_cons_of_mem _ mem))
  | _ =>
    rw [← operands] at stays
    exact .of_run (Ledger.run_abandon nofun) stays

end Concluding

/-! ### Code without parts -/

variable {ret : Value → Ledger → Prop}

theorem keeps_literal (h : Books p start l)
    (run : Ledger.eval (n + 1) s code = pure v) (plain : Entity.ofValue v = [])
    (finished : Finished p s v l code) (silent : code.writes l.operands = none) :
    Keeps p start (Ledger.eval (n + 1) s code) l (Pending p start s l code) ret := by
  rw [run]
  refine .pure ⟨l, .refl h, fun e mem => ?_, finished, by rw [silent]; rfl⟩
  rw [plain] at mem
  cases mem

theorem keeps_read (h : Books p start l) {x : Variable}
    (run : Ledger.eval (n + 1) s code = do return ((← get).value? p.scope x).getD .nil)
    (finished : Finished p s ((l.value? p.scope x).getD .nil) l code)
    (silent : code.writes l.operands = none) :
    Keeps p start (Ledger.eval (n + 1) s code) l (Pending p start s l code) ret := by
  rw [run]
  exact .get_bind (.pure ⟨l, .refl h, h.madeValue_read x, finished, by rw [silent]; rfl⟩)

/-- A new object has no properties. -/
theorem Books.addObject (h : Books p start l) :
    Books p start { l with world := l.world.addObject.2 } where
  toArchive := h.toArchive.congr rfl rfl
  values node mem v value e inside := by
    have before := h.values node mem v value e inside
    cases e with
    | object id => exact Nat.lt_of_lt_of_le before (by simp [World.addObject])
    | _ => exact before
  operands := h.operands
  slots := h.slots
  agrees x := by
    have same : ({ l with world := l.world.addObject.2 } : Ledger).value? p.scope x =
        l.value? p.scope x := by
      cases x with
      | property o name =>
        change (l.world.objects.push {})[o.number]?.bind _ = l.world.objects[o.number]?.bind _
        rw [Array.getElem?_push]
        split
        · next last =>
          rw [last, Array.getElem?_eq_none (Nat.le_refl _)]
          rfl
        · rfl
      | _ => rfl
    rw [same]
    exact h.agrees x
  scope := h.scope
  shares e other mem :=
    World.made_addObject (h.shares e other (World.sharesOf_addObject mem))

theorem keeps_new (h : Books p start l) (empty : l.operands = []) (name : String) :
    Keeps p start (Ledger.eval (n + 1) s (.new name)) l (Pending p start s l (.new name)) ret := by
  unfold Ledger.eval
  dsimp only
  refine .get_bind (.of_run rfl ?_)
  refine ⟨{ l with world := l.world.addObject.2 }, ⟨h.addObject, ⟨fun _ _ found => found,
    fun _ mem => mem⟩⟩, ?_, ⟨empty, _, rfl⟩, rfl⟩
  intro e mem
  rw [List.mem_singleton.mp mem]
  simp [World.Made, World.addObject]

theorem keeps_arg (ordered : Ordered p start s l) (empty : l.operands = []) (index : Nat) :
    Keeps p start (Ledger.eval (n + 1) s (.arg index)) l (Pending p start s l (.arg index)) ret := by
  unfold Ledger.eval
  dsimp only
  refine .get_bind ?_
  obtain ⟨frame, found, inOrder, known⟩ := ordered.supplied
  rw [found]
  dsimp only
  cases passed : frame.args[index]? with
  | none => exact .failing ordered.books.toArchive
  | some v =>
    obtain ⟨node, there, value⟩ := argument_value inOrder passed
    have madeValue := ordered.books.madeValue (known node (List.mem_of_getElem? there)) value
    exact .pure ⟨l, .refl ordered.books, madeValue, ⟨empty, frame, found, passed⟩, rfl⟩

/-! ### Code with parts -/

/-- Code of any form keeps the books, for as many steps. -/
structure Keeping (p : Program) (start : Nat) (n : Nat) : Prop where
  code : ∀ s l code, Ordered p start s l → code.Shaped p.scope true →
    (∀ tag ∈ code.tags, p.Tags tag.1 tag.2) →
    Keeps p start (Ledger.eval n s code) l (Yields p start l code) (Escapes p start l)
  piece : ∀ s l code, Ordered p start s l → code.Piece p.scope true →
    (∀ tag ∈ code.tags, p.Tags tag.1 tag.2) → l.operands = [] →
    Keeps p start (Ledger.eval n s code) l (Pending p start s l code) (Escapes p start l)
  args : ∀ s l args, Ordered p start s l → (∀ c ∈ args, c.Shaped p.scope true) →
    (∀ tag ∈ Code.tagsAll args, p.Tags tag.1 tag.2) →
    Keeps p start (Ledger.evalArgs n s args) l (Supplies p start l args) (Escapes p start l)
  body : ∀ s l last statements, Ordered p start s l → (∀ c ∈ statements, c.Shaped p.scope true) →
    (∀ tag ∈ Code.tagsAll statements, p.Tags tag.1 tag.2) →
    Keeps p start (Ledger.evalBody n s last statements) l (Tops p start l last statements)
      (Escapes p start l)
  function : ∀ s l boundary code, Ordered p start s l → code.Shaped p.scope true →
    (∀ tag ∈ code.tags, p.Tags tag.1 tag.2) →
    Keeps p start (Ledger.eval n s (.tagged boundary code)) l (Yields p start l code)
      (Escapes p start l)

section Parts

variable (keeping : Keeping p start n) (ordered : Ordered p start s l)

include keeping ordered

/-- An assignment: the value of its part goes into a variable. -/
theorem keeps_assign {value : Code} (shaped : value.Shaped p.scope true)
    (tags : ∀ tag ∈ value.tags, p.Tags tag.1 tag.2) (empty : l.operands = []) {x : Variable}
    (run : Ledger.eval (n + 1) s code = do
      let v ← Ledger.eval n s value
      modify (·.assign p.scope x v)
      return v)
    (writes : ∀ used, code.writes used = some x)
    (finished : ∀ v l, Finished p s v l code = Rule p l.operands (some v) code)
    (rule : ∀ node v, MadeBy value node → node.value = some v → Rule p [node] (some v) code) :
    Keeps p start (Ledger.eval (n + 1) s code) l (Pending p start s l code) (Escapes p start l) := by
  rw [run]
  refine .bind (keeping.code s l value ordered shaped tags) fun v l' yields => .of_run rfl ?_
  obtain ⟨kept, node, operands, known, madeBy⟩ := id yields
  refine ⟨l', kept, yields.madeValue, ?_, by rw [writes]; rfl⟩
  rw [finished v l', operands, empty]
  exact rule node v madeBy known

theorem keeps_ret {value : Code} (shaped : value.Shaped p.scope true)
    (tags : ∀ tag ∈ value.tags, p.Tags tag.1 tag.2) :
    Keeps p start (Ledger.eval (n + 1) s (.ret value)) l (Pending p start s l (.ret value))
      (Escapes p start l) := by
  unfold Ledger.eval
  dsimp only
  refine .bind (keeping.code s l value ordered shaped tags) fun v l' yields => .returning ?_
  obtain ⟨kept, node, operands, known, -⟩ := yields
  exact ⟨kept, node, [], operands, known⟩

theorem keeps_add {left right : Code} (shapedLeft : left.Shaped p.scope true)
    (shapedRight : right.Shaped p.scope true)
    (tags : ∀ tag ∈ left.tags ++ right.tags, p.Tags tag.1 tag.2) (empty : l.operands = []) :
    Keeps p start (Ledger.eval (n + 1) s (.add left right)) l
      (Pending p start s l (.add left right)) (Escapes p start l) := by
  unfold Ledger.eval
  dsimp only
  refine .bind (keeping.code s l left ordered shapedLeft fun tag mem =>
    tags tag (List.mem_append_left _ mem)) fun v l' first => ?_
  refine .bind (.mono (keeping.code s l' right (ordered.after first.kept) shapedRight fun tag mem =>
    tags tag (List.mem_append_right _ mem)) (fun _ _ => id) fun w l'' => first.escapes)
    fun w l'' second => ?_
  obtain ⟨kept, node, operands, value, madeBy⟩ := first
  obtain ⟨kept', node', operands', value', madeBy'⟩ := second
  have both : Kept p start l l'' := kept.trans kept'
  rw [operands, empty] at operands'
  have comes : ∀ sum : Value, Entity.ofValue sum = [] → Sum (some v) (some w) (some sum) →
      Pending p start s l (.add left right) sum l'' := by
    intro sum plain adds
    refine ⟨l'', both, fun e mem => ?_, ⟨node', node, operands', madeBy', madeBy, ?_⟩, rfl⟩
    · rw [plain] at mem
      cases mem
    · rw [value, value']
      exact adds
  cases v with
  | int a =>
    cases w with
    | int b => exact .pure (comes _ rfl (.int a b))
    | _ => exact .failing both.books.toArchive
  | str a =>
    cases w with
    | str b => exact .pure (comes _ rfl (.str a b))
    | _ => exact .failing both.books.toArchive
  | _ => exact .failing both.books.toArchive

theorem keeps_getProperty {receiver : Code} (shaped : receiver.Shaped p.scope true)
    (tags : ∀ tag ∈ receiver.tags, p.Tags tag.1 tag.2) (empty : l.operands = []) (name : String) :
    Keeps p start (Ledger.eval (n + 1) s (.getProperty receiver name)) l
      (Pending p start s l (.getProperty receiver name)) (Escapes p start l) := by
  unfold Ledger.eval
  dsimp only
  refine .bind (keeping.code s l receiver ordered shaped tags) fun v l' yields => ?_
  obtain ⟨kept, node, operands, value, madeBy⟩ := yields
  rw [empty] at operands
  have nothing : ∀ w, node.value = some w → Entity.ofValue w = [] →
      Pending p start s l (.getProperty receiver name) .nil l' := by
    intro w value plain
    refine ⟨l', kept, Books.madeValue_nil _, ⟨node, operands, madeBy, ?_⟩, rfl⟩
    rw [objectBehind_of_plain value plain]
    rfl
  cases v with
  | object id className =>
    dsimp only
    refine .get_bind (.pure ⟨l', kept, kept.books.madeValue_read (.property id name),
      ⟨node, operands, madeBy, ?_⟩, rfl⟩)
    rw [objectBehind_of_value value]
    rfl
  | _ => exact .pure (nothing _ value rfl)

theorem keeps_setProperty {receiver assigned : Code} (shapedValue : assigned.Shaped p.scope true)
    (shapedReceiver : receiver.Shaped p.scope true)
    (tags : ∀ tag ∈ assigned.tags ++ receiver.tags, p.Tags tag.1 tag.2) (empty : l.operands = [])
    (name : String) :
    Keeps p start (Ledger.eval (n + 1) s (.setProperty receiver name assigned)) l
      (Pending p start s l (.setProperty receiver name assigned)) (Escapes p start l) := by
  unfold Ledger.eval
  dsimp only
  refine .bind (keeping.code s l assigned ordered shapedValue fun tag mem =>
    tags tag (List.mem_append_left _ mem)) fun v l' first => ?_
  refine .bind (.mono (keeping.code s l' receiver (ordered.after first.kept) shapedReceiver
    fun tag mem => tags tag (List.mem_append_right _ mem)) (fun _ _ => id) fun w l'' => first.escapes)
    fun w l'' second => ?_
  obtain ⟨kept, node, operands, value, madeBy⟩ := first
  obtain ⟨kept', node', operands', value', madeBy'⟩ := second
  rw [operands, empty] at operands'
  have known : node ∈ l''.made := kept'.books.operands node (by rw [operands']; simp)
  have comes : ∀ l₃, l₃ = l''.settle p.scope
      ((Code.setProperty receiver name assigned).writes l''.operands) v →
      Pending p start s l (.setProperty receiver name assigned) v l₃ := by
    rintro l₃ rfl
    exact ⟨l'', kept.trans kept', kept'.books.madeValue known value,
      ⟨node', node, operands', madeBy', madeBy, value⟩, rfl⟩
  have target : (Code.setProperty receiver name assigned).writes l''.operands =
      (Ledger.objectBehind node').map (.property · name) := by
    rw [operands']
    rfl
  have elsewhere : Entity.ofValue w = [] →
      Pending p start s l (.setProperty receiver name assigned) v l'' := fun plain =>
    comes l'' (by rw [target, objectBehind_of_plain value' plain]; rfl)
  cases w with
  | object id className =>
    refine .of_run rfl (comes _ ?_)
    rw [target, objectBehind_of_value value']
    rfl
  | _ => exact .pure (elsewhere rfl)

theorem keeps_args {args : List Code} (shaped : ∀ c ∈ args, c.Shaped p.scope true)
    (tags : ∀ tag ∈ Code.tagsAll args, p.Tags tag.1 tag.2) :
    Keeps p start (Ledger.evalArgs (n + 1) s args) l (Supplies p start l args) (Escapes p start l) := by
  unfold Ledger.evalArgs
  cases args with
  | nil => exact .pure ⟨.refl ordered.books, [], rfl, .nil, rfl⟩
  | cons arg rest =>
    refine .bind (keeping.code s l arg ordered (shaped _ List.mem_cons_self) fun tag mem =>
      tags tag (List.mem_append_left _ mem)) fun v l' first => ?_
    refine .bind (.mono (keeping.args s l' rest (ordered.after first.kept)
      (fun c mem => shaped c (List.mem_cons_of_mem _ mem)) fun tag mem =>
        tags tag (List.mem_append_right _ mem)) (fun _ _ => id) fun w l'' => first.escapes)
      fun values l'' second => .pure ?_
    obtain ⟨kept, node, operands, value, madeBy⟩ := first
    obtain ⟨kept', nodes, operands', allMadeBy, inOrder⟩ := second
    refine ⟨kept.trans kept', node :: nodes, ?_, .cons madeBy allMadeBy, ?_⟩
    · rw [operands', operands]
      simp
    · rw [List.map_cons, List.map_cons, value, inOrder]

theorem keeps_statements {last : Value} {statements : List Code}
    (shaped : ∀ c ∈ statements, c.Shaped p.scope true)
    (tags : ∀ tag ∈ Code.tagsAll statements, p.Tags tag.1 tag.2) :
    Keeps p start (Ledger.evalBody (n + 1) s last statements) l (Tops p start l last statements)
      (Escapes p start l) := by
  unfold Ledger.evalBody
  cases statements with
  | nil => exact .pure ⟨.refl ordered.books, .inr ⟨rfl, rfl, rfl⟩⟩
  | cons statement rest =>
    refine .bind (keeping.code s l statement ordered (shaped _ List.mem_cons_self) fun tag mem =>
      tags tag (List.mem_append_left _ mem)) fun v l' first => ?_
    refine .mono (keeping.body s l' v rest (ordered.after first.kept)
      (fun c mem => shaped c (List.mem_cons_of_mem _ mem)) fun tag mem =>
        tags tag (List.mem_append_right _ mem)) (fun w l'' tops => ?_) fun w l'' => first.escapes
    obtain ⟨kept, node, operands, value, -⟩ := first
    obtain ⟨kept', ⟨node', others, operands', value'⟩ | ⟨-, rfl, rfl⟩⟩ := tops
    · refine ⟨kept.trans kept', .inl ⟨node', others ++ [node], ?_, value'⟩⟩
      rw [operands', operands]
      simp
    · exact ⟨kept, .inl ⟨node, [], operands, value⟩⟩

theorem keeps_body {statements : List Code} (shaped : ∀ c ∈ statements, c.Shaped p.scope true)
    (tags : ∀ tag ∈ Code.tagsAll statements, p.Tags tag.1 tag.2) (empty : l.operands = []) :
    Keeps p start (Ledger.eval (n + 1) s (.body statements)) l
      (Pending p start s l (.body statements)) (Escapes p start l) := by
  unfold Ledger.eval
  dsimp only
  have topped : ∀ v l', Escapes p start l v l' → Pending p start s l (.body statements) v l' := by
    rintro v l' ⟨kept, node, others, operands, value⟩
    rw [empty, List.append_nil] at operands
    refine ⟨l', kept, kept.books.madeValue (kept.books.operands node ?_) value,
      .inl ⟨node, others, operands, value⟩, rfl⟩
    rw [operands]
    exact List.mem_cons_self
  refine .catching (.mono (keeping.body s l .nil statements ordered shaped tags) (fun v l' tops => ?_)
    fun _ _ => id) (fun v l' escapes => .pure (topped v l' escapes)) fun e others => ?_
  · obtain ⟨kept, left | ⟨none, rfl, rfl⟩⟩ := tops
    · exact topped v l' ⟨kept, left⟩
    · exact ⟨l', kept, Books.madeValue_nil _, .inr ⟨none, empty, rfl⟩, rfl⟩
  · cases e with
    | returning v => exact absurd rfl (others v)
    | _ => rfl

/-- Between its checkpoints a piece works on operands of its own, and one node takes their place. -/
theorem keeps_tagged (id : SiteId) (label : String) (piece : code.Piece p.scope true)
    (tags : ∀ tag ∈ (Code.tagged (siteOf p.scope id label code) code).tags, p.Tags tag.1 tag.2) :
    Keeps p start (Ledger.eval (n + 1) s (.tagged (siteOf p.scope id label code) code)) l
      (Yields p start l (.tagged (siteOf p.scope id label code) code)) (Escapes p start l) := by
  have own : p.Tags (siteOf p.scope id label code) code := tags _ List.mem_cons_self
  have bare : Ordered p start s { l with operands := [] } :=
    ⟨ordered.program, ordered.traced, ordered.books.withOperands nofun, ordered.supplied⟩
  have inner := keeping.piece s { l with operands := [] } code bare piece
    (fun tag mem => tags tag (List.mem_cons_of_mem _ mem)) rfl
  unfold Ledger.eval
  dsimp only
  rw [if_neg (by rw [isTagged_of_piece piece]; exact Bool.false_ne_true)]
  have emptied : Keeps p start (modify ({ · with operands := [] })) l
      (fun _ l' => l' = { l with operands := [] }) (Escapes p start l) := .of_run rfl rfl
  refine .get_bind (.bind emptied fun _ l' same => ?_)
  subst same
  refine .bind (.catching inner (fun v l' escapes => ?_) fun e others => ?_) fun v l' pending => ?_
  · exact .bind (keeps_abandon escapes own ordered.books.operands) fun _ l'' left =>
      .returning left
  · cases e with
    | returning v => exact absurd rfl (others v)
    | _ => rfl
  · refine .bind (pending.conclude bare own ordered.books.operands) fun _ l'' concluded => .pure ?_
    obtain ⟨kept, node, operands, value, creator⟩ := concluded
    exact ⟨⟨kept.books, ⟨kept.extends'.grows, kept.extends'.made⟩⟩, node, operands, value, _, _, rfl,
      creator⟩

end Parts

/-! ### Calls -/

/-- An invocation begins without locals. -/
theorem Books.call (h : Books p start l) {frame : Frame}
    (shares : ∀ e ∈ World.frameShares frame, l.world.Made e) : Books p start { l with
      world := (l.world.addFrame frame).2, locals := {}, localNodes := {}, operands := [] } where
  toArchive := h.toArchive.congr rfl rfl
  values node mem v value e inside := World.made_addFrame (h.values node mem v value e inside) frame
  operands := nofun
  slots x node found := by
    cases x with
    | localVar name => cases found
    | globalVar name => exact h.slots (.globalVar name) node found
    | classVar name => exact h.slots (.classVar name) node found
    | property o name => exact h.slots (.property o name) node found
  agrees x := by
    cases x with
    | localVar name => exact .none_none
    | globalVar name => exact h.agrees (.globalVar name)
    | classVar name => exact h.agrees (.classVar name)
    | property o name => exact h.agrees (.property o name)
  scope := h.scope
  shares e other mem := World.made_addFrame
    ((World.sharesOf_addFrame mem).elim (h.shares e other) (shares other)) frame

/-- The caller finds its locals as they were. -/
theorem Books.back (h : Books p start l) (after : Books p start l')
    (made : ∀ node ∈ l.made, node ∈ l'.made) : Books p start { l' with
      locals := l.locals, localNodes := l.localNodes, operands := l'.operands ++ l.operands } where
  toArchive := after.toArchive.congr rfl rfl
  values := after.values
  operands node mem := (List.mem_append.mp mem).elim (after.operands node) fun mem =>
    made node (h.operands node mem)
  slots x node found := by
    cases x with
    | localVar name => exact made node (h.slots (.localVar name) node found)
    | globalVar name => exact after.slots (.globalVar name) node found
    | classVar name => exact after.slots (.classVar name) node found
    | property o name => exact after.slots (.property o name) node found
  agrees x := by
    cases x with
    | localVar name => exact h.agrees (.localVar name)
    | globalVar name => exact after.agrees (.globalVar name)
    | classVar name => exact after.agrees (.classVar name)
    | property o name => exact after.agrees (.property o name)
  scope := after.scope
  shares := after.shares

theorem ends_withActivation {α : Type} (work : LedgerM α) (post : Except Interrupt α → Ledger → Prop) :
    Ends (Ledger.withActivation s work) l post ↔
      Ends work { l with locals := {}, localNodes := {}, operands := [] } fun r after =>
        post r { after with
          locals := l.locals, localNodes := l.localNodes
          operands := (if s.traced then after.operands else []) ++ l.operands } := Iff.rfl

/-- Every function of a traced program is a boundary around a body. -/
theorem Program.WellTagged.function_traced (tagged : p.WellTagged) (traced : p.Traced) {name : String}
    {function : Code} (found : p.functions.get? name = some function) :
    ∃ boundary body, function = .tagged boundary body ∧ body.Shaped p.scope true := by
  have isTagged := traced.functions name function found
  have defined := tagged.functions name function found
  cases defined with
  | plain => cases isTagged
  | traced boundary label id bodyLabel shaped =>
    exact ⟨_, _, rfl, .tagged id bodyLabel (.body shaped)⟩

/-- A function that is called finds the books in order, and its arguments among the nodes. -/
theorem Ordered.call {nodes : List (Node Value)} {values : List Value}
    (ordered : Ordered p start s l) (operands : l.operands = nodes.reverse)
    (inOrder : nodes.map (·.value) = values.map some) (name : String) :
    let frame : Frame := { name, caller := some s.frame, args := values }
    Ordered p start {
        program := p, frame := (l.world.addFrame frame).1, traced := true
        arguments := some (l.operands.take values.length) }
      { l with
        world := (l.world.addFrame frame).2, locals := {}, localNodes := {}, operands := [] } := by
  intro frame
  have length : values.length = nodes.length := by
    simpa using (congrArg List.length inOrder).symm
  have passed : l.operands.take values.length = nodes.reverse := by
    rw [operands, length, ← List.length_reverse, List.take_length]
  have shares : ∀ e ∈ World.frameShares frame, l.world.Made e := by
    intro e mem
    rcases List.mem_append.mp mem with mem | mem
    · obtain ⟨own, found, -⟩ := ordered.supplied
      obtain rfl := List.mem_singleton.mp mem
      exact World.made_frame.mpr ⟨own, found⟩
    · obtain ⟨v, used, inside⟩ := List.mem_flatMap.mp mem
      obtain ⟨node, known, value⟩ : ∃ node ∈ nodes, node.value = some v := by
        have there : some v ∈ nodes.map (·.value) := inOrder ▸ List.mem_map_of_mem used
        exact List.mem_map.mp there
      refine ordered.books.values node (ordered.books.operands node ?_) v value e inside
      rw [operands]
      exact List.mem_reverse.mpr known
  refine ⟨rfl, rfl, ordered.books.call shares, frame, World.frame?_addFrame _ _, ?_, ?_⟩
  · change (l.operands.take values.length).map (·.value) = values.reverse.map some
    rw [passed, List.map_reverse, inOrder, List.map_reverse]
  · exact fun node mem => ordered.books.operands node (List.mem_of_mem_take mem)

theorem keeps_call (keeping : Keeping p start n) (tagged : p.WellTagged) (traced : p.Traced)
    (ordered : Ordered p start s l) (name : String) {args : List Code}
    (shaped : ∀ c ∈ args, c.Shaped p.scope true)
    (tags : ∀ tag ∈ Code.tagsAll args, p.Tags tag.1 tag.2) (empty : l.operands = []) :
    Keeps p start (Ledger.eval (n + 1) s (.call name args)) l (Pending p start s l (.call name args))
      (Escapes p start l) := by
  unfold Ledger.eval
  dsimp only
  refine .bind (keeping.args s l args ordered shaped tags) fun values l' supplies => ?_
  obtain ⟨kept, nodes, operands, madeBy, inOrder⟩ := supplies
  rw [empty, List.append_nil] at operands
  rw [ordered.program]
  cases found : p.functions.get? name with
  | none => exact .failing kept.books.toArchive
  | some function =>
    dsimp only
    obtain ⟨boundary, body, rfl, shapedBody⟩ := tagged.function_traced traced found
    refine .get_bind ?_
    rw [ordered.traced]
    let frame : Frame := { name, caller := some s.frame, args := values }
    let world := (l'.world.addFrame frame).2
    let begins : Ledger := { l' with world, locals := {}, localNodes := {}, operands := [] }
    let callee : Setting := {
      program := p, frame := (l'.world.addFrame frame).1, traced := true
      arguments := some (l'.operands.take values.length) }
    have inside : Ordered p start callee begins :=
      (ordered.after kept).call operands inOrder name
    have inner := keeping.function callee begins boundary body inside shapedBody fun tag mem =>
      .inr ⟨name, _, found, List.mem_cons_of_mem _ mem⟩
    have grows : l'.world.Grows world := World.grows_addFrame _ _
    unfold Keeps
    rw [ends_bind, ends_set]
    dsimp only
    rw [ends_withActivation]
    refine Ends.mono inner ?_
    rw [ordered.traced]
    rintro ((v | failure | _) | v) after post
    · obtain ⟨kept', node, others, top, value⟩ := post
      refine ⟨⟨kept.books.back kept'.books kept'.extends'.made,
        kept.extends'.trans ⟨grows.trans kept'.extends'.grows, kept'.extends'.made⟩⟩,
        node, others ++ nodes.reverse, ?_, value⟩
      change after.operands ++ l'.operands = _
      rw [top, operands, empty]
      simp [begins]
    · exact Archive.congr post rfl rfl
    · exact Archive.congr post rfl rfl
    · obtain ⟨kept', node, top, value, madeByBody⟩ := post
      have books := kept.books.back kept'.books kept'.extends'.made
      have known : node ∈ after.made := kept'.books.operands node (by rw [top]; simp)
      refine ⟨_, ⟨books, kept.extends'.trans ⟨grows.trans kept'.extends'.grows,
        kept'.extends'.made⟩⟩, books.madeValue known value, ?_, rfl⟩
      refine ⟨node, nodes, ?_, ⟨boundary, body, found, madeByBody⟩, madeBy, value⟩
      change after.operands ++ l'.operands = _
      rw [top, operands]
      rfl

/-! ### All code -/

theorem keeps_piece (keeping : Keeping p start n) (tagged : p.WellTagged) (traced : p.Traced)
    (ordered : Ordered p start s l) (piece : code.Piece p.scope true)
    (tags : ∀ tag ∈ code.tags, p.Tags tag.1 tag.2) (empty : l.operands = []) :
    Keeps p start (Ledger.eval (n + 1) s code) l (Pending p start s l code) (Escapes p start l) := by
  cases piece with
  | int k => exact keeps_literal ordered.books rfl rfl ⟨empty, rfl⟩ rfl
  | str text => exact keeps_literal ordered.books rfl rfl ⟨empty, rfl⟩ rfl
  | nil => exact keeps_literal ordered.books rfl rfl ⟨empty, rfl⟩ rfl
  | new className => exact keeps_new ordered.books empty className
  | getLocal name => exact keeps_read (x := .localVar name) ordered.books rfl ⟨empty, rfl⟩ rfl
  | getGlobal name => exact keeps_read (x := .globalVar name) ordered.books rfl ⟨empty, rfl⟩ rfl
  | getClassVariable name =>
    obtain rfl := ordered.program
    exact keeps_read (x := .classVar name) ordered.books rfl ⟨empty, rfl⟩ rfl
  | setLocal name shaped =>
    exact keeps_assign (x := .localVar name) keeping ordered shaped tags empty rfl (fun _ => rfl)
      (fun _ _ => rfl) fun node v madeBy value => ⟨node, rfl, madeBy, value⟩
  | setGlobal name shaped =>
    exact keeps_assign (x := .globalVar name) keeping ordered shaped tags empty rfl (fun _ => rfl)
      (fun _ _ => rfl) fun node v madeBy value => ⟨node, rfl, madeBy, value⟩
  | setClassVariable name shaped =>
    obtain rfl := ordered.program
    exact keeps_assign (x := .classVar name) keeping ordered shaped tags empty rfl (fun _ => rfl)
      (fun _ _ => rfl) fun node v madeBy value => ⟨node, rfl, madeBy, value⟩
  | arg index => exact keeps_arg ordered empty index
  | add left right => exact keeps_add keeping ordered left right tags empty
  | call name shaped => exact keeps_call keeping tagged traced ordered name shaped tags empty
  | getProperty name shaped => exact keeps_getProperty keeping ordered shaped tags empty name
  | setProperty name value receiver =>
    exact keeps_setProperty keeping ordered value receiver tags empty name
  | ret shaped => exact keeps_ret keeping ordered shaped tags
  | body shaped => exact keeps_body keeping ordered shaped tags empty

/-- Traced code keeps the books, by induction on the steps allowed. -/
theorem keeping (tagged : p.WellTagged) (traced : p.Traced) (start n : Nat) : Keeping p start n := by
  induction n with
  | zero =>
    constructor
    all_goals intros
    all_goals simp only [Ledger.eval_zero, Ledger.evalArgs_zero, Ledger.evalBody_zero]
    all_goals exact .outOfFuel (Ordered.books ‹_›).toArchive
  | succ n ih =>
    constructor
    · intro s l code ordered shaped tags
      cases shaped with
      | tagged id label piece => exact keeps_tagged ih ordered id label piece tags
    · intro s l code ordered piece tags empty
      exact keeps_piece ih tagged traced ordered piece tags empty
    · intro s l args ordered shaped tags
      exact keeps_args ih ordered shaped tags
    · intro s l last statements ordered shaped tags
      exact keeps_statements ih ordered shaped tags
    · intro s l boundary code ordered shaped tags
      cases shaped with
      | tagged id label piece =>
        unfold Ledger.eval
        exact ih.code s l _ ordered (.tagged id label piece) tags

end Lineage.Toy
