import Lineage.Proofs.Toy.Collector
import Lineage.Proofs.Toy.Form

/-!
# Slices are sound

Two programs that differ only in the payload of one literal make the same graph but for values, as
they have the same form. The value of a node is determined by its site and by the values of its
origins, so it can differ only where the literal is in the slice of the node.
-/

namespace Lineage.Toy

open Tracer (creatorOf)

/-! ### Programs that differ in one literal -/

namespace Code

/-- A literal without its payload. -/
def emptied : Code → Code
  | .int _ => .int 0
  | .str _ => .str ""
  | code => code

mutual

/-- The code without the payload of the literal at the site, which the label of the site shows too. -/
def without (s : SiteId) : Code → Code
  | .int n => .int n
  | .str text => .str text
  | .nil => .nil
  | .new className => .new className
  | .getLocal name => .getLocal name
  | .setLocal name value => .setLocal name (value.without s)
  | .arg index => .arg index
  | .add left right => .add (left.without s) (right.without s)
  | .call name args => .call name (withoutAll s args)
  | .getProperty receiver name => .getProperty (receiver.without s) name
  | .setProperty receiver name value => .setProperty (receiver.without s) name (value.without s)
  | .getGlobal name => .getGlobal name
  | .setGlobal name value => .setGlobal name (value.without s)
  | .getClassVariable name => .getClassVariable name
  | .setClassVariable name value => .setClassVariable name (value.without s)
  | .ret value => .ret (value.without s)
  | .body statements => .body (withoutAll s statements)
  | .tagged site code =>
      if site.id = s then .tagged { site with label := "" } (code.without s).emptied
      else .tagged site (code.without s)

def withoutAll (s : SiteId) : List Code → List Code
  | [] => []
  | code :: rest => code.without s :: withoutAll s rest

end

/-- A tagged piece, without the payload of the literal at the site. -/
def withoutTag (s : SiteId) (tag : Site kinds × Code) : Site kinds × Code :=
  if tag.1.id = s then ({ tag.1 with label := "" }, (tag.2.without s).emptied)
  else (tag.1, tag.2.without s)

variable (s : SiteId)

theorem form_emptied (code : Code) : code.emptied.form = code.form := by
  cases code <;> simp only [emptied, form]

theorem tags_emptied (code : Code) : code.emptied.tags = code.tags := by
  cases code <;> rfl

mutual

theorem form_without (code : Code) : (code.without s).form = code.form := by
  cases code with
  | tagged site code =>
    simp only [without]
    split <;> simp only [form, form_emptied, form_without code]
  | setLocal _ value | setGlobal _ value | setClassVariable _ value | ret value =>
    simp only [without, form, form_without value]
  | add left right => simp only [without, form, form_without left, form_without right]
  | call _ codes | body codes => simp only [without, form, form_withoutAll codes]
  | getProperty receiver => simp only [without, form, form_without receiver]
  | setProperty receiver _ value =>
    simp only [without, form, form_without receiver, form_without value]
  | _ => simp only [without]

theorem form_withoutAll (codes : List Code) : formAll (withoutAll s codes) = formAll codes := by
  cases codes with
  | nil => rfl
  | cons code rest =>
    simp only [withoutAll, formAll, form_without code, form_withoutAll rest]

end

mutual

theorem tags_without (code : Code) : (code.without s).tags = code.tags.map (withoutTag s) := by
  cases code with
  | tagged site code =>
    simp only [without, tags, List.map_cons, withoutTag]
    split <;> simp only [tags, tags_emptied, tags_without code]
  | setLocal _ value | setGlobal _ value | setClassVariable _ value | ret value =>
    simp only [without, tags, tags_without value]
  | add left right =>
    simp only [without, tags, tags_without left, tags_without right, List.map_append]
  | call _ codes | body codes => simp only [without, tags, tagsAll_without codes]
  | getProperty receiver => simp only [without, tags, tags_without receiver]
  | setProperty receiver _ value =>
    simp only [without, tags, tags_without receiver, tags_without value, List.map_append]
  | _ => rfl

theorem tagsAll_without (codes : List Code) :
    tagsAll (withoutAll s codes) = (tagsAll codes).map (withoutTag s) := by
  cases codes with
  | nil => rfl
  | cons code rest =>
    simp only [withoutAll, tagsAll, tags_without code, tagsAll_without rest, List.map_append]

end

theorem isTagged_without (code : Code) : (code.without s).isTagged = code.isTagged := by
  cases code with
  | tagged site code =>
    simp only [without]
    split <;> rfl
  | _ => rfl

end Code

namespace Program

variable {p p' : Program} {s : SiteId}

/-- The program without the payload of the literal at the site. -/
def without (p : Program) (s : SiteId) : Program :=
  { p with functions := p.functions.map (Code.without s), main := p.main.without s }

theorem form_without (p : Program) (s : SiteId) : (p.without s).form = p.form := by
  unfold without form Dict.map
  simp only [Code.form_without, List.map_map, Function.comp_def]

theorem get?_without (name : String) :
    (p.without s).functions.get? name = (p.functions.get? name).map (Code.without s) :=
  Dict.get?_map ..

/-- The tagged pieces are those of the program, without the payload. -/
theorem tags_without {site : Site kinds} {code : Code} : (p.without s).Tags site code ↔
    ∃ site' code', p.Tags site' code' ∧ Code.withoutTag s (site', code') = (site, code) := by
  unfold Tags
  constructor
  · rintro (inside | ⟨name, function, found, inside⟩)
    · change (site, code) ∈ (p.main.without s).tags at inside
      rw [Code.tags_without] at inside
      obtain ⟨⟨site', code'⟩, mem, same⟩ := List.mem_map.mp inside
      exact ⟨site', code', .inl mem, same⟩
    · rw [get?_without] at found
      obtain ⟨function', found', rfl⟩ := Option.map_eq_some_iff.mp found
      rw [Code.tags_without] at inside
      obtain ⟨⟨site', code'⟩, mem, same⟩ := List.mem_map.mp inside
      exact ⟨site', code', .inr ⟨name, function', found', mem⟩, same⟩
  · rintro ⟨site', code', inside | ⟨name, function, found, inside⟩, same⟩
    · left
      change (site, code) ∈ (p.main.without s).tags
      rw [Code.tags_without]
      exact List.mem_map.mpr ⟨_, inside, same⟩
    · refine .inr ⟨name, function.without s, ?_, ?_⟩
      · rw [get?_without, found]
        rfl
      · rw [Code.tags_without]
        exact List.mem_map.mpr ⟨_, inside, same⟩

theorem traced_of_without (same : p.without s = p'.without s) (traced : p.Traced) : p'.Traced := by
  constructor
  · have main : p.main.without s = p'.main.without s := congrArg Program.main same
    rw [← Code.isTagged_without s, ← main, Code.isTagged_without]
    exact traced.main
  · intro name code found
    have found' : (p.without s).functions.get? name = some (code.without s) := by
      rw [same, get?_without, found]
      rfl
    rw [get?_without] at found'
    obtain ⟨other, there, eq⟩ := Option.map_eq_some_iff.mp found'
    rw [← Code.isTagged_without s, ← eq, Code.isTagged_without]
    exact traced.functions name other there

/-- At any other site both programs have the same piece. -/
theorem same_piece {source : Source} {scope : ScopeId} (compiled : source.compile scope = some p)
    (same : p.without s = p'.without s) {site site' : Site kinds} {code code' : Code}
    (tagged : p.Tags site code) (tagged' : p'.Tags site' code') (sameId : site'.id = site.id)
    (other : site.id ≠ s) : code'.without s = code.without s := by
  have there : (p.without s).Tags site' (code'.without s) := by
    rw [same]
    exact tags_without.mpr ⟨site', code', tagged', if_neg (sameId ▸ other)⟩
  obtain ⟨site₁, code₁, tagged₁, eq⟩ := tags_without.mp there
  unfold Code.withoutTag at eq
  dsimp only at eq
  split at eq
  · next own =>
    obtain rfl := (Prod.mk.inj eq).1
    exact absurd (sameId.symm.trans own) other
  · obtain ⟨rfl, piece⟩ := Prod.mk.inj eq
    obtain rfl := (Prod.mk.inj (Source.tags_unique compiled tagged tagged₁ sameId.symm)).2
    exact piece.symm

end Program

/-! ### Values determined by values -/

/-- A read comes to the value of the slot's node, or to `nil` where that is unknown. -/
def ComesFrom (slot value : Option Value) : Prop := slot = value ∨ slot = none ∧ value = some .nil

/-- What a piece of code comes to, told by the values of the origins of its node. -/
def Comes (origins : List (Option Value)) (value : Option Value) : Code → Prop
  | .int n => value = some (.int n)
  | .str text => value = some (.str text)
  | .nil => value = some .nil
  | .new _ => ∃ id className, value = some (.object id className)
  | .getLocal _ | .getGlobal _ | .getClassVariable _ => ∃ slot, origins = [slot] ∧ ComesFrom slot value
  | .arg _ | .setLocal .. | .setGlobal .. | .setClassVariable .. | .ret _ => origins = [value]
  | .add .. => ∃ right left, origins = [right, left] ∧ Sum left right value
  | .call .. => ∃ arguments, origins = value :: arguments
  | .getProperty .. => ∃ object slot, origins = [object, slot] ∧ ComesFrom slot value
  | .setProperty .. => ∃ object, origins = [object, value]
  | .body _ => (∃ others, origins = value :: others) ∨ origins = [] ∧ value = some .nil
  | .tagged .. => False

theorem FromSlot.comesFrom {slot : Node Value} {value : Option Value} (h : FromSlot slot value) :
    ComesFrom slot.value value := by
  rcases h with same | ⟨unknown, rfl⟩
  · exact .inl same
  · refine .inr ⟨?_, rfl⟩
    rw [unknown]
    rfl

/-- The rule of a site determines the value in terms of values. -/
theorem Rule.comes {p : Program} {origins : List (Node Value)} {value : Option Value} {code : Code}
    (s : SiteId) (h : Rule p origins value code) :
    Comes (origins.map (·.value)) value (code.without s) := by
  cases code with
  | int | str | nil => exact h.2
  | new className =>
    obtain ⟨-, id, same⟩ := h
    exact ⟨id, className, same⟩
  | getLocal | getGlobal | getClassVariable =>
    obtain ⟨slot, rfl, from'⟩ := h
    exact ⟨_, rfl, from'.comesFrom⟩
  | arg | ret =>
    obtain ⟨origin, rfl, same⟩ := h
    exact congrArg ([·]) same
  | setLocal | setGlobal | setClassVariable =>
    obtain ⟨origin, rfl, -, same⟩ := h
    exact congrArg ([·]) same
  | add left right =>
    obtain ⟨r, l, rfl, -, -, sum⟩ := h
    exact ⟨_, _, rfl, sum⟩
  | call name args =>
    obtain ⟨body, arguments, rfl, -, -, rfl⟩ := h
    exact ⟨_, rfl⟩
  | getProperty receiver name =>
    obtain ⟨object, slot, rfl, -, from'⟩ := h
    exact ⟨_, _, rfl, from'.comesFrom⟩
  | setProperty receiver name value =>
    obtain ⟨object, assigned, rfl, -, -, rfl⟩ := h
    exact ⟨_, rfl⟩
  | body statements =>
    rcases h with ⟨last, others, rfl, rfl⟩ | ⟨-, rfl, rfl⟩
    · exact .inl ⟨_, rfl⟩
    · exact .inr ⟨rfl, rfl⟩
  | tagged site code => cases h

theorem ComesFrom.unique {slot : Option Value} {v v' : Value} (h : ComesFrom slot (some v))
    (h' : ComesFrom slot (some v')) : v' = v := by
  rcases h with rfl | ⟨rfl, unset⟩
  · rcases h' with same | ⟨⟨⟩, -⟩
    exact (Option.some.inj same).symm
  · rcases h' with impossible | ⟨-, unset'⟩
    · cases impossible
    · exact Option.some.inj (unset'.trans unset.symm)

theorem Sum.unique {left right : Option Value} {v v' : Value} (h : Sum left right (some v))
    (h' : Sum left right (some v')) : v' = v := by
  cases h <;> cases h' <;> rfl

/-- Values of one form that a piece comes to from the same values are the same. -/
theorem Comes.unique {origins : List (Option Value)} {v v' : Value} {code : Code}
    (h : Comes origins (some v) code) (h' : Comes origins (some v') code) (form : v'.form = v.form) :
    v' = v := by
  cases code with
  | int | str | nil => exact Option.some.inj (h'.trans h.symm)
  | new className =>
    obtain ⟨id, name, ⟨⟩⟩ := h
    obtain ⟨id', name', ⟨⟩⟩ := h'
    exact form
  | getLocal | getGlobal | getClassVariable =>
    obtain ⟨slot, rfl, from'⟩ := h
    obtain ⟨_, ⟨⟩, from''⟩ := h'
    exact from'.unique from''
  | arg | ret | setLocal | setGlobal | setClassVariable =>
    cases h.symm.trans h'
    rfl
  | add left right =>
    obtain ⟨r, l, rfl, sum⟩ := h
    obtain ⟨_, _, ⟨⟩, sum'⟩ := h'
    exact sum.unique sum'
  | call name args =>
    obtain ⟨arguments, rfl⟩ := h
    obtain ⟨_, ⟨⟩⟩ := h'
    rfl
  | getProperty receiver name =>
    obtain ⟨object, slot, rfl, from'⟩ := h
    obtain ⟨_, _, ⟨⟩, from''⟩ := h'
    exact from'.unique from''
  | setProperty receiver name value =>
    obtain ⟨object, rfl⟩ := h
    obtain ⟨_, ⟨⟩⟩ := h'
    rfl
  | body statements =>
    rcases h with ⟨others, rfl⟩ | ⟨rfl, ⟨⟩⟩
    · rcases h' with ⟨_, ⟨⟩⟩ | ⟨⟨⟩, -⟩
      rfl
    · rcases h' with ⟨_, ⟨⟩⟩ | ⟨-, ⟨⟩⟩
      rfl
  | tagged site code => cases h

/-! ### Nodes that correspond -/

/-- The node was created by the site. -/
def MadeAt (s : SiteId) (node : Node Value) : Prop := node.creator.map (·.site) = some s

theorem site_of_form {node node' : Node Value} (form : node'.form = node.form) :
    node'.creator.map (·.site) = node.creator.map (·.site) := by
  have sites : ∀ node : Node Value, node.form.creator.map (·.site) = node.creator.map (·.site) := by
    intro node
    rw [Node.creator_form, Option.map_map]
    rfl
  rw [← sites, form, sites]

section Determined

variable {source : Source} {scope : ScopeId} {p p' : Program} {s : SiteId}

/-- Made from the same values, nodes of one form have the same value, unless the literal made them. -/
theorem Filed.same_value (compiled : source.compile scope = some p)
    (same : p.without s = p'.without s) {node node' : Node Value} (filed : Filed p node)
    (filed' : Filed p' node') (form : node'.form = node.form) (other : ¬ MadeAt s node)
    (origins : node'.origins.map (·.value) = node.origins.map (·.value)) :
    node'.value = node.value := by
  have values : node'.value.map Value.form = node.value.map Value.form := by
    rw [← Node.value_form, form, Node.value_form]
  have creators := site_of_form form
  cases value : node.value with
  | none =>
    rw [value] at values
    exact Option.map_eq_none_iff.mp values
  | some v =>
    rw [value] at values
    obtain ⟨v', value', sameForm⟩ := Option.map_eq_some_iff.mp values
    rcases filed with unknown | ⟨site, code, tagged, creator, rule⟩
    · rw [unknown] at value
      cases value
    · rcases filed' with unknown' | ⟨site', code', tagged', creator', rule'⟩
      · rw [unknown'] at value'
        cases value'
      · rw [creator, creator'] at creators
        have sameId : site'.id = site.id := Option.some.inj creators
        have notThere : site.id ≠ s := fun own => other (by rw [MadeAt, creator, ← own]; rfl)
        have comes := rule.comes s
        have comes' := rule'.comes s
        rw [Program.same_piece compiled same tagged tagged' sameId notThere, origins] at comes'
        rw [value] at comes
        rw [value'] at comes' ⊢
        exact congrArg some (comes.unique comes' sameForm)

theorem map_eq_of_map_eq {α β γ : Type} {f : α → β} {g : α → γ} :
    ∀ {xs ys : List α}, xs.map f = ys.map f →
      (∀ x ∈ xs, ∀ y ∈ ys, f x = f y → g x = g y) → xs.map g = ys.map g
  | [], [], _, _ => rfl
  | x :: xs, y :: ys, same, each => by
    obtain ⟨first, rest⟩ := List.cons.inj same
    rw [List.map_cons, List.map_cons, each x List.mem_cons_self y List.mem_cons_self first,
      map_eq_of_map_eq rest fun x mem y mem' =>
        each x (List.mem_cons_of_mem _ mem) y (List.mem_cons_of_mem _ mem')]

/-- A node that the literal has not been used for has the same value in both runs, by induction on
    how it was made. -/
theorem same_value (compiled : source.compile scope = some p) (same : p.without s = p'.without s)
    {made made' : List (Node Value)} (filed : ∀ node ∈ made, Filed p node)
    (closed : ∀ node ∈ made, ∀ origin ∈ node.origins, origin ∈ made)
    (filed' : ∀ node ∈ made', Filed p' node)
    (closed' : ∀ node ∈ made', ∀ origin ∈ node.origins, origin ∈ made')
    (node node' : Node Value) (there : node ∈ made) (there' : node' ∈ made')
    (form : node'.form = node.form) (clean : ∀ a, Node.Reached [node] a → ¬ MadeAt s a) :
    node'.value = node.value := by
  refine (filed node there).same_value compiled same (filed' node' there') form
    (clean node (.root List.mem_cons_self)) ?_
  have forms : node'.origins.map Node.form = node.origins.map Node.form := by
    rw [← Node.origins_form, form, Node.origins_form]
  refine map_eq_of_map_eq forms fun origin' mem' origin mem sameForm => ?_
  exact same_value compiled same filed closed filed' closed' origin origin'
    (closed node there origin mem) (closed' node' there' origin' mem') sameForm
    fun a reached => clean a (reached.mono fun b inside => by
      rw [List.mem_singleton.mp inside]
      exact .origin (.root List.mem_cons_self) mem)
  termination_by sizeOf node
  decreasing_by
    have := List.sizeOf_lt_of_mem mem
    cases node
    simp only [Node.mk.sizeOf_spec] at *
    omega

end Determined

/-! ### Two runs -/

/-- The outcome without the payloads. -/
def Outcome.form : Outcome → Outcome
  | finished run => finished { run with value := run.value.form }
  | failed failure => failed failure.form
  | outOfFuel => outOfFuel

theorem Outcome.form_of (frame : FrameId) (r : Except Interrupt Value) :
    (Outcome.of frame r).form = .of frame (formed Value.form r) := by
  rcases r with (v | failure | _) | v <;> rfl

/-- Programs of one form come to ledgers of one form, in whatever order entries would be swept. -/
theorem Program.same_form {p p' : Program} (forms : p'.form = p.form) {world : World}
    {order : SweepOrder kinds} {start fuel : Nat} {r r' : Except Interrupt Value} {l l' : Ledger}
    (run : (Ledger.eval fuel (p.setting world) p.main).run.run (.first world start) = (r, l))
    (run' : (Ledger.eval fuel (p'.setting { world with order }) p'.main).run.run
      (.first { world with order } start) = (r', l')) :
    formed Value.form r' = formed Value.form r ∧ l'.form = l.form := by
  have inForm := (Ledger.evalInForm fuel).code (p.setting world) p.main (.first world start)
  have inForm' := (Ledger.evalInForm fuel).code (p'.setting { world with order }) p'.main
    (.first { world with order } start)
  have settings : (p'.setting { world with order }).form = (p.setting world).form := by
    unfold Program.setting Setting.form
    dsimp only
    rw [forms]
  have mains : p'.main.form = p.main.form := congrArg Program.main forms
  have firsts : (Ledger.first { world with order } start).form = (Ledger.first world start).form := rfl
  rw [settings, mains, firsts, inForm, run, run'] at inForm'
  exact ⟨(Prod.mk.inj inForm').1.symm, (Prod.mk.inj inForm').2.symm⟩

/-- Of the nodes, only this one has the number. -/
def Only (nodes : List (Node Value)) (n : Nat) (node : Node Value) : Prop :=
  ∀ other, other ∈ nodes ∧ other.seq = n ↔ other = node

/-- Two nodes are made by one site from nodes with the same numbers, and have the same value if the
    slice of the first does without the literal at `s`. -/
structure Counterpart (s : SiteId) (node node' : Node Value) : Prop where
  creator : node'.creator.map (·.site) = node.creator.map (·.site)
  origins : node'.origins.map (·.seq) = node.origins.map (·.seq)
  value : (∀ a ∈ Node.slice [node], ¬ MadeAt s a) → node'.value = node.value

/-- What has been collected is what has been made. -/
theorem Collected.mem_iff {p : Program} {start : Nat} {stage : Stage kinds (List (Node Value))}
    {l : Ledger} (collected : Collected start stage l.made) (archive : Archive p start l)
    (node : Node Value) : node ∈ stage.own ↔ node ∈ l.made := by
  refine ⟨fun mem => ?_, collected.all node⟩
  obtain ⟨root, there, rfl | used⟩ := collected.only node mem
  · exact there
  · exact archive.closed root there node used

theorem Collected.only_of_mem {p : Program} {start : Nat} {stage : Stage kinds (List (Node Value))}
    {l : Ledger} (collected : Collected start stage l.made) (archive : Archive p start l)
    {node : Node Value} (there : node ∈ l.made) : Only stage.own node.seq node := by
  intro other
  rw [collected.mem_iff archive]
  constructor
  · rintro ⟨mem, same⟩
    exact archive.numbered.unique mem there same
  · rintro rfl
    exact ⟨there, rfl⟩

/-- Slices are sound. On their first runs two programs that differ in the payload of one literal come
    to the same end but for payloads, and make nodes that correspond in the order of their numbers; a
    node that has no node of the literal in its slice has the same value in both runs. The entries may be
    swept in another order in the second run. -/
theorem Program.slices_sound {source source' : Source} {scope : ScopeId} {p p' : Program}
    (compiled : source.compile scope = some p) (compiled' : source'.compile scope = some p')
    (traced : source.AllTraced) {s : SiteId} (same : p.without s = p'.without s) (tracer : Tracer)
    (world : World) (owned : List Entity) (fresh : world.Fresh scope owned) (order : SweepOrder kinds)
    (interval nextSeq : Nat) (log : Log) (fuel : Nat) (outcome outcome' : Outcome)
    (ended ended' : World) (stage stage' : Stage kinds (List (Node Value)))
    (ran : p.run fuel (collector tracer) owned world ⟨⟨.ofInterval interval, nextSeq, log⟩, []⟩ =
      (outcome, ended, stage))
    (ran' : p'.run fuel (collector tracer) owned { world with order }
      ⟨⟨.ofInterval interval, nextSeq, log⟩, []⟩ = (outcome', ended', stage')) :
    outcome'.form = outcome.form ∧ stage'.shadow.nextSeq = stage.shadow.nextSeq ∧
    (∀ node ∈ stage.own ++ stage'.own,
      nextSeq ≤ node.seq ∧ node.seq < stage.shadow.nextSeq) ∧
    ∀ n, nextSeq ≤ n → n < stage.shadow.nextSeq → ∃ node node',
      Only stage.own n node ∧ Only stage'.own n node' ∧ Counterpart s node node' := by
  obtain ⟨tagged, rfl⟩ := Source.wellTagged_of_compile compiled
  obtain ⟨tagged', sameScope⟩ := Source.wellTagged_of_compile compiled'
  have isTraced := Source.traced_of_compile compiled traced
  have isTraced' := Program.traced_of_without same isTraced
  have fresh' : { world with order }.Fresh p'.scope owned := sameScope ▸ fresh.inOrder order
  obtain ⟨r, l, run, ends, collected⟩ := Program.run_next_to_ledger tagged isTraced fresh
    (watches_collector tracer nextSeq) interval nextSeq log [] fuel ⟨nofun, nofun, rfl⟩
  obtain ⟨r', l', run', ends', collected'⟩ := Program.run_next_to_ledger tagged' isTraced' fresh'
    (watches_collector tracer nextSeq) interval nextSeq log [] fuel ⟨nofun, nofun, rfl⟩
  rw [ran] at ends collected
  rw [ran'] at ends' collected'
  have archive := Program.archived tagged isTraced fresh nextSeq fuel run
  have archive' := Program.archived tagged' isTraced' fresh' nextSeq fuel run'
  have forms : p'.form = p.form := by
    rw [← Program.form_without p' s, ← same, Program.form_without]
  obtain ⟨outcomes, ledgers⟩ := Program.same_form forms run run'
  have made : l'.made.map Node.form = l.made.map Node.form := congrArg Ledger.made ledgers
  have next : l.next = stage.shadow.nextSeq := archive.numbered.count.trans collected.count.symm
  have next' : l'.next = stage'.shadow.nextSeq :=
    archive'.numbered.count.trans collected'.count.symm
  have nexts : l'.form.next = l.form.next := congrArg Ledger.next ledgers
  have told : Node.Told (· ∈ l.made) :=
    ⟨archive.closed, fun a b ha hb => archive.numbered.unique ha hb⟩
  dsimp only at ends ends'
  refine ⟨?_, next'.symm.trans (nexts.trans next), fun node mem => ?_, fun n low high => ?_⟩
  · rw [ends, ends', Outcome.form_of, Outcome.form_of, outcomes]
  · rw [← next]
    rcases List.mem_append.mp mem with own | own
    · exact archive.numbered.bounds ((collected.mem_iff archive node).mp own)
    · have bounds := archive'.numbered.bounds ((collected'.mem_iff archive' node).mp own)
      exact ⟨bounds.1, nexts ▸ bounds.2⟩
  · obtain ⟨node, there, rfl⟩ := archive.numbered.exists low (next ▸ high)
    obtain ⟨node', there', form⟩ := List.mem_map.mp (made ▸ List.mem_map_of_mem there)
    have number : node'.seq = node.seq := by
      rw [← Node.seq_form, form, Node.seq_form]
    refine ⟨node, node', collected.only_of_mem archive there,
      number ▸ collected'.only_of_mem archive' there', site_of_form form, ?_, fun clean => ?_⟩
    · have origins : node'.origins.map Node.form = node.origins.map Node.form := by
        rw [← Node.origins_form, form, Node.origins_form]
      refine map_eq_of_map_eq origins fun a _ b _ same => ?_
      rw [← Node.seq_form, same, Node.seq_form]
    · refine same_value compiled same archive.filed archive.closed archive'.filed archive'.closed
        node node' there there' form fun a reached => clean a ?_
      exact (Node.mem_slice_iff told fun b inside => List.mem_singleton.mp inside ▸ there).mpr reached

/-- The calling program, where the function adds another number. -/
def recallingSource : Source where
  functions := [{
    name := "f", params := ["x"], body := [.ret (.add (.getLocal "x") (.int 40)), .nil] }]
  main := callingSource.main

def recallingProgram : Program := (recallingSource.compile ⟨0⟩).get rfl

theorem Program.slices_sound_call :
    ∃ outcome outcome' ended ended' stage stage',
      callingProgram.run 20 (collector {}) [] firstWorld ⟨⟨.ofInterval 64, 1, {}⟩, []⟩ =
        (outcome, ended, stage) ∧
      recallingProgram.run 20 (collector {}) [] firstWorld ⟨⟨.ofInterval 64, 1, {}⟩, []⟩ =
        (outcome', ended', stage') ∧
      outcome = .finished ⟨⟨0⟩, .int 3⟩ ∧ outcome' = .finished ⟨⟨0⟩, .int 41⟩ ∧
      stage.shadow.nextSeq = 11 ∧ stage'.shadow.nextSeq = 11 ∧
      ∀ n, 1 ≤ n → n < 11 → ∃ node node', Only stage.own n node ∧ Only stage'.own n node' ∧
        Counterpart ⟨12⟩ node node' := by
  rcases ran : callingProgram.run 20 (collector {}) [] firstWorld ⟨⟨.ofInterval 64, 1, {}⟩, []⟩ with
    ⟨outcome, ended, stage⟩
  rcases ran' : recallingProgram.run 20 (collector {}) [] firstWorld
    ⟨⟨.ofInterval 64, 1, {}⟩, []⟩ with ⟨outcome', ended', stage'⟩
  have compiled : callingSource.compile ⟨0⟩ = some callingProgram := rfl
  have compiled' : recallingSource.compile ⟨0⟩ = some recallingProgram := rfl
  have same : callingProgram.without ⟨12⟩ = recallingProgram.without ⟨12⟩ := rfl
  have finished : (callingProgram.run 20 (collector {}) [] firstWorld
      ⟨⟨.ofInterval 64, 1, {}⟩, []⟩).1 = .finished ⟨⟨0⟩, .int 3⟩ := by decide +kernel
  have finished' : (recallingProgram.run 20 (collector {}) [] firstWorld
      ⟨⟨.ofInterval 64, 1, {}⟩, []⟩).1 = .finished ⟨⟨0⟩, .int 41⟩ := by decide +kernel
  have count : (callingProgram.run 20 (collector {}) [] firstWorld
      ⟨⟨.ofInterval 64, 1, {}⟩, []⟩).2.2.shadow.nextSeq = 11 := by decide +kernel
  rw [ran] at finished count
  rw [ran'] at finished'
  obtain ⟨-, sameCount, -, counterparts⟩ := Program.slices_sound compiled compiled'
    calling_allTraced same {} firstWorld [] firstWorld_fresh {} 64 1 {} 20 _ _ _ _ _ _ ran ran'
  rw [count] at counterparts sameCount
  exact ⟨outcome, outcome', ended, ended', stage, stage', rfl, rfl, finished, finished', count,
    sameCount, counterparts⟩

end Lineage.Toy
