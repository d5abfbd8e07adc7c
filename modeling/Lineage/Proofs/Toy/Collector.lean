import Lineage.Proofs.Toy.Bookkeeping
import Lineage.Proofs.Toy.Situations

/-!
# The graph of a traced run is a certificate

A collector does to the shadow state what the tracer does and keeps whatever nodes it finds there. On
the first run of a program that is traced as a whole it comes to have every node that is made, and each
node satisfies the rule of the site that it was created by.
-/

namespace Lineage.Toy

open Tracer (creatorOf)

/-! ### Collecting nodes -/

/-- The tracer, together with somebody who keeps the nodes that are in the store after a checkpoint,
    and the origins of those. -/
def collector (tracer : Tracer) : Listener kinds (List (Node Value)) where
  name := "collector"
  react host checkpoint := do
    StageM.onShadow (tracer.react host checkpoint)
    modify fun stage =>
      let found := stage.shadow.store.nodes
      { stage with own := stage.own ++ (found ++ found.flatMap (·.origins)) }

/-- All nodes made have been collected, nothing else has, and each has a number from `start` on. -/
structure Collected (start : Nat) (stage : Stage kinds (List (Node Value)))
    (made : List (Node Value)) : Prop where
  all : ∀ node ∈ made, node ∈ stage.own
  only : ∀ node ∈ stage.own, ∃ root ∈ made, node = root ∨ node ∈ root.origins
  count : stage.shadow.nextSeq = start + made.length

theorem run_collector (tracer : Tracer) (host : Host kinds) (checkpoint : Checkpoint kinds)
    (stage : Stage kinds (List (Node Value))) :
    ((collector tracer).react host checkpoint).run.run stage =
      match (tracer.react host checkpoint).run.run stage.shadow with
      | (.ok (), shadow) => (.ok (), ⟨shadow,
          stage.own ++ (shadow.store.nodes ++ shadow.store.nodes.flatMap (·.origins))⟩)
      | (.error fault, shadow) => (.error fault, ⟨shadow, stage.own⟩) := by
  unfold collector
  dsimp only
  have first : (StageM.onShadow (tracer.react host checkpoint)).run.run stage =
      (((tracer.react host checkpoint).run.run stage.shadow).1,
        { stage with shadow := ((tracer.react host checkpoint).run.run stage.shadow).2 }) := rfl
  rw [run_bind, first]
  rcases (tracer.react host checkpoint).run.run stage.shadow with ⟨_ | _, shadow⟩ <;> rfl

theorem watches_collector (tracer : Tracer) (start : Nat) :
    Watches tracer (collector tracer) (Collected start) where
  outcome host checkpoint stage := by
    rw [run_collector]
    rcases (tracer.react host checkpoint).run.run stage.shadow with ⟨_ | _, shadow⟩ <;> rfl
  shadow host checkpoint stage := by
    rw [run_collector]
    rcases (tracer.react host checkpoint).run.run stage.shadow with ⟨_ | _, shadow⟩ <;> rfl
  sees host checkpoint stage stage' made made' reaction before stored kept only count := by
    rw [run_collector] at reaction
    rcases ran : (tracer.react host checkpoint).run.run stage.shadow with ⟨_ | _, shadow⟩
    · rw [ran] at reaction
      cases reaction
    · rw [ran] at reaction
      cases reaction
      constructor
      · intro node mem
        rcases only node mem with old | ⟨root, there, rfl | used⟩
        · exact List.mem_append_left _ (before.all node old)
        · exact List.mem_append_right _ (List.mem_append_left _ there)
        · exact List.mem_append_right _ (List.mem_append_right _
            (List.mem_flatMap.mpr ⟨root, there, used⟩))
      · intro node mem
        rcases List.mem_append.mp mem with mem | mem
        · obtain ⟨root, there, how⟩ := before.only node mem
          exact ⟨root, kept root there, how⟩
        · rcases List.mem_append.mp mem with mem | mem
          · exact ⟨node, stored node mem, .inl rfl⟩
          · obtain ⟨root, there, used⟩ := List.mem_flatMap.mp mem
            exact ⟨root, stored root there, .inr used⟩
      · have counted := before.count
        omega
  logs stage stage' made own next before := by
    constructor
    · rw [own]
      exact before.all
    · rw [own]
      exact before.only
    · rw [next]
      exact before.count

/-! ### The first run of a program -/

/-- No program has come to set anything in the world yet: the scope has no variables and no object has
    a property. Whatever is owned there has been made. -/
structure World.Fresh (w : World) (scope : ScopeId) (owned : List Entity) : Prop where
  scope : w.scopes[scope.number]? = some {}
  objects : ∀ (o : Nat) slots, w.objects[o]? = some slots → slots = {}
  shares : ∀ e other, other ∈ w.sharesOf e → w.Made other
  owned : ∀ e ∈ owned, w.Made e

/-- Every definition of the program is traced. -/
def Source.AllTraced (source : Source) : Prop :=
  (∀ d ∈ source.functions, d.traced = true) ∧ ∀ d, source.main = some d → d.traced = true

namespace World.Fresh

variable {w : World} {scope : ScopeId} {owned : List Entity} {frame : Frame}

/-- In which order sweeps come to the entries makes no difference. -/
theorem inOrder (fresh : w.Fresh scope owned) (order : SweepOrder kinds) :
    { w with order }.Fresh scope owned :=
  ⟨fresh.scope, fresh.objects, fresh.shares, fresh.owned⟩

theorem made_scope (fresh : w.Fresh scope owned) : w.Made (.scope scope) :=
  (Array.getElem?_eq_some_iff.mp fresh.scope).1

/-- Whatever has a share has been made. -/
theorem made_of_shares (fresh : w.Fresh scope owned) (alone : frameShares frame = [])
    (e other : Entity) (mem : other ∈ (w.addFrame frame).2.sharesOf e) :
    (w.addFrame frame).2.Made other := by
  rcases sharesOf_addFrame mem with old | new
  · exact made_addFrame (fresh.shares _ _ old) frame
  · rw [alone] at new
    cases new

end World.Fresh

theorem Compile.functions_traced (scope : ScopeId) (ds : List Definition) (done : Dict String Code)
    (traced : ∀ d ∈ ds, d.traced = true)
    (before : ∀ name code, done.get? name = some code → code.isTagged = true) (n : Nat) :
    ∀ name code, ((functions scope ds done).run n).1.get? name = some code →
      code.isTagged = true := by
  induction ds generalizing done n with
  | nil => exact before
  | cons d rest ih =>
    refine ih (done.set d.name ((definition scope d).run n).1)
      (fun d mem => traced d (List.mem_cons_of_mem _ mem)) (fun name code found => ?_) _
    rw [Dict.get?_set] at found
    split at found
    · cases found
      obtain ⟨_, _, _, same⟩ := definition_traced scope (traced d List.mem_cons_self) n
      rw [same]
      rfl
    · exact before name code found

theorem Source.traced_of_compile {source : Source} {scope : ScopeId} {p : Program}
    (compiled : source.compile scope = some p) (traced : source.AllTraced) : p.Traced := by
  obtain ⟨main, found, mainCode, functions⟩ := Source.compile_eq compiled
  constructor
  · obtain ⟨_, _, _, same⟩ := Compile.definition_traced scope (traced.2 main found) 0
    rw [mainCode, same]
    rfl
  · rw [functions]
    exact Compile.functions_traced scope source.functions {} traced.1 (fun _ _ found => nomatch found) _

/-- The ledger with which the first run of a program begins. -/
def Ledger.first (world : World) (start : Nat) : Ledger where
  world := (world.addFrame { name := "main", caller := none, args := [] }).2
  next := start

/-- The setting of the main part of a traced program. -/
def Program.setting (p : Program) (world : World) : Setting where
  program := p
  frame := ⟨world.frames.size⟩
  traced := true

section FirstRun

variable {p : Program} {world : World} {owned : List Entity}

theorem World.Fresh.books (fresh : world.Fresh p.scope owned) (start : Nat) :
    Books p start (.first world start) where
  filed := nofun
  closed := nofun
  numbered := .none
  values := nofun
  operands := nofun
  slots x node found := by cases x <;> cases found
  agrees x := by
    have unbound : (Ledger.first world start).value? p.scope x = none := by
      cases x with
      | localVar | globalVar => rfl
      | classVar name =>
        change world.scopes[p.scope.number]?.bind _ = none
        rw [fresh.scope]
        rfl
      | property o name =>
        change world.objects[o.number]?.bind _ = none
        cases found : world.objects[o.number]? with
        | none => rfl
        | some slots =>
          rw [fresh.objects o.number slots found]
          rfl
    rw [unbound]
    intro node found
    cases x <;> cases found
  scope := fresh.made_scope
  shares := fresh.made_of_shares rfl

theorem World.Fresh.ordered (fresh : world.Fresh p.scope owned) (start : Nat) :
    Ordered p start (p.setting world) (.first world start) :=
  ⟨rfl, rfl, fresh.books start, _, World.frame?_addFrame world _, rfl, nofun⟩

/-- The shadow state agrees with the ledger on all that outlives an invocation. -/
theorem World.Fresh.stored {S : Type} (fresh : world.Fresh p.scope owned)
    (listener : Listener kinds S) (interval nextSeq : Nat) (log : Log) (own : S) :
    Stored ((p.surroundings listener owned world).place
      (Program.machine world ⟨⟨.ofInterval interval, nextSeq, log⟩, own⟩) [])
      ⟨.ofInterval interval, nextSeq, log⟩ (.first world nextSeq) where
  globals := rfl
  scope := fresh.made_scope
  classes := rfl
  objects o lives := by
    refine ⟨?_, rfl⟩
    rcases lives.owner with (mem | ⟨_, _, reached, -⟩) | ⟨e, -, mem⟩
    · simp only [Surroundings.place, Surroundings.shares, Program.surroundings, List.append_assoc,
        List.mem_append, List.mem_cons, List.not_mem_nil, or_false, reduceCtorEq] at mem
      rcases mem with mem | impossible | mem
      · exact World.made_addFrame (fresh.owned _ mem) _
      · exact impossible.elim
      · obtain ⟨v, impossible, -⟩ := List.mem_flatMap.mp mem
        cases impossible
    · exact (Node.not_reached_nil reached).elim
    · exact fresh.made_of_shares rfl e _ mem
  fresh o unmade := ⟨rfl, rfl⟩
  nodes := nofun

/-- A first run begins next to the first ledger. -/
theorem World.Fresh.follows {S : Type} (fresh : world.Fresh p.scope owned)
    (listener : Listener kinds S) {seen : Stage kinds S → List (Node Value) → Prop}
    (interval nextSeq : Nat) (log : Log) (own : S)
    (begins : seen (Program.machine world ⟨⟨.ofInterval interval, nextSeq, log⟩, own⟩).stage []) :
    Follows True seen (p.surroundings listener owned world) { traced := false } []
      (Program.machine world ⟨⟨.ofInterval interval, nextSeq, log⟩, own⟩)
      (.first world nextSeq) := by
  have past : Past {} world (⟨.ofInterval interval, nextSeq, log⟩ : Shadow kinds) :=
    ⟨interval, nextSeq, log, [], rfl, fun _ _ mem => nomatch mem⟩
  exact p.follows_machine listener owned world ⟨⟨.ofInterval interval, nextSeq, log⟩, own⟩
    past.unpoisoned past.known rfl (fun _ => fresh.stored listener interval nextSeq log own)
    (fun _ => (Shadow.extends_ofInterval interval nextSeq log).wellFormed) fun _ => begins

/-- A run that is seen by somebody comes to what its ledger comes to. -/
theorem Program.run_next_to_ledger {S : Type} {tracer : Tracer} {listener : Listener kinds S}
    {seen : Stage kinds S → List (Node Value) → Prop} (tagged : p.WellTagged) (traced : p.Traced)
    (fresh : world.Fresh p.scope owned) (watches : Watches tracer listener seen)
    (interval nextSeq : Nat) (log : Log) (own : S) (fuel : Nat)
    (begins : seen (machine world ⟨⟨.ofInterval interval, nextSeq, log⟩, own⟩).stage []) :
    ∃ r l, (Ledger.eval fuel (p.setting world) p.main).run.run (.first world nextSeq) = (r, l) ∧
      (p.run fuel listener owned world ⟨⟨.ofInterval interval, nextSeq, log⟩, own⟩).1 =
        .of ⟨world.frames.size⟩ r ∧
      seen (p.run fuel listener owned world ⟨⟨.ofInterval interval, nextSeq, log⟩, own⟩).2.2
        l.made := by
  have follows := fresh.follows listener interval nextSeq log own begins
  have sim := (good tracer True seen fuel).function _ none _ _ p.main ⟨tagged, watches⟩ follows rfl
    tagged.main
  rw [traced.main] at sim
  obtain ⟨l, ledger, post⟩ := sim
  rw [run_eq]
  refine ⟨_, l, ledger trivial, rfl, ?_⟩
  generalize (eval fuel (p.surroundings listener owned world) p.main).run.run
    (machine world ⟨⟨.ofInterval interval, nextSeq, log⟩, own⟩) = ended at post ⊢
  rcases ended with ⟨(v | failure | _) | v, m⟩
  · exact post.elim
  · exact post.2 trivial
  · exact post trivial
  · exact post.seen trivial

/-- The ledger of a first run is an archive of what has been made. -/
theorem Program.archived (tagged : p.WellTagged) (traced : p.Traced)
    (fresh : world.Fresh p.scope owned) (start fuel : Nat) {r : Except Interrupt Value} {l : Ledger}
    (run : (Ledger.eval fuel (p.setting world) p.main).run.run (.first world start) = (r, l)) :
    Archive p start l := by
  have ended : Keeps p start (Ledger.eval fuel (p.setting world) p.main) (.first world start)
      (fun _ l' => Archive p start l') fun _ l' => Archive p start l' := by
    have own := tagged.main
    have isTagged := traced.main
    have tags : ∀ tag ∈ p.main.tags, p.Tags tag.1 tag.2 := fun tag mem => .inl mem
    generalize p.main = main at own isTagged tags
    cases own with
    | plain => cases isTagged
    | traced boundary label id bodyLabel shaped =>
      refine .mono ((keeping tagged traced start fuel).function _ _ _ _ (fresh.ordered start)
        (.tagged id bodyLabel (.body shaped)) fun tag mem => tags tag (List.mem_cons_of_mem _ mem))
        (fun v l' yields => yields.1.books.toArchive) fun v l' escapes => escapes.1.books.toArchive
  replace ended := Ends.at_run ended run
  rcases r with (v | failure | _) | v <;> exact ended

end FirstRun

/-! ### The certificate -/

/-- The node is unknown, or it was created by a site of the program and the origins that the site's
    rule asks for have come to its value. -/
def Certified (p : Program) (node : Node Value) : Prop :=
  node = .unknown node.seq ∨
    (∃ site code, p.Tags site code ∧ node.creator = creatorOf site) ∧
    ∀ site code, p.Tags site code → node.creator = creatorOf site →
      Rule p node.origins node.value code

theorem Filed.certified {source : Source} {scope : ScopeId} {p : Program}
    (compiled : source.compile scope = some p) {node : Node Value} (filed : Filed p node) :
    Certified p node := by
  rcases filed with unknown | ⟨site, code, tagged, creator, rule⟩
  · exact .inl unknown
  · refine .inr ⟨⟨site, code, tagged, creator⟩, fun site' code' tagged' creator' => ?_⟩
    have same : some (⟨site.id, site.label⟩ : Creator) = some ⟨site'.id, site'.label⟩ :=
      creator.symm.trans creator'
    have sameId : site.id = site'.id := congrArg Creator.site (Option.some.inj same)
    cases Source.tags_unique compiled tagged tagged' sameId
    exact rule

/-- The nodes have all the numbers in between. -/
theorem Numbered.exists {start next n : Nat} {made : List (Node Value)}
    (h : Numbered start made next) (low : start ≤ n) (high : n < next) :
    ∃ node ∈ made, node.seq = n := by
  induction h with
  | none => omega
  | @next made last node _ number ih =>
    rcases Nat.lt_succ_iff_lt_or_eq.mp high with earlier | rfl
    · obtain ⟨other, mem, same⟩ := ih earlier
      exact ⟨other, List.mem_cons_of_mem _ mem, same⟩
    · exact ⟨node, List.mem_cons_self, number⟩

theorem Numbered.count {start next : Nat} {made : List (Node Value)}
    (h : Numbered start made next) : next = start + made.length := by
  induction h with
  | none => rfl
  | next _ _ ih => rw [ih, List.length_cons, Nat.add_assoc]

theorem Numbered.bounds {start next : Nat} {made : List (Node Value)} (h : Numbered start made next)
    {node : Node Value} (mem : node ∈ made) : start ≤ node.seq ∧ node.seq < next := by
  induction h with
  | none => cases mem
  | @next made last newest rest number ih =>
    rcases List.mem_cons.mp mem with rfl | old
    · have := rest.count
      omega
    · have := ih old
      omega

/-- No two nodes have one number. -/
theorem Numbered.unique {start next : Nat} {made : List (Node Value)} (h : Numbered start made next)
    {a b : Node Value} (ha : a ∈ made) (hb : b ∈ made) (same : a.seq = b.seq) : a = b := by
  induction h with
  | none => cases ha
  | @next made last newest rest number ih =>
    rcases List.mem_cons.mp ha with rfl | oldA <;> rcases List.mem_cons.mp hb with rfl | oldB
    · rfl
    · have := rest.bounds oldB
      omega
    · have := rest.bounds oldA
      omega
    · exact ih oldA oldB

/-- On the first run of a program that is traced as a whole, every number that the registry gives away
    is that of a node, and every node satisfies the rule of its site. -/
theorem Program.graph_certified {source : Source} {scope : ScopeId} {p : Program}
    (compiled : source.compile scope = some p) (traced : source.AllTraced) (tracer : Tracer)
    (world : World) (owned : List Entity) (fresh : world.Fresh scope owned) (interval nextSeq : Nat)
    (log : Log) (fuel : Nat) (stage : Stage kinds (List (Node Value)))
    (ran : stage = (p.run fuel (collector tracer) owned world
      ⟨⟨.ofInterval interval, nextSeq, log⟩, []⟩).2.2) :
    (∀ n, nextSeq ≤ n → n < stage.shadow.nextSeq → ∃ node ∈ stage.own, node.seq = n) ∧
      ∀ node ∈ stage.own, Certified p node := by
  obtain ⟨tagged, rfl⟩ := Source.wellTagged_of_compile compiled
  have isTraced := Source.traced_of_compile compiled traced
  obtain ⟨r, l, run, -, collected⟩ := Program.run_next_to_ledger tagged isTraced fresh
    (watches_collector tracer nextSeq) interval nextSeq log [] fuel ⟨nofun, nofun, rfl⟩
  have archive := Program.archived tagged isTraced fresh nextSeq fuel run
  rw [← ran] at collected
  constructor
  · intro n low high
    have next : l.next = stage.shadow.nextSeq := archive.numbered.count.trans collected.count.symm
    obtain ⟨node, mem, number⟩ := archive.numbered.exists low (next ▸ high)
    exact ⟨node, collected.all node mem, number⟩
  · intro node mem
    obtain ⟨root, there, rfl | used⟩ := collected.only node mem
    · exact (archive.filed node there).certified compiled
    · exact (archive.filed node (archive.closed root there node used)).certified compiled

/-- A world in which a scope has been made and nothing else. -/
def firstWorld : World where
  scopes := #[{}]

theorem firstWorld_fresh : firstWorld.Fresh ⟨0⟩ [] where
  scope := rfl
  objects _ _ found := nomatch found
  shares e other mem := by
    cases e with
    | frame id => cases mem
    | object id => cases mem
    | scope id =>
      rcases id with ⟨_ | _⟩
      · cases mem
      · cases mem
  owned := nofun

theorem calling_allTraced : callingSource.AllTraced :=
  ⟨fun _ mem => List.mem_singleton.mp mem ▸ rfl, fun _ found => Option.some.inj found ▸ rfl⟩

theorem Program.graph_certified_call :
    callingSource.compile ⟨0⟩ = some callingProgram ∧ callingSource.AllTraced ∧
    firstWorld.Fresh ⟨0⟩ [] ∧ ∃ stage,
      stage = (callingProgram.run 20 (collector {}) [] firstWorld ⟨⟨.ofInterval 64, 1, {}⟩, []⟩).2.2 ∧
      stage.shadow.nextSeq = 11 ∧
      (∀ n, 1 ≤ n → n < stage.shadow.nextSeq → ∃ node ∈ stage.own, node.seq = n) ∧
      ∀ node ∈ stage.own, Certified callingProgram node :=
  have compiled : callingSource.compile ⟨0⟩ = some callingProgram := rfl
  ⟨compiled, calling_allTraced, firstWorld_fresh, _, rfl, by decide +kernel,
    Program.graph_certified compiled calling_allTraced {} firstWorld [] firstWorld_fresh 64 1 {} 20 _
      rfl⟩

end Lineage.Toy
