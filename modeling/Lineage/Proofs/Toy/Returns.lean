import Mathlib.Data.List.Forall2
import Lineage.Proofs.Toy.Results

/-!
# What a `return` leaves

A `return` leaves all that is around it in the body of its function. At its own site it turns the node
of its value into a node of its own, which becomes the result of the frame, and so does every `return`
around it. Of all others it takes away the depth that they have noted, and what they have put on the
stack stays there. So the body finds the node of the outermost `return` on top, and below it what the
interrupted parts have left.
-/

namespace Lineage.Toy

open Shadow Tracer

variable {S : Type} {tracer : Tracer} {seen : Stage kinds S → List (Node Value) → Prop}
  {n : Nat} {s : Surroundings S} {m m' m₁ m₂ : Machine S} {site : Site kinds} {code : Code} {v : Value}
  {sit next earlier : Situation S}

/-! ### The way of a `return` -/

/-- Part of the first situation is the second, in which the evaluator has come to a value, to go on with
    the third. -/
inductive GoesOn : Situation S → Situation S → Situation S → Prop
  | addRight {n s m left right v m'} (ran : (eval n s left).run.run m = (.ok v, m')) :
      GoesOn ⟨n + 1, s, .code (.add left right), m⟩ ⟨n, s, .code left, m⟩
        ⟨n, s.hold [v], .code right, m'⟩
  | setPropertyReceiver {n s m receiver name value v m'}
      (ran : (eval n s value).run.run m = (.ok v, m')) :
      GoesOn ⟨n + 1, s, .code (.setProperty receiver name value), m⟩ ⟨n, s, .code value, m⟩
        ⟨n, s.hold [v], .code receiver, m'⟩
  | laterArgs {n s m code rest v m'} (ran : (eval n s code).run.run m = (.ok v, m')) :
      GoesOn ⟨n + 1, s, .args (code :: rest), m⟩ ⟨n, s, .code code, m⟩
        ⟨n, s.hold [v], .args rest, m'⟩
  | laterStatements {n s m last code rest v m'}
      (ran : (eval n (s.hold [last]) code).run.run m = (.ok v, m')) :
      GoesOn ⟨n + 1, s, .body last (code :: rest), m⟩ ⟨n, s.hold [last], .code code, m⟩
        ⟨n, s, .body v rest, m'⟩

/-- The parts that have come to a value where the evaluator goes on from the first situation to the
    second: there is one at most. -/
inductive Before (sit next : Situation S) : List (Situation S) → Prop
  | first (alone : ∀ earlier, ¬ GoesOn sit earlier next) : Before sit next []
  | later {earlier : Situation S} (goesOn : GoesOn sit earlier next) : Before sit next [earlier]

/-- A `return` of `v` leaves the situation. On its way out it has passed the `sites` of the `return`
    itself and of all those around it, the outermost first; the value is that of `inner`. Parts that
    had come to a value before have been `left` behind, the last of them first. -/
inductive Unwinds (v : Value) :
    Situation S → List (Site kinds) → Situation S → List (Situation S) → Prop
  | ret {n s m site value m₁ m₂} (entered : (s.report site .enter []).run.run m = (.ok (), m₁))
      (ran : (eval n s value).run.run m₁ = (.ok v, m₂)) :
      Unwinds v ⟨n + 2, s, .code (.tagged site (.ret value)), m⟩ [site] ⟨n, s, .code value, m₁⟩ []
  | around {n s m site value m₁ sites inner left}
      (entered : (s.report site .enter []).run.run m = (.ok (), m₁))
      (h : Unwinds v ⟨n, s, .code value, m₁⟩ sites inner left) :
      Unwinds v ⟨n + 2, s, .code (.tagged site (.ret value)), m⟩ (site :: sites) inner left
  | outwards {sit next sites inner left others} (h : Unwinds v next sites inner left)
      (spawns : Spawns sit next) (inside : ∀ m, ¬ Calls sit m next)
      (before : Before sit next others)
      (other : ∀ site value, sit.task ≠ .code (.tagged site (.ret value)))
      (inBody : ∀ statements, sit.task ≠ .code (.body statements)) :
      Unwinds v sit sites inner (left ++ others)

/-- A `return` has the value that it returns, or is left before it has one. -/
theorem run_ret (n : Nat) (s : Surroundings S) (value : Code) (m : Machine S) :
    (eval (n + 1) s (.ret value)).run.run m =
      match (eval n s value).run.run m with
      | (.ok v, m') => (.error (.returning v), m')
      | ran => ran := by
  refine (run_bind _ _ _).trans ?_
  rcases (eval n s value).run.run m with ⟨e | v, m'⟩ <;> rfl

theorem Before.exists (sit next : Situation S) : ∃ before, Before sit next before := by
  by_cases later : ∃ earlier, GoesOn sit earlier next
  · obtain ⟨earlier, goesOn⟩ := later
    exact ⟨_, .later goesOn⟩
  · exact ⟨_, .first fun earlier goesOn => later ⟨earlier, goesOn⟩⟩

/-- A `return` that is left has come to its value, or its value is left by a `return` inside. -/
theorem ret_left {value : Code}
    (left : ((eval n s (.ret value)).run.run m).1 = .error (.returning v)) :
    ∃ k, n = k + 1 ∧ ((∃ m', (eval k s value).run.run m = (.ok v, m')) ∨
      ((eval k s value).run.run m).1 = .error (.returning v)) := by
  cases n with
  | zero =>
    rw [eval_zero] at left
    cases left
  | succ k =>
    refine ⟨k, rfl, ?_⟩
    rw [run_ret] at left
    rcases ran : (eval k s value).run.run m with ⟨e | w, m'⟩ <;> rw [ran] at left <;> cases left
    · exact .inr rfl
    · exact .inl ⟨m', rfl⟩

/-- If a `return` leaves a plain task of a traced definition it leaves one of the parts, which belongs
    to the same definition. -/
theorem Formed.part_left {task : Task} (formed : Formed true ⟨n + 1, s, task, m⟩)
    (wellTagged : s.program.WellTagged) (plain : task.Plain)
    (other : ∀ value, task ≠ .code (.ret value))
    (ended : (Situation.ended ⟨n + 1, s, task, m⟩).1 = .error (.returning v)) :
    ∃ t inner m', Spawns ⟨n + 1, s, task, m⟩ ⟨n, t, inner, m'⟩ ∧
      (∀ m₁, ¬ Calls ⟨n + 1, s, task, m⟩ m₁ ⟨n, t, inner, m'⟩) ∧
      Formed true ⟨n, t, inner, m'⟩ ∧ t.program = s.program ∧ (∀ value, inner ≠ .code (.ret value)) ∧
      (Situation.ended ⟨n, t, inner, m'⟩).1 = .error (.returning v) := by
  have run : (Situation.work ⟨n + 1, s, task, m⟩).run.run m = (.error (.returning v), _) :=
    Prod.ext ended rfl
  rcases (goes plain).error (P := fun _ => True) (fun _ _ _ _ _ => trivial) run trivial with
    ⟨raises, -⟩ | ⟨⟨k, t, inner, m'⟩, spawns, -, left, -⟩
  · cases raises with
    | returning => exact absurd rfl (other _)
  · obtain rfl : n = k := Nat.succ.inj spawns.fuel
    have inside : ∀ m₁, ¬ Calls ⟨n + 1, s, task, m⟩ m₁ ⟨n, t, inner, m'⟩ := by
      rintro m₁ ⟨ran, found⟩
      exact (wellTagged.functions _ _ found).never_returns left
    have shaped := (formed.part plain spawns inside).1
    refine ⟨t, inner, m', spawns, inside, .of_shaped shaped, spawns.program, ?_, left⟩
    rintro value rfl
    cases shaped

/-- Whatever is left in traced code is left by a `return` on its way, unless it is the inside of a
    `return` itself. -/
theorem Formed.unwinds (formed : Formed true sit) (wellTagged : sit.surroundings.program.WellTagged)
    (other : ∀ value, sit.task ≠ .code (.ret value)) (ended : sit.ended.1 = .error (.returning v)) :
    ∃ sites inner left, Unwinds v sit sites inner left := by
  obtain ⟨n, s, task, m⟩ := sit
  -- on the fuel; of a tagged `return` the tag takes one unit and the `return` another
  induction n using Nat.strongRecOn generalizing s task m with
  | ind n ih =>
    cases n with
    | zero =>
      rw [Situation.ended_zero] at ended
      cases ended
    | succ n =>
      rcases task.plain_or with plain | ⟨statements, rfl⟩ | ⟨site, code, rfl⟩
      · obtain ⟨t, inner, m', spawns, inside, formed', program, other', left⟩ :=
          formed.part_left wellTagged plain other ended
        obtain ⟨sites, origin, behind, h⟩ := ih n (Nat.lt_succ_self n) t inner m' formed'
          (program ▸ wellTagged) other' left
        obtain ⟨before, isBefore⟩ := Before.exists _ _
        refine ⟨sites, origin, _, .outwards h spawns inside isBefore ?_ ?_⟩
        · rintro site value rfl
          exact plain
        · rintro statements rfl
          exact plain
      · exact absurd ended (body_never_returns statements)
      · obtain ⟨m₁, entered, inner⟩ := returning_inside ended
        obtain ⟨-, piece, -⟩ := formed.tagged
        by_cases isReturn : ∃ value, code = .ret value
        · obtain ⟨value, rfl⟩ := isReturn
          obtain ⟨k, rfl, ⟨m₂, ran⟩ | left⟩ := ret_left inner
          · exact ⟨_, _, _, .ret entered ran⟩
          · cases piece with
            | ret shaped =>
              obtain ⟨sites, origin, behind, h⟩ := ih k (by omega) s (.code value) m₁ (.code shaped)
                wellTagged (by rintro inner ⟨⟩; cases shaped) left
              exact ⟨_, _, _, .around entered h⟩
        · obtain ⟨sites, origin, behind, h⟩ := ih n (Nat.lt_succ_self n) s (.code code) m₁
            (.piece piece) wellTagged (fun value same => isReturn ⟨value, Task.code.inj same⟩) inner
          refine ⟨sites, origin, _, .outwards h (.tagged entered) nofun (.first nofun) ?_ nofun⟩
          rintro site value same
          cases same
          exact isReturn ⟨value, rfl⟩

/-! ### What stays on the stack -/

theorem Gained.trans {frame : FrameId} {nodes more : List (Node Value)} (h : Gained frame m m₁ nodes)
    (h' : Gained frame m₁ m₂ more) : Gained frame m m₂ (more ++ nodes) := by
  obtain ⟨r, r₁, found, found₁, stack, marks⟩ := h
  obtain ⟨r₁', r₂, found₁', found₂, stack', marks'⟩ := h'
  obtain rfl : r₁ = r₁' := Option.some.inj (found₁.symm.trans found₁')
  refine ⟨r, r₂, found, found₂, ?_, marks'.trans marks⟩
  rw [stack', stack, List.append_assoc]

/-- The code of the situation has come to a value and has put its node on the stack. -/
inductive LeavesNode : Situation S → Node Value → Prop
  | intro {n s code m v m' node} (ran : (eval n s code).run.run m = (.ok v, m'))
      (gained : Gained s.frame m m' [node]) (value : node.value = some v) :
      LeavesNode ⟨n, s, .code code, m⟩ node

theorem Follows.leavesNode {a : Activation} {l : Ledger} (fit : Fit tracer seen s)
    (h : Follows False seen s a [] m l) (shaped : code.Shaped s.program.scope a.traced)
    (traced : a.traced = true) (ran : (eval n s code).run.run m = (.ok v, m')) :
    ∃ node, LeavesNode ⟨n, s, .code code, m⟩ node ∧ Gained s.frame m m' [node] ∧
      node.value = some v := by
  obtain ⟨l', done⟩ := h.ran fit shaped ran
  obtain ⟨node, one, value, -⟩ := done.pushed traced
  have gained : Gained s.frame m m' [node] := h.gained done.follows traced one
  exact ⟨node, .intro ran gained value, gained, value⟩

/-- A part that has come to a value has left its node where the evaluator goes on. -/
theorem Sound.goesOn (sound : Sound tracer seen sit)
    (recorded : sit.machine.stage.shadow.record? sit.surroundings.frame ≠ none)
    (goesOn : GoesOn sit earlier next) : ∃ node, LeavesNode earlier node ∧
      Gained sit.surroundings.frame sit.machine next.machine [node] := by
  cases goesOn with
  | addRight ran =>
    obtain ⟨a, l, fit, h, piece, -⟩ := sound.untagged rfl
    cases piece with
    | add left right =>
      obtain ⟨node, leaves, gained, -⟩ := h.leavesNode fit left (h.recorded_iff.mp recorded) ran
      exact ⟨node, leaves, gained⟩
  | setPropertyReceiver ran =>
    obtain ⟨a, l, fit, h, piece, -⟩ := sound.untagged rfl
    cases piece with
    | setProperty _ value receiver =>
      obtain ⟨node, leaves, gained, -⟩ := h.leavesNode fit value (h.recorded_iff.mp recorded) ran
      exact ⟨node, leaves, gained⟩
  | laterArgs ran =>
    cases sound with
    | args fit h shaped =>
      obtain ⟨node, leaves, gained, -⟩ := h.leavesNode fit (shaped _ List.mem_cons_self)
        (h.recorded_iff.mp recorded) ran
      exact ⟨node, leaves, gained⟩
  | laterStatements ran =>
    cases sound with
    | body fit h shaped =>
      obtain ⟨node, leaves, gained, -⟩ := h.held.leavesNode (fit.hold _)
        (shaped _ List.mem_cons_self) (h.recorded_iff.mp recorded) ran
      exact ⟨node, leaves, gained⟩

theorem Spawns.goesOn (spawns : Spawns sit next) (plain : sit.task.Plain)
    (inside : ∀ m, ¬ Calls sit m next) :
    (∃ earlier, GoesOn sit earlier next) ∨ next.machine = sit.machine := by
  cases spawns with
  | body => exact plain.elim
  | tagged => exact plain.elim
  | callFunction ran found => exact absurd (.intro ran found) (inside _)
  | addRight ran => exact .inl ⟨_, .addRight ran⟩
  | setPropertyReceiver ran => exact .inl ⟨_, .setPropertyReceiver ran⟩
  | laterArgs ran => exact .inl ⟨_, .laterArgs ran⟩
  | laterStatements ran => exact .inl ⟨_, .laterStatements ran⟩
  | _ => exact .inr rfl

/-- On the way to a part of a plain task the parts before it leave their nodes. -/
theorem Sound.before (sound : Sound tracer seen sit)
    (recorded : sit.machine.stage.shadow.record? sit.surroundings.frame ≠ none)
    (plain : sit.task.Plain) (spawns : Spawns sit next) (inside : ∀ m, ¬ Calls sit m next)
    {others : List (Situation S)} (before : Before sit next others) :
    ∃ nodes, List.Forall₂ LeavesNode others nodes ∧
      Gained sit.surroundings.frame sit.machine next.machine nodes := by
  cases before with
  | first alone =>
    rcases spawns.goesOn plain inside with ⟨earlier, goesOn⟩ | same
    · exact absurd goesOn (alone earlier)
    · obtain ⟨r, found⟩ := Option.ne_none_iff_exists'.mp recorded
      exact ⟨[], .nil, r, r, found, same ▸ found, rfl, rfl⟩
  | later goesOn =>
    obtain ⟨node, leaves, gained⟩ := sound.goesOn recorded goesOn
    exact ⟨[node], .cons leaves .nil, gained⟩

/-! ### The sites on the way -/

/-- At the site of a piece the rule of the piece decides. -/
theorem ends_react_piece {scope : ScopeId} (piece : code.Piece scope true) (id : SiteId)
    (label : String) {host : Host kinds} {frame : FrameId} {moment : Moment Value} {t : Shadow kinds}
    {P : Shadow kinds → Prop} (rule : ∀ u, SameState t u → Ends (tracer.rule host
      ⟨siteOf scope id label code, frame, moment⟩ (categoryOf code)) u fun r u => r = .ok () ∧ P u)
    (stable : ∀ u u', SameState u u' → P u → P u') :
    Ends (tracer.react host ⟨siteOf scope id label code, frame, moment⟩) t
      fun r u => r = .ok () ∧ P u := by
  rw [Ends, run_react]
  refine ends_rules_piece piece id label (rule _ (sameState_noted _ _)) (fun u => ?_) stable
  cases moment with
  | enter => exact ⟨rfl, .refl u⟩
  | leave => exact ⟨rfl, rfl, rfl⟩
  | unwind => exact (unwind_other Category.noConfusion rfl _).mono fun _ _ done => done

namespace Inside

variable {a : Activation} {id : SiteId} {label : String} {l l' : Ledger}

/-- A piece begins with the stack as it was before, and with the depth of it if its site notes that. -/
theorem records (inside : Inside tracer seen s site code m m₁ a id label l l') :
    ∃ r r₁, m.stage.shadow.record? s.frame = some r ∧ m₁.stage.shadow.record? s.frame = some r₁ ∧
      r₁.stack = r.stack ∧ r₁.marks =
        if (categoryOf code).marksDepth then ⟨site.id, r.stack.length⟩ :: r.marks else r.marks := by
  obtain ⟨r, found, stack, marks, -⟩ := inside.before.mirrors.traced inside.traced
  obtain ⟨r₁, found₁, stack₁, marks₁, -⟩ := inside.after.mirrors.traced inside.traced
  refine ⟨r, r₁, found, found₁, ?_, ?_⟩
  · rw [stack₁, inside.empty, stack]
    rfl
  · rw [marks₁, stack, marks, inside.site, siteOf_id]
    rfl

/-- A `return` that leaves a piece is reported, and the rule of the piece decides what this does. -/
theorem unwinds (inside : Inside tracer seen s site code m m₁ a id label l l')
    (entered : (s.report site .enter []).run.run m = (.ok (), m₁))
    (run : (eval n s code).run.run m₁ = (.error (.returning v), m₂)) {P : Shadow kinds → Prop}
    (rule : ∀ host t, SameState m₂.stage.shadow t → t.Unpoisoned →
      Ends (applyUnwind host site s.frame (returnText v) (categoryOf code)) t
        fun r u => r = .ok () ∧ P u)
    (stable : ∀ u u', SameState u u' → P u → P u') :
    ∃ m₃, (eval (n + 1) s (.tagged site code)).run.run m = (.error (.returning v), m₃) ∧
      P m₃.stage.shadow := by
  obtain ⟨l₂, follows⟩ := inside.ran run (.inr rfl)
  have reacts : Ends (tracer.react (s.place m₂ [v]).host
      ⟨site, s.frame, .unwind (returnText v)⟩) m₂.stage.shadow fun r u => r = .ok () ∧ P u := by
    have decides := fun t same =>
      rule (s.place m₂ [v]).host t same (same.unpoisoned follows.mirrors.sane)
    rw [inside.site] at decides ⊢
    exact ends_react_piece inside.piece id label decides stable
  obtain ⟨stage, left, holds, -⟩ :=
    run_report (.unwind (returnText v)) [v] inside.fit.watches reacts
  have leaves := leaving n code entered
  rw [run] at leaves
  generalize (eval (n + 1) s (.tagged site code)).run.run m = ran at leaves ⊢
  cases leaves with
  | returned left' =>
    rw [left] at left'
    cases left'
    exact ⟨_, rfl, holds⟩
  | interrupted other => exact absurd rfl (other v)

end Inside

/-- A `return` has gained the frame a node on top of others, which is its result; no other node has
    been made since. -/
structure ReturnOnTop (frame : FrameId) (m m' : Machine S) (top : Node Value)
    (nodes : List (Node Value)) : Prop where
  gained : Gained frame m m' (top :: nodes)
  result : (m'.stage.shadow.recordOf frame).result = some top
  latest : m'.stage.shadow.nextSeq = top.seq + 1

theorem ReturnOnTop.later {frame : FrameId} {top : Node Value} {nodes before : List (Node Value)}
    (h : ReturnOnTop frame m₁ m₂ top nodes) (gained : Gained frame m m₁ before) :
    ReturnOnTop frame m m₂ top (nodes ++ before) :=
  ⟨gained.trans h.gained, h.result, h.latest⟩

theorem ReturnOnTop.congr {frame : FrameId} {top : Node Value} {nodes : List (Node Value)}
    (h : ReturnOnTop frame m m₁ top nodes) (same : m₂.stage = m₁.stage) :
    ReturnOnTop frame m m₂ top nodes := by
  obtain ⟨⟨r, r', found, found', rest⟩, result, latest⟩ := h
  exact ⟨⟨r, r', found, same ▸ found', rest⟩, same ▸ result, same ▸ latest⟩

namespace Inside

variable {a : Activation} {id : SiteId} {label : String} {l l' : Ledger} {value : Code}
  {node top : Node Value} {nodes : List (Node Value)}

/-- A `return` makes a node of its own of that of its value. -/
theorem leaves_return (inside : Inside tracer seen s site (.ret value) m m₁ a id label l l')
    (entered : (s.report site .enter []).run.run m = (.ok (), m₁))
    (run : (eval n s (.ret value)).run.run m₁ = (.error (.returning v), m₂))
    (gained : Gained s.frame m₁ m₂ (node :: nodes)) :
    ((eval (n + 1) s (.tagged site (.ret value))).run.run m).1 = .error (.returning v) ∧
      ∃ top, ReturnOnTop s.frame m ((eval (n + 1) s (.tagged site (.ret value))).run.run m).2
        top nodes ∧ top.creator = creatorOf site ∧ top.value = node.value ∧ top.origins = [node] := by
  obtain ⟨r, r₁, found, found₁, stack₁, marks₁⟩ := inside.records
  obtain ⟨r₁', r₂, found₁', found₂, stack₂, marks₂⟩ := gained
  obtain rfl : r₁ = r₁' := Option.some.inj (found₁.symm.trans found₁')
  let late : Node Value := ⟨m₂.stage.shadow.nextSeq, creatorOf site, node.value, [node]⟩
  let last : Record Value := ({ r₂ with stack := nodes ++ r.stack }.push late).setResult late
  have rule : ∀ host t, SameState m₂.stage.shadow t → t.Unpoisoned →
      Ends (applyUnwind host site s.frame (returnText v) (categoryOf (.ret value))) t fun r u =>
        r = .ok () ∧ u.record? s.frame = some last ∧ u.nextSeq = late.seq + 1 := by
    intro host t same sane
    have own : t.recordOf s.frame = r₂ := recordOf_eq ((same.record?_eq _).trans found₂)
    have rule : Ends (applyUnwind host site s.frame (returnText v) .useStackDefReturn) t _ :=
      unwind_return sane _
    rw [own, stack₂, stack₁, same.2] at rule
    refine rule.mono ?_
    rintro r u ⟨rfl, on⟩
    exact ⟨rfl, on.record?, on.nextSeq⟩
  obtain ⟨m₃, left, after, next⟩ := inside.unwinds entered run rule fun u u' same ⟨after, next⟩ =>
    ⟨(same.record?_eq _).trans after, same.2.trans next⟩
  rw [left]
  refine ⟨rfl, late, ⟨⟨r, last, found, after, rfl, marks₂.trans marks₁⟩, ?_, next⟩, rfl, rfl, rfl⟩
  rw [recordOf_eq after]
  rfl

/-- Another piece leaves the stack alone and forgets the depth that it has noted. -/
theorem leaves_piece (inside : Inside tracer seen s site code m m₁ a id label l l')
    (other : categoryOf code ≠ .useStackDefReturn)
    (entered : (s.report site .enter []).run.run m = (.ok (), m₁))
    (run : (eval n s code).run.run m₁ = (.error (.returning v), m₂))
    (h : ReturnOnTop s.frame m₁ m₂ top nodes) :
    ((eval (n + 1) s (.tagged site code)).run.run m).1 = .error (.returning v) ∧
      ReturnOnTop s.frame m ((eval (n + 1) s (.tagged site code)).run.run m).2 top nodes := by
  obtain ⟨r, r₁, found, found₁, stack₁, marks₁⟩ := inside.records
  obtain ⟨⟨r₁', r₂, found₁', found₂, stack₂, marks₂⟩, result, latest⟩ := h
  obtain rfl : r₁ = r₁' := Option.some.inj (found₁.symm.trans found₁')
  rw [recordOf_eq found₂] at result
  let Unmarked (u : Shadow kinds) : Prop := ∃ r₃, u.record? s.frame = some r₃ ∧
    r₃.stack = r₂.stack ∧ r₃.marks = r.marks ∧ r₃.result = r₂.result ∧
      u.nextSeq = m₂.stage.shadow.nextSeq
  have stable : ∀ u u', SameState u u' → Unmarked u → Unmarked u' := by
    rintro u u' same ⟨r₃, found₃, stack₃, marks₃, result₃, next⟩
    exact ⟨r₃, (same.record?_eq _).trans found₃, stack₃, marks₃, result₃, same.2.trans next⟩
  have rule : ∀ host t, SameState m₂.stage.shadow t → t.Unpoisoned →
      Ends (applyUnwind host site s.frame (returnText v) (categoryOf code)) t fun r u =>
        r = .ok () ∧ Unmarked u := by
    intro host t same sane
    have own : t.record? s.frame = some r₂ := (same.record?_eq _).trans found₂
    rw [marks₁] at marks₂
    cases marking : (categoryOf code).marksDepth with
    | true =>
      rw [marking, if_pos rfl] at marks₂
      refine (unwind_marking sane marking _).mono ?_
      rw [own]
      rintro q u ⟨rfl, on⟩
      exact ⟨rfl, _, on.record?, rfl, Record.unmark_marks_cons marks₂, rfl, on.nextSeq.trans same.2⟩
    | false =>
      rw [marking, if_neg Bool.false_ne_true] at marks₂
      refine (unwind_other other marking _).mono ?_
      rintro q u ⟨rfl, still⟩
      exact ⟨rfl, r₂, (still.record?_eq _).trans own, rfl, marks₂, rfl, still.2.trans same.2⟩
  obtain ⟨m₃, left, r₃, found₃, stack₃, marks₃, result₃, next⟩ :=
    inside.unwinds entered run rule stable
  rw [left]
  refine ⟨rfl, ⟨r, r₃, found, found₃, ?_, marks₃⟩, ?_, next.trans latest⟩
  · rw [stack₃, stack₂, stack₁]
  · rw [recordOf_eq found₃, result₃, result]

end Inside

/-! ### What the body finds -/

/-- The node is that of a `return` of `v` at the first of the sites. Its only origin is that of the next
    `return`, and so on; the only origin of the last one is `origin`. -/
inductive Links (v : Value) (origin : Node Value) : List (Site kinds) → Node Value → Prop
  | last {site node} (creator : node.creator = creatorOf site) (value : node.value = some v)
      (only : node.origins = [origin]) : Links v origin [site] node
  | next {site sites node inner} (creator : node.creator = creatorOf site)
      (value : node.value = some v) (only : node.origins = [inner])
      (h : Links v origin sites inner) : Links v origin (site :: sites) node

theorem Links.value {origin node : Node Value} {sites : List (Site kinds)}
    (h : Links v origin sites node) : node.value = some v := by
  cases h with
  | last _ value _ => exact value
  | next _ value _ _ => exact value

/-- A `return` that leaves a situation has left the node of the outermost `return` on top of the nodes
    that have been left behind. -/
theorem Unwinds.leaves {sites : List (Site kinds)} {inner : Situation S} {left : List (Situation S)}
    (h : Unwinds v sit sites inner left) (sound : Sound tracer seen sit)
    (recorded : sit.machine.stage.shadow.record? sit.surroundings.frame ≠ none) :
    sit.ended.1 = .error (.returning v) ∧ ∃ top origin nodes,
      ReturnOnTop sit.surroundings.frame sit.machine sit.ended.2 top nodes ∧
      Links v origin sites top ∧ LeavesNode inner origin ∧ List.Forall₂ LeavesNode left nodes := by
  induction h with
  | @ret n s m site value m₁ m₂ entered ran =>
    obtain ⟨a, id, label, l, l', inside⟩ := sound.entered recorded entered
    cases inside.piece with
    | ret shaped =>
      obtain ⟨origin, leaves, gained, value'⟩ := inside.after.leavesNode inside.fit
        (by rw [Activation.inside, inside.traced]; exact shaped) inside.traced ran
      have run : (eval (n + 1) s (.ret value)).run.run m₁ = (.error (.returning v), m₂) := by
        rw [run_ret, ran]
      obtain ⟨ended, top, onTop, creator, same, only⟩ := inside.leaves_return entered run gained
      exact ⟨ended, top, origin, [], onTop, .last creator (same.trans value') only, leaves, .nil⟩
  | @around n s m site value m₁ sites inner left entered h ih =>
    obtain ⟨a, id, label, l, l', inside⟩ := sound.entered recorded entered
    obtain ⟨ended, node, origin, nodes, onTop, links, rest⟩ := ih
      ((sound.spawns (.tagged entered)).spawns .ret) (inside.after.recorded_iff.mpr inside.traced)
    have ran : (eval n s value).run.run m₁ = (.error (.returning v), _) := Prod.ext ended rfl
    have run : (eval (n + 1) s (.ret value)).run.run m₁ =
        (.error (.returning v), ((eval n s value).run.run m₁).2) := by
      rw [run_ret, ran]
    obtain ⟨ended', top, onTop', creator, same, only⟩ :=
      inside.leaves_return entered run onTop.gained
    exact ⟨ended', top, origin, nodes, onTop', .next creator (same.trans links.value) only links, rest⟩
  | @outwards sit next sites inner left others h spawns inside before other inBody ih =>
    rcases sit.task.plain_or with plain | ⟨statements, body⟩ | ⟨site, code, tagged⟩
    · have frame := ((sound.formed recorded).part plain spawns inside).2
      obtain ⟨behind, leave, gained⟩ := sound.before recorded plain spawns inside before
      obtain ⟨_, r, _, found, _⟩ := id gained
      obtain ⟨ended, top, origin, nodes, onTop, links, leaves, leave'⟩ :=
        ih (sound.spawns spawns) (by rw [frame, found]; exact Option.some_ne_none r)
      obtain ⟨ended', same⟩ := (spawns.resumes plain).1 _ ended
      rw [frame] at onTop
      refine ⟨ended', top, origin, nodes ++ behind, ?_, links, leaves, List.rel_append leave' leave⟩
      exact (onTop.later gained).congr same
    · exact absurd body (inBody statements)
    · cases spawns with
      | @tagged n s m site code m₁ entered =>
        obtain ⟨a, id, label, l, l', inside⟩ := sound.entered recorded entered
        obtain ⟨ended, top, origin, nodes, onTop, rest⟩ := ih (sound.inside entered)
          (inside.after.recorded_iff.mpr inside.traced)
        have run : (eval n s code).run.run m₁ = (.error (.returning v), _) := Prod.ext ended rfl
        -- no tag of a `return`: its way out is one of the other two cases
        have notReturn : categoryOf code ≠ .useStackDefReturn := by
          intro same
          cases inside.piece
          case ret => exact other _ _ rfl
          all_goals cases same
        obtain ⟨ended', onTop'⟩ := inside.leaves_piece notReturn entered run onTop
        cases before with
        | first =>
          rw [List.append_nil]
          exact ⟨ended', top, origin, nodes, onTop', rest⟩
        | later goesOn => cases goesOn
      | _ => cases tagged

/-! ### How an invocation has ended -/

/-- The statements of a traced function are run once its boundary and its body have been entered. -/
inductive BodyOf : Situation S → Situation S → Prop
  | intro {n s boundary site statements m m₁ m₂}
      (entered : (s.report boundary .enter []).run.run m = (.ok (), m₁))
      (opened : (s.report site .enter []).run.run m₁ = (.ok (), m₂)) :
      BodyOf ⟨n + 3, s, .code (.tagged boundary (.tagged site (.body statements))), m⟩
        ⟨n, s, .body .nil statements, m₂⟩

/-- A piece that takes all operands above the depth it has noted makes its node from them. -/
theorem Inside.consumes {a : Activation} {id : SiteId} {label : String} {l l' : Ledger}
    (inside : Inside tracer seen s site code m m₁ a id label l l')
    (category : categoryOf code = .useStackDefStack) (sane : m₂.stage.shadow.Unpoisoned)
    (left : (s.report site (.leave v) [v]).run.run m₂ = (.ok (), m'))
    {r : Record Value} (found : m₂.stage.shadow.record? s.frame = some r)
    {operands below : List (Node Value)} {marks : List DepthMark}
    (marked : r.marks = ⟨site.id, below.length⟩ :: marks) (stack : r.stack = operands ++ below) :
    ∃ r', m'.stage.shadow.record? s.frame = some r' ∧
      r'.stack = site.node m₂.stage.shadow.nextSeq v operands :: below := by
  let Consumed (u : Shadow kinds) : Prop := ∃ r', u.record? s.frame = some r' ∧
    r'.stack = site.node m₂.stage.shadow.nextSeq v operands :: below
  refine inside.fit.watches.report left (P := Consumed) ?_
  have rule : ∀ t, SameState m₂.stage.shadow t → Ends (applyLeave tracer (s.place m₂ [v]).host site
      s.frame v (categoryOf code)) t fun r u => r = .ok () ∧ Consumed u := by
    intro t same
    have own : t.recordOf s.frame = r := recordOf_eq ((same.record?_eq _).trans found)
    have taken : (takeOperands site).run.run (r, m₂.stage.shadow.nextSeq) = _ :=
      run_takeOperands_of_marks marked stack _
    rw [← own, ← same.2] at taken
    rw [category]
    refine (leave_operands (same.unpoisoned sane) taken).mono ?_
    rintro r u ⟨rfl, on⟩
    exact ⟨rfl, _, on.record?, by rw [same.2]; rfl⟩
  have reacts : Ends (tracer.react (s.place m₂ [v]).host ⟨site, s.frame, .leave v⟩) m₂.stage.shadow
      fun r u => r = .ok () ∧ Consumed u := by
    rw [inside.site] at rule ⊢
    refine ends_react_piece inside.piece id label rule ?_
    rintro u u' same ⟨r', found, stack⟩
    exact ⟨r', (same.record?_eq _).trans found, stack⟩
  exact reacts.mono fun _ _ done => done.2

/-- Nobody is their own caller. -/
theorem Surroundings.Called.apart (called : s.Called m.world) (values : List Value) :
    (s.place m values).host.callerOf s.frame ≠ some s.frame := by
  obtain ⟨frame, here, callers⟩ := called
  intro own
  have calledBy : (s.place m values).host.callerOf s.frame = frame.caller :=
    congrArg (·.bind (·.caller)) here
  exact (callers s.frame (calledBy.symm.trans own)).1 rfl

/-- The record of a function is empty at first. -/
theorem Watches.entersFunction {id : SiteId} {label : String} {r : Except Interrupt Unit}
    (watches : Watches tracer s.listener seen) (sane : m.stage.shadow.Unpoisoned)
    (entered : (s.report (boundaryOf id label) .enter []).run.run m = (r, m')) :
    HasResult s.frame none m'.stage.shadow := by
  refine watches.report entered (P := HasResult s.frame none) ?_
  change Ends (enter _ (boundaryOf id label) s.frame) _ _
  unfold enter
  rw [ends_bind, ShadowM.ends_note]
  dsimp only
  rw [ends_applyRules_one (categories_boundaryOf id label)]
  have same : SameState m.stage.shadow (m.stage.shadow.note .trace "router enter"
    (Checkpoint.siteFields (boundaryOf id label))) := ⟨rfl, rfl⟩
  refine (enter_boundary (same.unpoisoned sane)).mono ?_
  rintro r u ⟨-, on⟩
  exact ⟨_, on.record?, rfl⟩

/-- A traced invocation that has come to a value: its statements have begun with nothing on the stack,
    and its node has been made, once they had ended, from what was on the stack then. -/
structure Completed (n : Nat) (s : Surroundings S) (m : Machine S) (boundary site : Site kinds)
    (statements : List Code) (v : Value) (m' : Machine S) (k : Nat) (m₁ m₂ : Machine S)
    (node : Node Value) : Prop where
  body : BodyOf ⟨n, s, .code (.tagged boundary (.tagged site (.body statements))), m⟩
    ⟨k, s, .body .nil statements, m₁⟩
  ran : (eval (k + 1) s (.body statements)).run.run m₁ = (.ok v, m₂)
  begins : ∃ r, m₁.stage.shadow.record? s.frame = some r ∧ r.stack = [] ∧
    r.marks = [⟨site.id, 0⟩] ∧ r.result = none
  made : ∀ r, m₂.stage.shadow.record? s.frame = some r → r.marks = [⟨site.id, 0⟩] →
    node = site.node m₂.stage.shadow.nextSeq v r.stack
  leaves : Leaves s m m' node
  creator : node.creator = creatorOf site
  value : node.value = some v
  result : ∀ {result}, HasResult s.frame result m₂.stage.shadow →
    HasResult s.frame result m'.stage.shadow

/-- A traced function that comes to a value passes the checkpoints of its boundary and of its body. -/
theorem run_function_value {boundary : Site kinds} {statements : List Code}
    (run : (eval n s (.tagged boundary (.tagged site (.body statements)))).run.run m = (.ok v, m')) :
    ∃ k m₁ m₂ m₃ m₄, n = k + 3 ∧ (s.report boundary .enter []).run.run m = (.ok (), m₁) ∧
      (eval (k + 2) s (.tagged site (.body statements))).run.run m₁ = (.ok v, m₄) ∧
      (s.report site .enter []).run.run m₁ = (.ok (), m₂) ∧
      (eval (k + 1) s (.body statements)).run.run m₂ = (.ok v, m₃) ∧
      (s.report site (.leave v) [v]).run.run m₃ = (.ok (), m₄) ∧
      (s.report boundary (.leave v) [v]).run.run m₄ = (.ok (), m') := by
  rcases n with _ | n
  · rw [eval_zero] at run
    cases run
  obtain ⟨m₁, m₄, entered, inner, left⟩ := run_tagged_value run
  rcases n with _ | n
  · rw [eval_zero] at inner
    cases inner
  obtain ⟨m₂, m₃, opened, body, closed⟩ := run_tagged_value inner
  rcases n with _ | k
  · rw [eval_zero] at body
    cases body
  exact ⟨k, m₁, m₂, m₃, m₄, rfl, entered, inner, opened, body, closed, left⟩

/-- Nothing has the form of a traced function but a traced function. -/
theorem Sound.traced_function {boundary : Site kinds} {statements : List Code}
    (sound : Sound tracer seen
      ⟨n, s, .code (.tagged boundary (.tagged site (.body statements))), m⟩) :
    ∃ boundaryId label id bodyLabel arguments l, boundary = boundaryOf boundaryId label ∧
      site = siteOf s.program.scope id bodyLabel (.body statements) ∧ Fit tracer seen s ∧
      Follows False seen s { traced := false, arguments } [] m l ∧ l.localNodes = {} ∧
      (Code.body statements).Piece s.program.scope true := by
  rcases sound.tagged with
    ⟨-, -, -, -, -, -, -, -, piece⟩ | ⟨arguments, l, fit, h, fresh, defined⟩
  · cases piece
  · cases defined with
    | traced boundaryId label id bodyLabel shaped =>
      exact ⟨boundaryId, label, id, bodyLabel, arguments, l, rfl, rfl, fit, h, fresh, .body shaped⟩

namespace Inside

variable {arguments : Option (List (Node Value))} {id : SiteId} {label : String} {l l' : Ledger}
  {statements : List Code}

/-- The statements of a traced function begin with nothing on the stack and without a result. -/
theorem begins (inside : Inside tracer seen s site (.body statements) m m₁
      { traced := true, arguments } id label l l')
    (noResult : HasResult s.frame none m.stage.shadow) (empty : l.operands = [])
    (opened : (s.report site .enter []).run.run m = (.ok (), m₁)) :
    ∃ r, m₁.stage.shadow.record? s.frame = some r ∧ r.stack = [] ∧ r.marks = [⟨site.id, 0⟩] ∧
      r.result = none := by
  obtain ⟨r, r₁, found, found₁, stack, marks⟩ := inside.records
  obtain ⟨r', found', stack', marks', -⟩ := inside.before.mirrors.traced inside.traced
  obtain rfl : r = r' := Option.some.inj (found.symm.trans found')
  rw [empty] at stack'
  obtain ⟨r₂, found₂, none₂⟩ := noResult.report inside.fit.watches inside.before.mirrors.sane
    inside.noBoundary (fun unwinds => by cases unwinds) opened
    (inside.after.recorded_iff.mpr inside.traced)
  obtain rfl : r₁ = r₂ := Option.some.inj (found₁.symm.trans found₂)
  refine ⟨r₁, found₁, stack.trans stack', ?_, none₂⟩
  rw [marks, stack', marks']
  rfl

end Inside

theorem Sound.completed {boundary : Site kinds} {statements : List Code} (sound : Sound tracer seen
      ⟨n, s, .code (.tagged boundary (.tagged site (.body statements))), m⟩)
    (ran : (eval n s (.tagged boundary (.tagged site (.body statements)))).run.run m = (.ok v, m')) :
    ∃ k m₁ m₂ node, Completed n s m boundary site statements v m' k m₁ m₂ node := by
  obtain ⟨k, m₁, m₂, m₃, m₄, rfl, entered, inner, opened, body, closed, left⟩ :=
    run_function_value ran
  obtain ⟨boundaryId, label, id, bodyLabel, arguments, l, rfl, rfl, fit, h, fresh, piece⟩ :=
    sound.traced_function
  have nothing : l.operands = [] := (h.mirrors.untraced rfl).2
  obtain ⟨stage₁, enter, since, follows₁⟩ := h.enterFunction boundaryId label fit.watches fresh
  obtain rfl := congrArg Prod.snd (entered.symm.trans enter)
  obtain ⟨l₂, inside⟩ := follows₁.entered fit rfl piece opened
  obtain ⟨l₃, follows₃⟩ := inside.ran body (.inl rfl)
  -- the body as a whole puts one node on the stack, and the boundary hands that over
  obtain ⟨l₄, done⟩ := follows₁.ran fit inside.shaped inner
  obtain ⟨node, one, value, creator⟩ := done.pushed rfl
  rw [nothing] at one
  obtain ⟨stage, leave, handed, -, -⟩ := done.follows.leaveFunction boundaryId label fit.watches one
  obtain rfl := congrArg Prod.snd (left.symm.trans leave)
  have came : Came False seen s { traced := true, arguments } m [v] m₄ l₄ :=
    ⟨since.trans done.since, done.follows⟩
  refine ⟨k, m₂, m₃, node, .intro entered opened, body,
    inside.begins (fit.watches.entersFunction h.mirrors.sane entered) nothing opened, ?_,
    handed.leaves came h.called one, creator _ _ rfl, value, fun holds => ?_⟩
  · intro r found marks
    obtain ⟨r₁, found₁, stack₁⟩ := inside.consumes rfl follows₃.mirrors.sane closed found
      (show r.marks = ⟨_, List.length []⟩ :: [] from marks) (List.append_nil _).symm
    obtain ⟨r₂, found₂, stack₂, -⟩ := done.follows.mirrors.traced rfl
    obtain rfl : r₁ = r₂ := Option.some.inj (found₁.symm.trans found₂)
    rw [one] at stack₂
    exact (List.cons.inj (stack₂.symm.trans stack₁)).1
  · have leaves := holds.report fit.watches follows₃.mirrors.sane inside.noBoundary
      (fun unwinds => by cases unwinds) closed (done.follows.recorded_iff.mpr rfl)
    exact leaves.handed handed (done.follows.called.apart [v])

/-- The statements of an invocation have come to its value, or have been left by a `return` of it. -/
theorem Completed.ended {boundary : Site kinds} {statements : List Code} {k : Nat} {node : Node Value}
    (done : Completed n s m boundary site statements v m' k m₁ m₂ node) :
    (evalBody k s .nil statements).run.run m₁ = (.ok v, m₂) ∨
      (evalBody k s .nil statements).run.run m₁ = (.error (.returning v), m₂) := by
  have ran := done.ran
  rw [run_body] at ran
  rcases body : (evalBody k s .nil statements).run.run m₁ with ⟨(w | failure | _) | w, m₃⟩ <;>
    rw [body] at ran <;> cases ran
  · exact .inr rfl
  · exact .inl rfl

theorem BodyOf.within {body : Situation S} (h : BodyOf sit body) : Within sit body := by
  cases h with
  | intro entered opened =>
    exact ((Within.start.later (.tagged entered)).later (.tagged opened)).later .body

/-- A `return` of `v` has left the statements, and its outermost node is `top`. Following the only
    origins from there, through the nodes of the `return`s inside one another, one comes to what the
    innermost returned expression has left. The node of the body has been made right after `top`, from
    this and the nodes of all that had come to a value and was left behind, the last of them first. -/
structure EndedByReturn (v : Value) (body : Situation S) (top node : Node Value) : Prop where
  way : ∃ sites inner left origin nodes, Unwinds v body sites inner left ∧
    Links v origin sites top ∧ LeavesNode inner origin ∧ List.Forall₂ LeavesNode left nodes ∧
    node.origins = top :: nodes
  value : top.value = some v
  latest : node.seq = top.seq + 1

section

variable {boundary : Site kinds} {statements : List Code} {k : Nat} {node : Node Value}

theorem Completed.by_value
    (done : Completed n s m boundary site statements v m' k m₁ m₂ node)
    (sound : Sound tracer seen ⟨k, s, .body .nil statements, m₁⟩)
    (bodiless : Code.bodilessAll statements = true)
    (value : (evalBody k s .nil statements).run.run m₁ = (.ok v, m₂)) :
    HasResult s.frame none m'.stage.shadow := by
  obtain ⟨r, found, -, -, none⟩ := done.begins
  have kept : HasResult s.frame _ ((evalBody k s .nil statements).run.run m₁).2.stage.shadow :=
    sound.keeps_result bodiless ⟨r, found, none⟩ (congrArg Prod.fst value)
  rw [value] at kept
  exact done.result kept

theorem Completed.by_return
    (done : Completed n s m boundary site statements v m' k m₁ m₂ node)
    (sound : Sound tracer seen ⟨k, s, .body .nil statements, m₁⟩)
    (wellTagged : s.program.WellTagged)
    (returned : (evalBody k s .nil statements).run.run m₁ = (.error (.returning v), m₂)) :
    ∃ top, HasResult s.frame (some top) m'.stage.shadow ∧
      EndedByReturn v ⟨k, s, .body .nil statements, m₁⟩ top node := by
  obtain ⟨r, found, stack, marks, -⟩ := done.begins
  have recorded : m₁.stage.shadow.record? s.frame ≠ none := by
    rw [found]
    exact Option.some_ne_none r
  obtain ⟨sites, inner, left, way⟩ := (sound.formed recorded).unwinds wellTagged
    (fun value same => by cases same) (congrArg Prod.fst returned)
  obtain ⟨-, top, origin, nodes, onTop, links, leaves, behind⟩ := way.leaves sound recorded
  change ReturnOnTop s.frame m₁ ((evalBody k s .nil statements).run.run m₁).2 top nodes at onTop
  rw [returned] at onTop
  obtain ⟨⟨r', r₂, found', found₂, stack₂, marks₂⟩, result, latest⟩ := onTop
  obtain rfl : r = r' := Option.some.inj (found.symm.trans found')
  rw [stack, List.append_nil] at stack₂
  have made := done.made r₂ found₂ (marks₂.trans marks)
  rw [recordOf_eq found₂] at result
  refine ⟨top, done.result ⟨r₂, found₂, result⟩,
    ⟨_, _, _, origin, nodes, way, links, leaves, behind, ?_⟩, links.value, ?_⟩
  · rw [made]
    exact stack₂
  · rw [made]
    exact latest

end

/-! ### Runs of programs -/

/-- The record of a traced invocation that has come to a value tells how it has ended: it has a result
    if the statements have been left by a `return`, and then the result is the node of that. -/
theorem Program.result_tells_return {source : Source} {scope : ScopeId} {p : Program}
    (compiled : source.compile scope = some p) (tracer : Tracer) (world : World)
    (stage : Stage kinds S) (past : Past tracer world stage.shadow) (fuel : Nat)
    (owned : List Entity) (n : Nat) (s : Surroundings S) (m : Machine S) (boundary site : Site kinds)
    (statements : List Code) (v : Value) (m' : Machine S)
    (call : Within (p.situation fuel (.ofTracer tracer) owned world stage)
      ⟨n, s, .code (.tagged boundary (.tagged site (.body statements))), m⟩)
    (ran : (eval n s (.tagged boundary (.tagged site (.body statements)))).run.run m = (.ok v, m')) :
    ∃ body node r,
      BodyOf ⟨n, s, .code (.tagged boundary (.tagged site (.body statements))), m⟩ body ∧
      Leaves s m m' node ∧ node.creator = creatorOf site ∧ node.value = some v ∧
      m'.stage.shadow.record? s.frame = some r ∧ (r.result ≠ none ↔ Returning body v) ∧
      ∀ top, r.result = some top → EndedByReturn v body top node := by
  have wellTagged := (Source.wellTagged_of_compile compiled).1
  have flat := Source.flat_of_compile compiled
  have sound : Sound tracer (fun _ _ => True)
      (p.situation fuel (.ofTracer tracer) owned world stage) :=
    .function (Program.begun wellTagged (watches_ofTracer tracer) owned past)
  obtain ⟨k, m₁, m₂, node, done⟩ := (sound.within call).completed ran
  have inside := sound.within (call.trans done.body.within)
  have bodiless : Code.bodilessAll statements = true := call.flat flat flat.main
  rw [← show s.program = p from call.surroundings.1] at wellTagged
  rcases done.ended with value | returned
  · obtain ⟨r, found, none⟩ := done.by_value inside bodiless value
    refine ⟨_, node, r, done.body, done.leaves, done.creator, done.value, found, ?_, ?_⟩
    · -- a `return` inside would have left the statements
      have ended : Situation.ended ⟨k, s, .body .nil statements, m₁⟩ = (.ok v, m₂) := value
      refine iff_of_false (fun set => set none) fun returning => ?_
      have left := returning.ended (by rw [ended]; exact unbroken_ok v)
      rw [ended] at left
      cases left
    · intro top some
      rw [none] at some
      cases some
  · obtain ⟨top, ⟨r, found, result⟩, ended⟩ := done.by_return inside wellTagged returned
    refine ⟨_, node, r, done.body, done.leaves, done.creator, done.value, found, ?_, ?_⟩
    · refine iff_of_true ?_ (returning_of_ended wellTagged (congrArg Prod.fst returned))
      rw [result]
      exact Option.some_ne_none top
    · intro other some
      obtain rfl := Option.some.inj (result.symm.trans some)
      exact ended

/-- A traced main part whose sums are left by a `return` within a `return`. -/
def leavingSource : Source where
  functions := []
  main := some {
    name := "main", body := [.add (.int 1) (.ret (.add (.int 2) (.ret (.int 3)))), .nil] }

def leavingProgram : Program := (leavingSource.compile ⟨0⟩).get rfl

theorem Program.result_tells_return_sums :
    leavingSource.compile ⟨0⟩ = some leavingProgram ∧ Past {} callingWorld callingStage.shadow ∧
    ∃ (m' : Machine Unit) (body : Situation Unit) (node top : Node Value) (r : Record Value),
      (eval 20 (leavingProgram.surroundings (.ofTracer {}) [] callingWorld)
        leavingProgram.main).run.run (machine callingWorld callingStage) = (.ok (.int 3), m') ∧
      BodyOf (leavingProgram.situation 20 (.ofTracer {}) [] callingWorld callingStage) body ∧
      Returning body (.int 3) ∧ m'.stage.shadow.record? ⟨1⟩ = some r ∧ r.result = some top ∧
      EndedByReturn (.int 3) body top node ∧
      node.origins.map (·.value) = [some (.int 3), some (.int 2), some (.int 1)] := by
  have compiled : leavingSource.compile ⟨0⟩ = some leavingProgram := rfl
  obtain ⟨boundary, site, statements, form⟩ : ∃ boundary site statements,
      leavingProgram.main = .tagged boundary (.tagged site (.body statements)) := ⟨_, _, _, rfl⟩
  have begins : Within (leavingProgram.situation 20 (.ofTracer {}) [] callingWorld callingStage)
      ⟨20, leavingProgram.surroundings (.ofTracer {}) [] callingWorld, .code leavingProgram.main,
        machine callingWorld callingStage⟩ := .start
  rcases run : (eval 20 (leavingProgram.surroundings (.ofTracer {}) [] callingWorld)
    leavingProgram.main).run.run (machine callingWorld callingStage) with ⟨value, m'⟩
  obtain rfl : value = .ok (.int 3) := (congrArg Prod.fst run).symm.trans (by decide +kernel)
  -- what the record of the invocation holds at the end
  have set : (m'.stage.shadow.record? ⟨1⟩).bind (·.result) ≠ none := by
    rw [← show _ = m' from congrArg Prod.snd run]
    decide +kernel
  have origins : (m'.stage.shadow.record? ⟨1⟩).map (·.stack.map (·.origins.map (·.value))) =
      some [[some (.int 3), some (.int 2), some (.int 1)]] := by
    rw [← show _ = m' from congrArg Prod.snd run]
    decide +kernel
  rw [form] at begins run
  obtain ⟨body, node, r, bodyOf, leaves, -, -, found, returns, ended⟩ :=
    Program.result_tells_return compiled {} callingWorld callingStage calling_past 20 [] _ _ _ _ _ _ _
      _ begins run
  obtain ⟨_, found', stack, -⟩ := leaves.kept rfl
  obtain rfl := Option.some.inj (found.symm.trans found')
  have found : m'.stage.shadow.record? ⟨1⟩ = some r := found
  rw [found] at set origins
  obtain ⟨top, result⟩ := Option.ne_none_iff_exists'.mp set
  rw [Option.map_some, stack] at origins
  rw [← form] at bodyOf
  exact ⟨compiled, calling_past, m', body, node, top, r, rfl, bodyOf, returns.mp set, found, result,
    ended top result, (List.cons.inj (Option.some.inj origins)).1⟩

end Lineage.Toy
