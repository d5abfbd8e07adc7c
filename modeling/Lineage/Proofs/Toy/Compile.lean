import Lineage.Toy.Program

/-!
# The form of compiled code

Code that comes out of the compiler is tagged throughout or not at all, one definition at a time, and
the tag of a piece says what the piece is: `Code.Shaped`. Taking the tags off gives the code that the
compiler makes of the untraced definition: `Code.strip`.
-/

namespace Lineage.Toy

/-- What is stated of the site of a piece of traced code. -/
def traitsOf (scope : ScopeId) : Code → List (Site.Trait kinds)
  | .int _ | .str _ | .nil | .new _ => [.category .noUseDefStack]
  | .getLocal name => [.category .useLocalDefStack, .localSlot name]
  | .setLocal name _ => [.category .useStackDefLocalStack, .localSlot name]
  | .arg index => [.category .useArgDefStack, .argument index .fromFrame]
  | .add .. | .body _ => [.category .useStackDefStack]
  | .call .. => [.category .useStackDefStack, .category .callNode]
  | .getProperty _ name => [.category .usePropertyStackDefStack, .property name]
  | .setProperty _ name _ => [.category .useStackDefPropertyStack, .property name]
  | .getGlobal name => [.category .useGlobalDefStack, .globalName name]
  | .setGlobal name _ => [.category .useStackDefGlobal, .globalName name]
  | .getClassVariable name => [.category .useClassVarDefStack, .classVariable name scope]
  | .setClassVariable name _ => [.category .useStackDefClassVar, .classVariable name scope]
  | .ret _ => [.category .useStackDefReturn]
  | .tagged .. => []

/-- The site of a piece of traced code. -/
def siteOf (scope : ScopeId) (id : SiteId) (label : String) (code : Code) : Site kinds :=
  Site.ofTraits id label (traitsOf scope code)

/-- The site of the boundary of a traced function. -/
def boundaryOf (id : SiteId) (label : String) : Site kinds :=
  Site.ofTraits id label [.category .functionBoundary]

namespace Code

mutual

/-- Code of a definition: tagged throughout if `traced`, without any tag otherwise. -/
inductive Shaped (scope : ScopeId) : Bool → Code → Prop
  | plain {code : Code} (piece : Piece scope false code) : Shaped scope false code
  | tagged {code : Code} (id : SiteId) (label : String) (piece : Piece scope true code) :
      Shaped scope true (.tagged (siteOf scope id label code) code)

/-- One piece of code of a definition, its own tag left out. -/
inductive Piece (scope : ScopeId) : Bool → Code → Prop
  | int {traced} (n : Int) : Piece scope traced (.int n)
  | str {traced} (text : String) : Piece scope traced (.str text)
  | nil {traced} : Piece scope traced .nil
  | new {traced} (className : String) : Piece scope traced (.new className)
  | getLocal {traced} (name : String) : Piece scope traced (.getLocal name)
  | setLocal {traced value} (name : String) (h : Shaped scope traced value) :
      Piece scope traced (.setLocal name value)
  | arg {traced} (index : Nat) : Piece scope traced (.arg index)
  | add {traced left right} (hl : Shaped scope traced left) (hr : Shaped scope traced right) :
      Piece scope traced (.add left right)
  | call {traced args} (name : String) (h : ∀ c ∈ args, Shaped scope traced c) :
      Piece scope traced (.call name args)
  | getProperty {traced receiver} (name : String) (h : Shaped scope traced receiver) :
      Piece scope traced (.getProperty receiver name)
  | setProperty {traced receiver value} (name : String) (hv : Shaped scope traced value)
      (hr : Shaped scope traced receiver) : Piece scope traced (.setProperty receiver name value)
  | getGlobal {traced} (name : String) : Piece scope traced (.getGlobal name)
  | setGlobal {traced value} (name : String) (h : Shaped scope traced value) :
      Piece scope traced (.setGlobal name value)
  | getClassVariable {traced} (name : String) : Piece scope traced (.getClassVariable name)
  | setClassVariable {traced value} (name : String) (h : Shaped scope traced value) :
      Piece scope traced (.setClassVariable name value)
  | ret {traced value} (h : Shaped scope traced value) : Piece scope traced (.ret value)
  | body {traced statements} (h : ∀ c ∈ statements, Shaped scope traced c) :
      Piece scope traced (.body statements)

end

/-- The code of a whole definition: a body, inside the boundary of the function if it is traced. -/
inductive Defined (scope : ScopeId) : Code → Prop
  | plain {statements : List Code} (h : ∀ c ∈ statements, Shaped scope false c) :
      Defined scope (.body statements)
  | traced {statements : List Code} (boundary : SiteId) (label : String) (id : SiteId)
      (bodyLabel : String) (h : ∀ c ∈ statements, Shaped scope true c) :
      Defined scope (.tagged (boundaryOf boundary label)
        (.tagged (siteOf scope id bodyLabel (.body statements)) (.body statements)))

end Code

/-- Every definition of the program is traced or untraced as a whole. -/
structure Program.WellTagged (p : Program) : Prop where
  main : p.main.Defined p.scope
  functions : ∀ name code, p.functions.get? name = some code → code.Defined p.scope

namespace Compile

open Code

theorem run_tag (label : String) (traits : List (Site.Trait kinds)) (code : Compile Code) (n : Nat) :
    (tag true label traits code).run n =
      (.tagged (Site.ofTraits ⟨n + 1⟩ label traits) (code.run (n + 1)).1, (code.run (n + 1)).2) := rfl

theorem tag_shaped {scope : ScopeId} {traced : Bool} {traits : List (Site.Trait kinds)}
    {code : Compile Code} (label : String) (piece : ∀ n, Piece scope traced (code.run n).1)
    (same : ∀ n, traitsOf scope (code.run n).1 = traits) (n : Nat) :
    Shaped scope traced ((tag traced label traits code).run n).1 := by
  cases traced with
  | false => exact .plain (piece n)
  | true =>
    rw [run_tag, ← same (n + 1)]
    exact .tagged _ _ (piece (n + 1))

mutual

theorem expr_shaped (scope : ScopeId) (traced : Bool) (e : Expr) (n : Nat) :
    Shaped scope traced ((expr scope traced e).run n).1 := by
  cases e with
  | int k => exact tag_shaped _ (fun _ => .int k) (fun _ => rfl) n
  | str text => exact tag_shaped _ (fun _ => .str text) (fun _ => rfl) n
  | nil => exact tag_shaped _ (fun _ => .nil) (fun _ => rfl) n
  | new className => exact tag_shaped _ (fun _ => .new className) (fun _ => rfl) n
  | getLocal name => exact tag_shaped _ (fun _ => .getLocal name) (fun _ => rfl) n
  | setLocal name value =>
    exact tag_shaped _ (fun k => .setLocal name (expr_shaped scope traced value k)) (fun _ => rfl) n
  | arg index => exact tag_shaped _ (fun _ => .arg index) (fun _ => rfl) n
  | add left right =>
    exact tag_shaped _ (fun k => .add (expr_shaped scope traced left k)
      (expr_shaped scope traced right _)) (fun _ => rfl) n
  | call name args =>
    exact tag_shaped _ (fun k => .call name (exprs_shaped scope traced args k)) (fun _ => rfl) n
  | getProperty receiver name =>
    exact tag_shaped _ (fun k => .getProperty name (expr_shaped scope traced receiver k))
      (fun _ => rfl) n
  | setProperty receiver name value =>
    exact tag_shaped _ (fun k => .setProperty name (expr_shaped scope traced value k)
      (expr_shaped scope traced receiver _)) (fun _ => rfl) n
  | getGlobal name => exact tag_shaped _ (fun _ => .getGlobal name) (fun _ => rfl) n
  | setGlobal name value =>
    exact tag_shaped _ (fun k => .setGlobal name (expr_shaped scope traced value k))
      (fun _ => rfl) n
  | getClassVariable name => exact tag_shaped _ (fun _ => .getClassVariable name) (fun _ => rfl) n
  | setClassVariable name value =>
    exact tag_shaped _ (fun k => .setClassVariable name (expr_shaped scope traced value k))
      (fun _ => rfl) n
  | ret value =>
    exact tag_shaped _ (fun k => .ret (expr_shaped scope traced value k)) (fun _ => rfl) n

theorem exprs_shaped (scope : ScopeId) (traced : Bool) (es : List Expr) (n : Nat) :
    ∀ c ∈ ((exprs scope traced es).run n).1, Shaped scope traced c := by
  cases es with
  | nil => exact fun c mem => nomatch mem
  | cons e rest =>
    intro c mem
    rcases List.mem_cons.mp mem with rfl | mem
    · exact expr_shaped scope traced e n
    · exact exprs_shaped scope traced rest _ c mem

end

theorem definition_defined (scope : ScopeId) (d : Definition) (n : Nat) :
    Defined scope ((definition scope d).run n).1 := by
  unfold definition
  cases d.traced with
  | false => exact .plain (exprs_shaped scope false _ n)
  | true => exact .traced _ _ _ _ (exprs_shaped scope true _ _)

/-- What holds of the code of every definition holds of all functions. -/
theorem functions_forall {scope : ScopeId} {P : Code → Prop}
    (each : ∀ d n, P ((definition scope d).run n).1) (ds : List Definition) (done : Dict String Code)
    (before : ∀ name code, done.get? name = some code → P code) (n : Nat) :
    ∀ name code, ((functions scope ds done).run n).1.get? name = some code → P code := by
  induction ds generalizing done n with
  | nil => exact before
  | cons d rest ih =>
    refine ih (done.set d.name ((definition scope d).run n).1) ?_ _
    intro name code found
    rw [Dict.get?_set] at found
    split at found
    · cases found
      exact each d n
    · exact before name code found

theorem functions_defined (scope : ScopeId) (ds : List Definition) (done : Dict String Code)
    (before : ∀ name code, done.get? name = some code → code.Defined scope) (n : Nat) :
    ∀ name code, ((functions scope ds done).run n).1.get? name = some code → code.Defined scope :=
  functions_forall (definition_defined scope) ds done before n

end Compile

theorem Compile.definition_traced (scope : ScopeId) {d : Definition} (traced : d.traced = true)
    (n : Nat) : ∃ boundary site statements,
      ((definition scope d).run n).1 = .tagged boundary (.tagged site (.body statements)) := by
  unfold definition
  rw [traced]
  exact ⟨_, _, _, rfl⟩

/-- The main part of a program is tagged if its definition is traced. -/
theorem Source.main_traced {source : Source} {scope : ScopeId} {p : Program} {d : Definition}
    (compiled : source.compile scope = some p) (main : source.main = some d)
    (traced : d.traced = true) :
    ∃ boundary site statements, p.main = .tagged boundary (.tagged site (.body statements)) := by
  unfold Source.compile at compiled
  rw [main] at compiled
  cases compiled
  exact Compile.definition_traced scope traced 0

/-! ### Untraced programs -/

/-- The program with every definition untraced. -/
def Source.untraced (source : Source) : Source where
  functions := source.functions.map ({ · with traced := false })
  main := source.main.map ({ · with traced := false })

namespace Code

mutual

/-- The code without its tags. -/
def strip : Code → Code
  | .int n => .int n
  | .str text => .str text
  | .nil => .nil
  | .new className => .new className
  | .getLocal name => .getLocal name
  | .setLocal name value => .setLocal name value.strip
  | .arg index => .arg index
  | .add left right => .add left.strip right.strip
  | .call name args => .call name (stripAll args)
  | .getProperty receiver name => .getProperty receiver.strip name
  | .setProperty receiver name value => .setProperty receiver.strip name value.strip
  | .getGlobal name => .getGlobal name
  | .setGlobal name value => .setGlobal name value.strip
  | .getClassVariable name => .getClassVariable name
  | .setClassVariable name value => .setClassVariable name value.strip
  | .ret value => .ret value.strip
  | .body statements => .body (stripAll statements)
  | .tagged _ code => code.strip

def stripAll : List Code → List Code
  | [] => []
  | code :: rest => code.strip :: stripAll rest

end

end Code

/-- One program is the other without its tags. -/
structure Program.Strips (p q : Program) : Prop where
  main : q.main = p.main.strip
  scope : q.scope = p.scope
  functions : ∀ name, q.functions.get? name = (p.functions.get? name).map Code.strip

namespace Compile

/-- Tagging makes no difference to what is left without tags. -/
theorem strip_tag {traced : Bool} {label : String} {traits : List (Site.Trait kinds)}
    {code plain : Compile Code} (inner : ∀ n k, (code.run n).1.strip = (plain.run k).1) (n k : Nat) :
    ((tag traced label traits code).run n).1.strip = ((tag false label traits plain).run k).1 := by
  cases traced with
  | false => exact inner n k
  | true => exact inner (n + 1) k

mutual

theorem strip_expr (scope : ScopeId) (traced : Bool) (e : Expr) (n k : Nat) :
    ((expr scope traced e).run n).1.strip = ((expr scope false e).run k).1 := by
  cases e with
  | int | str | nil | new | getLocal | arg | getGlobal | getClassVariable =>
    exact strip_tag (fun _ _ => rfl) n k
  | setLocal name value =>
    refine strip_tag (fun i j => ?_) n k
    exact congrArg (Code.setLocal name) (strip_expr scope traced value i j)
  | add left right =>
    refine strip_tag (fun i j => ?_) n k
    change Code.add _ _ = Code.add _ _
    rw [Code.add.injEq]
    exact ⟨strip_expr scope traced left i j, strip_expr scope traced right _ _⟩
  | call name args =>
    refine strip_tag (fun i j => ?_) n k
    exact congrArg (Code.call name) (strip_exprs scope traced args i j)
  | getProperty receiver name =>
    refine strip_tag (fun i j => ?_) n k
    exact congrArg (Code.getProperty · name) (strip_expr scope traced receiver i j)
  | setProperty receiver name value =>
    refine strip_tag (fun i j => ?_) n k
    change Code.setProperty _ _ _ = Code.setProperty _ _ _
    rw [Code.setProperty.injEq]
    exact ⟨strip_expr scope traced receiver _ _, rfl, strip_expr scope traced value i j⟩
  | setGlobal name value =>
    refine strip_tag (fun i j => ?_) n k
    exact congrArg (Code.setGlobal name) (strip_expr scope traced value i j)
  | setClassVariable name value =>
    refine strip_tag (fun i j => ?_) n k
    exact congrArg (Code.setClassVariable name) (strip_expr scope traced value i j)
  | ret value =>
    refine strip_tag (fun i j => ?_) n k
    exact congrArg Code.ret (strip_expr scope traced value i j)

theorem strip_exprs (scope : ScopeId) (traced : Bool) (es : List Expr) (n k : Nat) :
    Code.stripAll ((exprs scope traced es).run n).1 = ((exprs scope false es).run k).1 := by
  cases es with
  | nil => rfl
  | cons e rest =>
    change _ :: _ = _ :: _
    rw [List.cons.injEq]
    exact ⟨strip_expr scope traced e n k, strip_exprs scope traced rest _ _⟩

end

theorem strip_definition (scope : ScopeId) (d : Definition) (n k : Nat) :
    ((definition scope d).run n).1.strip =
      ((definition scope { d with traced := false }).run k).1 := by
  unfold definition
  refine strip_tag (fun i j => strip_tag (fun i j => ?_) i j) n k
  exact congrArg Code.body (strip_exprs scope d.traced _ i j)

theorem strip_functions (scope : ScopeId) (ds : List Definition) {done plain : Dict String Code}
    (before : ∀ name, plain.get? name = (done.get? name).map Code.strip) (n k : Nat) (name : String) :
    ((functions scope (ds.map ({ · with traced := false })) plain).run k).1.get? name =
      (((functions scope ds done).run n).1.get? name).map Code.strip := by
  induction ds generalizing done plain n k with
  | nil => exact before name
  | cons d rest ih =>
    refine ih (fun name => ?_) _ _
    rw [Dict.get?_set, Dict.get?_set, before name]
    split
    · exact congrArg some (strip_definition scope d n k).symm
    · rfl

end Compile

/-- The untraced program is the program without its tags. -/
theorem Source.strips_untraced {source : Source} {scope : ScopeId} {p q : Program}
    (compiled : source.compile scope = some p) (plain : source.untraced.compile scope = some q) :
    p.Strips q := by
  unfold Source.compile at compiled plain
  obtain ⟨main, found, rfl⟩ := Option.map_eq_some_iff.mp compiled
  rw [Source.untraced, found] at plain
  cases plain
  exact ⟨(Compile.strip_definition scope main 0 0).symm, rfl,
    Compile.strip_functions scope source.functions (fun _ => rfl) _ _⟩

/-- A compiled program has the form that the tracer relies on. -/
theorem Source.wellTagged_of_compile {source : Source} {scope : ScopeId} {p : Program}
    (compiled : source.compile scope = some p) : p.WellTagged ∧ p.scope = scope := by
  unfold Source.compile at compiled
  obtain ⟨main, -, rfl⟩ := Option.map_eq_some_iff.mp compiled
  refine ⟨⟨Compile.definition_defined scope main 0, ?_⟩, rfl⟩
  exact Compile.functions_defined scope source.functions {} (fun _ _ found => nomatch found) _

end Lineage.Toy
