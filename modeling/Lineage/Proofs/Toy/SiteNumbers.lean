import Lineage.Proofs.Capabilities
import Lineage.Proofs.Toy.Tags

/-!
# How the sites of a program are numbered

The definitions of a program are compiled one after another, and each of them gets a block of numbers:
two for its boundary and its body, two for each parameter and one for each expression if it is traced,
and none if it is not. Inside a block a piece is numbered before its parts. Nothing but a missing main
part keeps a program from being compiled, as every site is one that `Site.build` accepts.
-/

namespace Lineage.Toy

/-! ### The size of a source -/

namespace Expr

mutual

/-- The number of expressions that an expression is made of, with itself. -/
def size : Expr → Nat
  | .setLocal _ value | .setGlobal _ value | .setClassVariable _ value | .ret value => value.size + 1
  | .getProperty receiver _ => receiver.size + 1
  | .setProperty receiver _ value => value.size + receiver.size + 1
  | .add left right => left.size + right.size + 1
  | .call _ args => sizeAll args + 1
  | _ => 1

def sizeAll : List Expr → Nat
  | [] => 0
  | e :: rest => e.size + sizeAll rest

end

theorem sizeAll_append (es others : List Expr) :
    sizeAll (es ++ others) = sizeAll es + sizeAll others := by
  induction es with
  | nil => simp [sizeAll]
  | cons e rest ih => simp only [List.cons_append, sizeAll, ih, Nat.add_assoc]

end Expr

/-- The sites that a definition gets: one for its boundary and one for its body, two for each parameter
    and one for each expression of the body, unless it is untraced. -/
def Definition.siteCount (d : Definition) : Nat :=
  if d.traced then 2 + 2 * d.params.length + Expr.sizeAll d.body else 0

namespace Compile

/-- A parameter is bound by an assignment of an argument. -/
theorem sizeAll_parameters (index : Nat) (params : List String) :
    Expr.sizeAll (parameters index params) = 2 * params.length := by
  induction params generalizing index with
  | nil => rfl
  | cons name rest ih =>
    simp only [parameters, Expr.sizeAll, Expr.size, ih, List.length_cons]
    omega

/-! ### Counting sites -/

/-- A traced piece has one site more than its parts, an untraced one has none. -/
theorem length_tags_tag {traced : Bool} {traits : List (Site.Trait kinds)} {code : Compile Code}
    (label : String) (inside : Nat)
    (inner : ∀ n, (code.run n).1.tags.length = if traced then inside else 0) (n : Nat) :
    ((tag traced label traits code).run n).1.tags.length = if traced then inside + 1 else 0 := by
  cases traced with
  | false => exact inner n
  | true =>
    rw [run_tag]
    exact congrArg (· + 1) (inner (n + 1))

/-- The tags of two parts are those of one and of the other. -/
theorem length_append_of {traced : Bool} {tags others : List (Site kinds × Code)} {i j : Nat}
    (first : tags.length = if traced then i else 0)
    (second : others.length = if traced then j else 0) :
    (tags ++ others).length = if traced then i + j else 0 := by
  rw [List.length_append, first, second]
  cases traced <;> rfl

mutual

theorem length_tags_expr (scope : ScopeId) (traced : Bool) (e : Expr) (n : Nat) :
    ((expr scope traced e).run n).1.tags.length = if traced then e.size else 0 := by
  cases e with
  | int | str | nil | new | getLocal | arg | getGlobal | getClassVariable =>
    refine length_tags_tag _ 0 (fun k => ?_) n
    exact (ite_self 0).symm
  | setLocal name value | setGlobal name value | setClassVariable name value | ret value =>
    refine length_tags_tag _ _ (fun k => ?_) n
    exact length_tags_expr scope traced value k
  | getProperty receiver name =>
    refine length_tags_tag _ _ (fun k => ?_) n
    exact length_tags_expr scope traced receiver k
  | add left right =>
    refine length_tags_tag _ _ (fun k => ?_) n
    exact length_append_of (length_tags_expr scope traced left k)
      (length_tags_expr scope traced right _)
  | setProperty receiver name value =>
    refine length_tags_tag _ _ (fun k => ?_) n
    exact length_append_of (length_tags_expr scope traced value k)
      (length_tags_expr scope traced receiver _)
  | call name args =>
    refine length_tags_tag _ _ (fun k => ?_) n
    exact length_tagsAll_exprs scope traced args k

theorem length_tagsAll_exprs (scope : ScopeId) (traced : Bool) (es : List Expr) (n : Nat) :
    (Code.tagsAll ((exprs scope traced es).run n).1).length =
      if traced then Expr.sizeAll es else 0 := by
  cases es with
  | nil => exact (ite_self 0).symm
  | cons e rest =>
    exact length_append_of (length_tags_expr scope traced e n)
      (length_tagsAll_exprs scope traced rest _)

end

theorem length_tags_definition (scope : ScopeId) (d : Definition) (n : Nat) :
    ((definition scope d).run n).1.tags.length = d.siteCount := by
  have counted : ((definition scope d).run n).1.tags.length =
      if d.traced then Expr.sizeAll (parameters 0 d.params ++ d.body) + 1 + 1 else 0 := by
    unfold definition
    refine length_tags_tag _ _ (fun i => length_tags_tag _ _ (fun k => ?_) i) n
    exact length_tagsAll_exprs scope d.traced _ k
  rw [counted, Definition.siteCount, Expr.sizeAll_append, sizeAll_parameters]
  congr 1
  omega

end Compile

/-! ### Parts of a piece -/

namespace Code

mutual

/-- The tags inside a tagged piece come right after its own. -/
theorem tags_split (code : Code) {tag : Site kinds × Code} (mem : tag ∈ code.tags) :
    ∃ before after, code.tags = before ++ tag :: (tag.2.tags ++ after) := by
  cases code with
  | int | str | nil | new | getLocal | arg | getGlobal | getClassVariable => cases mem
  | setLocal name value | setGlobal name value | setClassVariable name value | ret value =>
    exact tags_split value mem
  | getProperty receiver name => exact tags_split receiver mem
  | add left right | setProperty right name left =>
    change ∃ before after, left.tags ++ right.tags = before ++ tag :: (tag.2.tags ++ after)
    rcases List.mem_append.mp mem with mem | mem
    · obtain ⟨before, after, split⟩ := tags_split left mem
      exact ⟨before, after ++ right.tags, by rw [split]; simp⟩
    · obtain ⟨before, after, split⟩ := tags_split right mem
      exact ⟨left.tags ++ before, after, by rw [split]; simp⟩
  | call name args => exact tagsAll_split args mem
  | body statements => exact tagsAll_split statements mem
  | tagged site code =>
    rcases List.mem_cons.mp mem with rfl | mem
    · exact ⟨[], [], by simp [tags]⟩
    · obtain ⟨before, after, split⟩ := tags_split code mem
      exact ⟨(site, code) :: before, after, by rw [tags, split]; rfl⟩

theorem tagsAll_split (codes : List Code) {tag : Site kinds × Code} (mem : tag ∈ tagsAll codes) :
    ∃ before after, tagsAll codes = before ++ tag :: (tag.2.tags ++ after) := by
  cases codes with
  | nil => cases mem
  | cons code rest =>
    change ∃ before after, code.tags ++ tagsAll rest = before ++ tag :: (tag.2.tags ++ after)
    rcases List.mem_append.mp mem with mem | mem
    · obtain ⟨before, after, split⟩ := tags_split code mem
      exact ⟨before, after ++ tagsAll rest, by rw [split]; simp⟩
    · obtain ⟨before, after, split⟩ := tagsAll_split rest mem
      exact ⟨code.tags ++ before, after, by rw [split]; simp⟩

end

end Code

/-- A piece has a smaller number than all pieces inside it. -/
theorem Consecutive.lt_of_inside {code : Code} {n last : Nat} (h : Consecutive code.tags n last)
    {tag inner : Site kinds × Code} (mem : tag ∈ code.tags) (inside : inner ∈ tag.2.tags) :
    tag.1.id.number < inner.1.id.number := by
  obtain ⟨before, after, split⟩ := code.tags_split mem
  have sorted : (code.tags.map (·.1.id.number)).Pairwise (· < ·) := h.2 ▸ List.pairwise_lt_range'
  rw [split, List.map_append, List.map_cons] at sorted
  have first := (List.pairwise_cons.mp (List.pairwise_append.mp sorted).2.1).1
  exact first _ (List.mem_map_of_mem (List.mem_append_left _ inside))

/-! ### Completely described sites -/

/-- The site has been described completely. -/
def WellMade (site : Site kinds) : Prop :=
  ∃ traits, Site.build site.id site.label traits = .ok site

theorem wellMade_boundaryOf (id : SiteId) (label : String) : WellMade (boundaryOf id label) :=
  ⟨[.category .functionBoundary], rfl⟩

namespace Code

theorem Piece.wellMade {scope : ScopeId} {code : Code} (piece : code.Piece scope true) (id : SiteId)
    (label : String) : WellMade (siteOf scope id label code) := by
  refine ⟨traitsOf scope code, ?_⟩
  cases piece <;> rfl

mutual

theorem wellMade_of_shaped {scope : ScopeId} {traced : Bool} (code : Code)
    (h : code.Shaped scope traced ∨ code.Piece scope traced) :
    ∀ tag ∈ code.tags, WellMade tag.1 := by
  have piece : code.isTagged = false → code.Piece scope traced := by
    rintro untagged
    rcases h with (piece | _) | piece
    · exact piece
    · cases untagged
    · exact piece
  cases code with
  | int | str | nil | new | getLocal | arg | getGlobal | getClassVariable => exact nofun
  | setLocal name value | setGlobal name value | setClassVariable name value | ret value =>
    cases piece rfl
    exact wellMade_of_shaped value (.inl ‹_›)
  | getProperty receiver name =>
    cases piece rfl
    exact wellMade_of_shaped receiver (.inl ‹_›)
  | add left right =>
    cases piece rfl with
    | add shapedLeft shapedRight =>
      exact List.forall_mem_append.mpr ⟨wellMade_of_shaped left (.inl shapedLeft),
        wellMade_of_shaped right (.inl shapedRight)⟩
  | setProperty receiver name value =>
    cases piece rfl with
    | setProperty _ shapedValue shapedReceiver =>
      exact List.forall_mem_append.mpr ⟨wellMade_of_shaped value (.inl shapedValue),
        wellMade_of_shaped receiver (.inl shapedReceiver)⟩
  | call name args =>
    cases piece rfl with
    | call _ shaped => exact wellMade_of_shapedAll args shaped
  | body statements =>
    cases piece rfl with
    | body shaped => exact wellMade_of_shapedAll statements shaped
  | tagged site code =>
    rcases h with (none | ⟨id, label, inside⟩) | none
    · cases none
    · exact List.forall_mem_cons.mpr
        ⟨inside.wellMade id label, wellMade_of_shaped code (.inr inside)⟩
    · cases none

theorem wellMade_of_shapedAll {scope : ScopeId} {traced : Bool} (codes : List Code)
    (h : ∀ c ∈ codes, c.Shaped scope traced) : ∀ tag ∈ tagsAll codes, WellMade tag.1 := by
  cases codes with
  | nil => exact nofun
  | cons code rest =>
    exact List.forall_mem_append.mpr ⟨wellMade_of_shaped code (.inl (h _ List.mem_cons_self)),
      wellMade_of_shapedAll rest fun c mem => h c (List.mem_cons_of_mem _ mem)⟩

end

theorem Defined.wellMade {scope : ScopeId} {code : Code} (defined : code.Defined scope) :
    ∀ tag ∈ code.tags, WellMade tag.1 := by
  cases defined with
  | plain shaped => exact wellMade_of_shapedAll _ shaped
  | traced boundary label id bodyLabel shaped =>
    exact List.forall_mem_cons.mpr ⟨wellMade_boundaryOf boundary label,
      List.forall_mem_cons.mpr ⟨(Piece.body shaped).wellMade id bodyLabel,
        wellMade_of_shapedAll _ shaped⟩⟩

end Code

/-! ### Blocks -/

/-- A definition with its code. -/
structure Block where
  definition : Definition
  /-- The sites made before the definition is compiled. -/
  earlier : Nat
  code : Code

/-- The sites of the block have the numbers after the earlier ones, as many as the definition gets. -/
structure Block.Numbered (block : Block) : Prop where
  numbers : block.code.tags.map (·.1.id.number) =
    List.range' (block.earlier + 1) block.definition.siteCount
  inwards : ∀ tag ∈ block.code.tags, ∀ inner ∈ tag.2.tags, tag.1.id.number < inner.1.id.number
  untraced : block.definition.traced = false → block.code.tags = []
  wellMade : ∀ tag ∈ block.code.tags, WellMade tag.1

namespace Compile

/-- Definitions compiled one after another. -/
def blocks (scope : ScopeId) : List Definition → Nat → List Block
  | [], _ => []
  | d :: rest, n =>
      let (code, last) := (definition scope d).run n
      ⟨d, n, code⟩ :: blocks scope rest last

theorem blocks_definitions (scope : ScopeId) (ds : List Definition) (n : Nat) :
    (blocks scope ds n).map (·.definition) = ds := by
  induction ds generalizing n with
  | nil => rfl
  | cons d rest ih => exact congrArg (d :: ·) (ih _)

theorem blocks_numbered (scope : ScopeId) (ds : List Definition) (n : Nat) :
    ∀ block ∈ blocks scope ds n, block.Numbered := by
  induction ds generalizing n with
  | nil => exact nofun
  | cons d rest ih =>
    refine List.forall_mem_cons.mpr ⟨?_, ih _⟩
    have consecutive := definition_consecutive scope d n
    have count := length_tags_definition scope d n
    constructor
    · exact count ▸ consecutive.2
    · exact fun tag mem inner => consecutive.lt_of_inside mem
    · intro untraced
      refine List.eq_nil_of_length_eq_zero (count.trans ?_)
      exact if_neg (Bool.eq_false_iff.mp untraced)
    · exact (definition_defined scope d n).wellMade

/-- Functions are compiled in blocks; each block takes the place of an earlier one of its name. -/
theorem functions_eq_blocks (scope : ScopeId) (ds : List Definition) (done : Dict String Code)
    (n : Nat) : ((functions scope ds done).run n).1 =
      (blocks scope ds n).foldl (fun done block => done.set block.definition.name block.code) done := by
  induction ds generalizing done n with
  | nil => rfl
  | cons d rest ih => exact ih _ _

theorem blocks_consecutive (scope : ScopeId) (ds : List Definition) (done : Dict String Code)
    (n : Nat) : Consecutive ((blocks scope ds n).flatMap (·.code.tags)) n
      ((functions scope ds done).run n).2 := by
  induction ds generalizing done n with
  | nil => exact .nil n
  | cons d rest ih => exact (definition_consecutive scope d n).append (ih _ _)

end Compile

/-- The blocks of a program, that of its main part first. -/
def Source.blocks (source : Source) (scope : ScopeId) : List Block :=
  Compile.blocks scope (source.main.toList ++ source.functions) 0

/-- A program is compiled if it has a main part. The numbers of its sites are those from 1 to their
    count, each of them used once, block by block; a function that has been replaced by a later one of
    its name has a block all the same. -/
theorem Source.sites_numbered (source : Source) (scope : ScopeId) :
    (source.compile scope = none ↔ source.main = none) ∧
    ∀ p, source.compile scope = some p →
      (∃ main functions, source.blocks scope = main :: functions ∧
        source.main = some main.definition ∧ source.functions = functions.map (·.definition) ∧
        p.main = main.code ∧ p.functions = functions.foldl
          (fun done block => done.set block.definition.name block.code) {}) ∧
      (((source.blocks scope).flatMap (·.code.tags)).map (·.1.id.number) =
        List.range' 1 p.siteCount) ∧
      ∀ block ∈ source.blocks scope, block.Numbered := by
  refine ⟨Option.map_eq_none_iff, fun p compiled => ?_⟩
  obtain ⟨main, found, rfl⟩ := Option.map_eq_some_iff.mp compiled
  have split : source.blocks scope = ⟨main, 0, ((Compile.definition scope main).run 0).1⟩ ::
      Compile.blocks scope source.functions ((Compile.definition scope main).run 0).2 := by
    unfold Source.blocks
    rw [found]
    rfl
  have all := (Compile.definition_consecutive scope main 0).append
    (Compile.blocks_consecutive scope source.functions {} _)
  refine ⟨⟨_, _, split, found, (Compile.blocks_definitions scope _ _).symm, rfl, ?_⟩, ?_, ?_⟩
  · exact Compile.functions_eq_blocks scope source.functions {} _
  · rw [split]
    refine all.2.trans (congrArg (List.range' 1) ?_)
    exact (all.1.trans (Nat.zero_add _)).symm
  · exact Compile.blocks_numbered scope _ 0

/-- The second of the functions replaces the first one. -/
def replacingSource : Source where
  functions := [
    { name := "f", body := [.nil] },
    { name := "f", params := ["x"], body := [.ret (.getLocal "x")] }]
  main := some { name := "main", body := [.call "f" [.int 1]] }

theorem Source.sites_numbered_replacing : ∃ p, replacingSource.compile ⟨0⟩ = some p ∧
    p.siteCount = 13 ∧ (replacingSource.blocks ⟨0⟩).length = 3 ∧
    ((replacingSource.blocks ⟨0⟩).flatMap (·.code.tags)).map (·.1.id.number) = List.range' 1 13 ∧
    ∀ block ∈ replacingSource.blocks ⟨0⟩, block.Numbered := by
  obtain ⟨p, compiled⟩ : ∃ p, replacingSource.compile ⟨0⟩ = some p := ⟨_, rfl⟩
  obtain ⟨-, numbers, numbered⟩ := (Source.sites_numbered replacingSource ⟨0⟩).2 p compiled
  have count : p.siteCount = 13 := by
    obtain rfl := Option.some.inj compiled
    rfl
  exact ⟨p, compiled, count, rfl, count ▸ numbers, numbered⟩

end Lineage.Toy
