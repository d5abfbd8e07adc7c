import Mathlib.Data.List.Nodup
import Lineage.Proofs.Toy.Compile
import Lineage.Proofs.Toy.Provenance

/-!
# The sites of a program

The compiler numbers the sites of a definition one after another, so that no two pieces of a program
have sites with one number and a site tells its piece.
-/

namespace Lineage.Toy

namespace Code

mutual

/-- The tagged pieces of the code with their sites, in the order in which they are compiled. -/
def tags : Code → List (Site kinds × Code)
  | .setLocal _ value | .setGlobal _ value | .setClassVariable _ value | .ret value => value.tags
  | .getProperty receiver _ => receiver.tags
  | .setProperty receiver _ value => value.tags ++ receiver.tags
  | .add left right => left.tags ++ right.tags
  | .call _ args => tagsAll args
  | .body statements => tagsAll statements
  | .tagged site code => (site, code) :: code.tags
  | _ => []

def tagsAll : List Code → List (Site kinds × Code)
  | [] => []
  | code :: rest => code.tags ++ tagsAll rest

end

end Code

/-- The piece stands in the program, tagged with the site. -/
def Program.Tags (p : Program) (site : Site kinds) (code : Code) : Prop :=
  (site, code) ∈ p.main.tags ∨
    ∃ name function, p.functions.get? name = some function ∧ (site, code) ∈ function.tags

/-- The sites have the numbers that come after `n`, up to `last`. -/
def Consecutive (tags : List (Site kinds × Code)) (n last : Nat) : Prop :=
  last = n + tags.length ∧ tags.map (·.1.id.number) = List.range' (n + 1) tags.length

namespace Consecutive

variable {tags others : List (Site kinds × Code)} {n k last : Nat}

theorem nil (n : Nat) : Consecutive [] n n := ⟨rfl, rfl⟩

theorem cons {site : Site kinds} (number : site.id.number = n + 1)
    (h : Consecutive tags (n + 1) last) (code : Code) : Consecutive ((site, code) :: tags) n last := by
  obtain ⟨count, numbers⟩ := h
  refine ⟨?_, ?_⟩
  · rw [count, List.length_cons]
    omega
  · rw [List.map_cons, numbers, number, List.length_cons, List.range'_succ]

theorem append (first : Consecutive tags n k) (second : Consecutive others k last) :
    Consecutive (tags ++ others) n last := by
  obtain ⟨rfl, numbers⟩ := first
  obtain ⟨count, numbers'⟩ := second
  refine ⟨?_, ?_⟩
  · rw [count, List.length_append]
    omega
  · rw [List.map_append, numbers, numbers', List.length_append,
      show n + tags.length + 1 = n + 1 + 1 * tags.length by omega, List.range'_append]

theorem bounds (h : Consecutive tags n last) {tag : Site kinds × Code} (mem : tag ∈ tags) :
    n < tag.1.id.number ∧ tag.1.id.number ≤ last := by
  obtain ⟨rfl, numbers⟩ := h
  have inside : tag.1.id.number ∈ List.range' (n + 1) tags.length :=
    numbers ▸ List.mem_map_of_mem (f := fun tag => tag.1.id.number) mem
  rw [List.mem_range'_1] at inside
  omega

theorem unique (h : Consecutive tags n last) {a b : Site kinds × Code} (ha : a ∈ tags)
    (hb : b ∈ tags) (same : a.1.id = b.1.id) : a = b := by
  have nodup : (tags.map (·.1.id.number)).Nodup := h.2 ▸ List.nodup_range'
  exact List.inj_on_of_nodup_map nodup ha hb (congrArg SiteId.number same)

end Consecutive

/-- No site of the tags has a number above `n`, and no two pieces have one site. -/
structure Distinct (tags : Site kinds → Code → Prop) (n : Nat) : Prop where
  counted : ∀ site code, tags site code → site.id.number ≤ n
  unique : ∀ site code site' code', tags site code → tags site' code' → site.id = site'.id →
    (site, code) = (site', code')

/-- Tags with later numbers are other tags. -/
theorem Distinct.add {tags tags' : Site kinds → Code → Prop} {n last : Nat}
    {added : List (Site kinds × Code)} (h : Distinct tags n) (later : Consecutive added n last)
    (only : ∀ site code, tags' site code → tags site code ∨ (site, code) ∈ added) :
    Distinct tags' last := by
  have grows : n ≤ last := later.1 ▸ Nat.le_add_right _ _
  constructor
  · intro site code there
    rcases only site code there with old | new
    · exact Nat.le_trans (h.counted site code old) grows
    · exact (later.bounds new).2
  · intro site code site' code' there there' same
    rcases only site code there with old | new <;> rcases only site' code' there' with old' | new'
    · exact h.unique _ _ _ _ old old' same
    · have bound := h.counted site code old
      have above := (later.bounds new').1
      rw [same] at bound
      exact absurd above (Nat.not_lt.mpr bound)
    · have bound := h.counted site' code' old'
      have above := (later.bounds new).1
      rw [same] at above
      exact absurd above (Nat.not_lt.mpr bound)
    · exact later.unique new new' same

theorem id_foldl_state (traits : List (Site.Trait kinds)) (site : Site kinds) :
    (traits.foldl Site.state site).id = site.id := by
  induction traits generalizing site with
  | nil => rfl
  | cons trait rest ih =>
    rw [List.foldl_cons, ih]
    cases trait <;> rfl

namespace Compile

theorem tag_consecutive {traced : Bool} {traits : List (Site.Trait kinds)} {code : Compile Code}
    (label : String) (inner : ∀ n, Consecutive (code.run n).1.tags n (code.run n).2) (n : Nat) :
    Consecutive ((tag traced label traits code).run n).1.tags n
      ((tag traced label traits code).run n).2 := by
  cases traced with
  | false => exact inner n
  | true =>
    rw [run_tag]
    exact .cons (congrArg SiteId.number (id_foldl_state traits _)) (inner (n + 1)) _

mutual

theorem expr_consecutive (scope : ScopeId) (traced : Bool) (e : Expr) (n : Nat) :
    Consecutive ((expr scope traced e).run n).1.tags n ((expr scope traced e).run n).2 := by
  cases e with
  | int | str | nil | new | getLocal | arg | getGlobal | getClassVariable =>
    refine tag_consecutive _ (fun k => ?_) n
    exact .nil k
  | setLocal name value | setGlobal name value | setClassVariable name value | ret value =>
    refine tag_consecutive _ (fun k => ?_) n
    exact expr_consecutive scope traced value k
  | getProperty receiver name =>
    refine tag_consecutive _ (fun k => ?_) n
    exact expr_consecutive scope traced receiver k
  | add left right =>
    refine tag_consecutive _ (fun k => ?_) n
    exact (expr_consecutive scope traced left k).append (expr_consecutive scope traced right _)
  | setProperty receiver name value =>
    refine tag_consecutive _ (fun k => ?_) n
    exact (expr_consecutive scope traced value k).append (expr_consecutive scope traced receiver _)
  | call name args =>
    refine tag_consecutive _ (fun k => ?_) n
    exact exprs_consecutive scope traced args k

theorem exprs_consecutive (scope : ScopeId) (traced : Bool) (es : List Expr) (n : Nat) :
    Consecutive (Code.tagsAll ((exprs scope traced es).run n).1) n
      ((exprs scope traced es).run n).2 := by
  cases es with
  | nil => exact .nil n
  | cons e rest =>
    exact (expr_consecutive scope traced e n).append (exprs_consecutive scope traced rest _)

end

theorem definition_consecutive (scope : ScopeId) (d : Definition) (n : Nat) :
    Consecutive ((definition scope d).run n).1.tags n ((definition scope d).run n).2 := by
  unfold definition
  refine tag_consecutive _ (fun i => tag_consecutive _ (fun k => ?_) i) n
  exact exprs_consecutive scope d.traced _ k

/-- The tags of functions, along with others. -/
def Among (others : Site kinds → Code → Prop) (functions : Dict String Code) (site : Site kinds)
    (code : Code) : Prop :=
  others site code ∨ ∃ name function, functions.get? name = some function ∧ (site, code) ∈ function.tags

theorem distinct_main {main : Code} {n : Nat} (h : Consecutive main.tags 0 n) :
    Distinct (Among (fun site code => (site, code) ∈ main.tags) {}) n := by
  have none : Distinct (fun _ _ => False) 0 := ⟨fun _ _ => False.elim, fun _ _ _ _ => False.elim⟩
  refine none.add h fun site code there => ?_
  rcases there with inside | ⟨_, _, found, -⟩
  · exact .inr inside
  · cases found

theorem functions_distinct (scope : ScopeId) (others : Site kinds → Code → Prop)
    (ds : List Definition) (done : Dict String Code) (n : Nat)
    (before : Distinct (Among others done) n) :
    Distinct (Among others ((functions scope ds done).run n).1)
      ((functions scope ds done).run n).2 := by
  induction ds generalizing done n with
  | nil => exact before
  | cons d rest ih =>
    refine ih _ _ (before.add (definition_consecutive scope d n) fun site code there => ?_)
    rcases there with other | ⟨name, function, found, inside⟩
    · exact .inl (.inl other)
    · rw [Dict.get?_set] at found
      split at found
      · cases found
        exact .inr inside
      · exact .inl (.inr ⟨name, function, found, inside⟩)

end Compile

/-- The main part is compiled first, then the functions in order. -/
theorem Source.compile_eq {source : Source} {scope : ScopeId} {p : Program}
    (compiled : source.compile scope = some p) : ∃ main, source.main = some main ∧
      p.main = ((Compile.definition scope main).run 0).1 ∧
      p.functions = ((Compile.functions scope source.functions {}).run
        ((Compile.definition scope main).run 0).2).1 := by
  unfold Source.compile at compiled
  obtain ⟨main, found, rfl⟩ := Option.map_eq_some_iff.mp compiled
  exact ⟨main, found, rfl, rfl⟩

/-- A site of a compiled program belongs to one piece of it. -/
theorem Source.tags_unique {source : Source} {scope : ScopeId} {p : Program}
    (compiled : source.compile scope = some p) {site site' : Site kinds} {code code' : Code}
    (tagged : p.Tags site code) (tagged' : p.Tags site' code') (same : site.id = site'.id) :
    (site, code) = (site', code') := by
  obtain ⟨main, -, mainCode, functions⟩ := Source.compile_eq compiled
  have first := Compile.distinct_main (Compile.definition_consecutive scope main 0)
  have all := Compile.functions_distinct scope _ source.functions {} _ first
  rw [← mainCode, ← functions] at all
  exact all.unique _ _ _ _ tagged tagged' same

/-! ### Programs that are traced as a whole -/

/-- Every definition of the program is traced. -/
structure Program.Traced (p : Program) : Prop where
  main : p.main.isTagged = true
  functions : ∀ name code, p.functions.get? name = some code → code.isTagged = true

end Lineage.Toy
