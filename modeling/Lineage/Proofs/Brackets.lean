import Lineage.Checkpoint

/-!
# Well-bracketed checkpoints

A host that enters a site leaves it again, by a return or by an exception, after it has left all that
it entered meanwhile.
-/

namespace Lineage

variable {K : Kinds}

/-- Each enter is closed by one return or unwind of its own site and frame, properly nested. -/
inductive Bracketed : List (Checkpoint K) → Prop
  | nil : Bracketed []
  | pair {opening closing : Checkpoint K} {inside after : List (Checkpoint K)}
      (opens : opening.moment = .enter) (closes : closing.moment ≠ .enter)
      (site : closing.site = opening.site) (frame : closing.frame = opening.frame)
      (inner : Bracketed inside) (rest : Bracketed after) :
      Bracketed (opening :: (inside ++ closing :: after))

namespace Bracketed

theorem append {first second : List (Checkpoint K)} (h : Bracketed first) (h' : Bracketed second) :
    Bracketed (first ++ second) := by
  induction h with
  | nil => exact h'
  | pair opens closes site frame inner rest _ ih =>
    rw [List.cons_append, List.append_assoc, List.cons_append]
    exact .pair opens closes site frame inner ih

/-- What closes has its own enter before it, and all that lies between the two is closed. -/
theorem opening {past rest : List (Checkpoint K)} {closing : Checkpoint K}
    (h : Bracketed (past ++ closing :: rest)) (closes : closing.moment ≠ .enter) :
    ∃ before opening inner, past = before ++ opening :: inner ∧ opening.moment = .enter ∧
      closing.site = opening.site ∧ closing.frame = opening.frame ∧ Bracketed inner := by
  generalize stream : past ++ closing :: rest = checkpoints at h
  induction h generalizing past rest with
  | nil => exact absurd stream (by simp)
  | @pair first last inside after opens closes' site frame inner bracketed ihInner ihRest =>
    cases past with
    | nil =>
      cases stream
      exact absurd opens closes
    | cons head tail =>
      obtain ⟨rfl, tails⟩ := List.cons.inj stream
      rcases List.append_eq_append_iff.mp tails with ⟨others, own, ends⟩ | ⟨others, own, ends⟩
      · -- `closing` lies inside the first pair, or is its end
        cases others with
        | nil =>
          rw [List.append_nil] at own
          cases ends
          exact ⟨[], head, tail, rfl, opens, site, frame, own ▸ inner⟩
        | cons other more =>
          obtain ⟨rfl, -⟩ := List.cons.inj ends
          obtain ⟨before, opening, between, rfl, found⟩ := ihInner own.symm
          exact ⟨head :: before, opening, between, rfl, found⟩
      · cases others with
        | nil =>
          rw [List.append_nil] at own
          cases ends
          exact ⟨[], head, tail, rfl, opens, site, frame, own ▸ inner⟩
        | cons other more =>
          obtain ⟨rfl, ends'⟩ := List.cons.inj ends
          obtain ⟨before, opening, between, rfl, found⟩ := ihRest ends'.symm
          refine ⟨head :: inside ++ last :: before, opening, between, ?_, found⟩
          rw [own]
          simp

/-- Two closed parts, each of which is followed by something that closes, are the same part. -/
theorem unique {first second rest rest' : List (Checkpoint K)} {closing closing' : Checkpoint K}
    (h : Bracketed first) (h' : Bracketed second) (closes : closing.moment ≠ .enter)
    (closes' : closing'.moment ≠ .enter)
    (same : first ++ closing :: rest = second ++ closing' :: rest') :
    first = second ∧ closing = closing' ∧ rest = rest' := by
  induction h generalizing second closing closing' rest rest' with
  | nil =>
    cases h' with
    | nil =>
      cases same
      exact ⟨rfl, rfl, rfl⟩
    | pair opens =>
      cases same
      exact absurd opens closes
  | pair opens closesInner site frame inner bracketed ihInner ihRest =>
    cases h' with
    | nil =>
      cases same
      exact absurd opens closes'
    | pair _ closesInner' _ _ inner' bracketed' =>
      simp only [List.cons_append, List.append_assoc, List.cons.injEq] at same
      obtain ⟨rfl, tails⟩ := same
      obtain ⟨rfl, rfl, later⟩ := ihInner inner' closesInner closesInner' tails
      obtain ⟨rfl, rfl, rfl⟩ := ihRest bracketed' closes closes' later
      exact ⟨rfl, rfl, rfl⟩

end Bracketed

end Lineage
