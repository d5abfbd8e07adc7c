/-!
# Sets of code points

A set of code points is written as closed ranges in ascending order. The search for a code point ends
at the first range beyond it; `liesIn_iff` says that nothing is missed by that.
-/

namespace Lineage.Text

/-- Each range ends before the next one starts. -/
def isAscending : List (Nat × Nat) → Bool
  | [] => true
  | (lo, hi) :: rest => lo ≤ hi && rest.head?.all (hi < ·.1) && isAscending rest

/-- Whether `n` lies in one of the ranges, which ascend. -/
def liesIn (n : Nat) : List (Nat × Nat) → Bool
  | [] => false
  | (lo, hi) :: rest => lo ≤ n && (n ≤ hi || liesIn n rest)

theorem lt_of_isAscending {lo hi : Nat} {rest : List (Nat × Nat)}
    (h : isAscending ((lo, hi) :: rest) = true) : ∀ range ∈ rest, hi < range.1 := by
  induction rest generalizing lo hi with
  | nil => simp
  | cons head rest ih =>
    obtain ⟨lo', hi'⟩ := head
    have later : ∀ range ∈ rest, hi' < range.1 := @ih lo' hi' (by simp_all [isAscending])
    simp only [isAscending, List.head?_cons, Option.all_some, Bool.and_eq_true,
      decide_eq_true_eq] at h
    intro range mem
    rcases List.mem_cons.mp mem with rfl | mem
    · exact h.1.2
    · have := later range mem
      omega

theorem liesIn_iff {ranges : List (Nat × Nat)} (h : isAscending ranges = true) (n : Nat) :
    liesIn n ranges = true ↔ ∃ range ∈ ranges, range.1 ≤ n ∧ n ≤ range.2 := by
  induction ranges with
  | nil => simp [liesIn]
  | cons head rest ih =>
    obtain ⟨lo, hi⟩ := head
    have beyond := lt_of_isAscending h
    simp only [isAscending, Bool.and_eq_true, decide_eq_true_eq] at h
    simp only [liesIn, Bool.and_eq_true, Bool.or_eq_true, decide_eq_true_eq, ih h.2,
      List.mem_cons, exists_eq_or_imp]
    constructor
    · rintro ⟨hlo, hhi | found⟩
      · exact .inl ⟨hlo, hhi⟩
      · exact .inr found
    · rintro (⟨hlo, hhi⟩ | ⟨range, mem, hlo, hhi⟩)
      · exact ⟨hlo, .inl hhi⟩
      · have := beyond range mem
        exact ⟨by omega, .inr ⟨range, mem, hlo, hhi⟩⟩

end Lineage.Text
