import Lineage.Proofs.Json.Reading

/-!
# Well-formed values are passed over

A member that a type does not know may have any value. Passing over it goes as deep as its text is
nested, two calls for each list or object, so a bound of twice the length of the text is enough.
-/

namespace Lineage.Json.Reader

/-- The value is passed over, with any white space before it, by a call that may go deep enough. -/
structure Skips (text : List Char) : Prop where
  begins : Begins text
  run : ∀ {fuel : Nat} {gap rest : List Char}, 2 * text.length ≤ fuel → Gap gap → Ends rest →
    (skipValueWith fuel).run (gap ++ (text ++ rest)) = .ok ((), rest)

/-- One item of a list is passed over, and what follows it is looked at. -/
theorem run_skipItem {item : Part} (padded : item.Padded) (skips : Skips item.inner) {fuel : Nat}
    (enough : 2 * item.text.length ≤ fuel) (parts : List (List Char)) (rest : List Char) :
    (skipItemsWith (fuel + 1)).run (item.text ++ following ']' parts rest) =
      (do
        match ← start with
        | ']' => skipChar
        | ',' => skipChar; skipItemsWith fuel
        | _ => throw .malformed : Reader Unit).run (item.after ++ following ']' parts rest) := by
  have small := item.length_inner_le
  rw [Part.text_append, skipItemsWith]
  exact run_bind_of (skips.run (by omega) padded.1
    ((ends_following (by decide) parts rest).gap padded.2)) _

theorem run_skipItemsWith (more : List Part) {first : Part}
    (skips : ∀ item ∈ first :: more, item.Padded ∧ Skips item.inner) {fuel : Nat}
    (enough : 2 * (separated ((first :: more).map Part.text)).length < fuel) (rest : List Char) :
    (skipItemsWith fuel).run (first.text ++ following ']' (more.map Part.text) rest) =
      .ok ((), rest) := by
  induction more generalizing first fuel with
  | nil =>
    obtain _ | fuel := fuel
    · cases enough
    obtain ⟨padded, skipsFirst⟩ := skips _ List.mem_cons_self
    rw [run_skipItem padded skipsFirst (by simp [separated_cons] at enough; omega), List.map_nil,
      following_nil, run_bind_of (run_start padded.2 (by decide) _)]
    rfl
  | cons second more ih =>
    obtain _ | fuel := fuel
    · cases enough
    have shorter : 2 * first.text.length ≤ fuel ∧
        2 * (separated ((second :: more).map Part.text)).length < fuel := by
      simp [separated_cons] at enough ⊢
      omega
    obtain ⟨padded, skipsFirst⟩ := skips _ List.mem_cons_self
    rw [run_skipItem padded skipsFirst shorter.1, List.map_cons, following_cons,
      run_bind_of (run_start padded.2 (by decide) _)]
    refine (run_bind_of (run_skipChar _ _) _).trans (ih (fun item mem => ?_) shorter.2)
    exact skips _ (List.mem_cons_of_mem _ mem)

/-- One member of an object is passed over, and what follows it is looked at. -/
theorem run_skipMember {member : Part × Part} (padded : member.1.Padded ∧ member.2.Padded)
    (name : AnyText member.1.inner) (skips : Skips member.2.inner) {fuel : Nat}
    (enough : 2 * (memberText member).length ≤ fuel) (parts : List (List Char)) (rest : List Char) :
    (skipMembersWith (fuel + 1)).run (memberText member ++ following '\x7d' parts rest) =
      (do
        match ← start with
        | '\x7d' => skipChar
        | ',' => skipChar; skipMembersWith fuel
        | _ => throw .malformed : Reader Unit).run
          (member.2.after ++ following '\x7d' parts rest) := by
  have deep : 2 * member.2.inner.length ≤ fuel := by
    have small := member.2.length_inner_le
    simp [memberText] at enough
    omega
  rw [skipMembersWith, run_bind_of (start_memberText _ padded.1 name.head? _),
    if_neg (by decide), memberText_append]
  change StateT.run _ (member.1.inner ++ (member.1.after ++ ':' :: (member.2.text ++ _))) = _
  rw [run_bind_of (takes_skipString name _), run_bind_of (run_start padded.1.2 (by decide) _),
    if_neg (by decide), run_bind_of (run_skipChar _ _), Part.text_append]
  exact run_bind_of (skips.run deep padded.2.1
    ((ends_following (by decide) parts rest).gap padded.2.2)) _

theorem run_skipMembersWith (more : List (Part × Part)) {first : Part × Part}
    (padded : ∀ member ∈ first :: more, member.1.Padded ∧ member.2.Padded)
    (names : ∀ member ∈ first :: more, AnyText member.1.inner)
    (skips : ∀ member ∈ first :: more, Skips member.2.inner) {fuel : Nat}
    (enough : 2 * (separated ((first :: more).map memberText)).length < fuel) (rest : List Char) :
    (skipMembersWith fuel).run (memberText first ++ following '\x7d' (more.map memberText) rest) =
      .ok ((), rest) := by
  induction more generalizing first fuel with
  | nil =>
    obtain _ | fuel := fuel
    · cases enough
    rw [run_skipMember (padded _ List.mem_cons_self) (names _ List.mem_cons_self)
      (skips _ List.mem_cons_self) (by simp [separated_cons] at enough; omega), List.map_nil,
      following_nil, run_bind_of (run_start (padded _ List.mem_cons_self).2.2 (by decide) _)]
    rfl
  | cons second more ih =>
    obtain _ | fuel := fuel
    · cases enough
    have shorter : 2 * (memberText first).length ≤ fuel ∧
        2 * (separated ((second :: more).map memberText)).length < fuel := by
      simp [separated_cons] at enough ⊢
      omega
    rw [run_skipMember (padded _ List.mem_cons_self) (names _ List.mem_cons_self)
      (skips _ List.mem_cons_self) shorter.1, List.map_cons, following_cons,
      run_bind_of (run_start (padded _ List.mem_cons_self).2.2 (by decide) _)]
    refine (run_bind_of (run_skipChar _ _) _).trans (ih ?_ ?_ ?_ shorter.2)
    · exact fun member mem => padded _ (List.mem_cons_of_mem _ mem)
    · exact fun member mem => names _ (List.mem_cons_of_mem _ mem)
    · exact fun member mem => skips _ (List.mem_cons_of_mem _ mem)

/-- It is enough to pass over the value where it begins. -/
theorem Skips.of_cons {c : Char} {tail : List Char} (visible : isGap c = false) (other : c ≠ ']')
    (h : ∀ {fuel : Nat} {rest : List Char}, 2 * tail.length < fuel → Ends rest →
      (skipValueWith (fuel + 1)).run (c :: (tail ++ rest)) = .ok ((), rest)) : Skips (c :: tail) := by
  refine ⟨⟨c, tail, rfl, visible, other⟩, fun {fuel gap rest} enough blank ends => ?_⟩
  obtain _ | fuel := fuel
  · cases enough
  · have deep : 2 * tail.length < fuel := by
      rw [List.length_cons] at enough
      omega
    refine Eq.trans ?_ (h deep ends)
    rw [skipValueWith, List.cons_append, run_bind_of (run_start blank visible _),
      run_bind_of (run_start_cons visible _)]

theorem skips_number {text : List Char} (h : Number text) : Skips text := by
  obtain ⟨c, tail, rfl, numeric⟩ : ∃ c tail, text = c :: tail ∧ (c = '-' ∨ c.isDigit = true) := by
    obtain ⟨sign, whole, fraction, power, rfl | rfl, isWhole, -, -, rfl⟩ := h
    · obtain ⟨c, isDigit, head⟩ := isWhole.1.head? (fraction ++ power)
      obtain ⟨tail, eq⟩ := List.head?_eq_some_iff.mp head
      exact ⟨c, tail, eq, .inr isDigit⟩
    · exact ⟨'-', _, rfl, .inl rfl⟩
  have other : ∀ d : Char, d ≠ '-' → d.isDigit = false → c ≠ d := by
    rintro d notMinus notDigit rfl
    rcases numeric with rfl | isDigit
    · exact notMinus rfl
    · rw [isDigit] at notDigit
      cases notDigit
  have visible : isGap c = false ∧ c ≠ ']' := by
    rcases numeric with rfl | isDigit
    · decide
    · exact visible_of_isDigit isDigit
  refine .of_cons visible.1 visible.2 fun {fuel rest} _ ends => ?_
  rw [skipValueWith, run_bind_of (run_start_cons visible.1 _)]
  split
  all_goals first | exact absurd rfl (other _ (by decide) (by decide)) | skip
  rw [if_pos (by simpa using numeric)]
  exact run_skipNumeral h ends

theorem skips_of_wellFormed {text : List Char} (h : WellFormed text) : Skips text := by
  induction h with
  | null =>
    refine .of_cons (by decide) (by decide) fun {fuel rest} _ _ => ?_
    rw [skipValueWith, run_bind_of (run_start_cons (by decide) _)]
    exact takes_keyword ['n', 'u', 'l', 'l'] rest
  | bool b =>
    cases b with
    | false =>
      refine .of_cons (by decide) (by decide) fun {fuel rest} _ _ => ?_
      rw [skipValueWith, run_bind_of (run_start_cons (by decide) _)]
      exact takes_keyword ['f', 'a', 'l', 's', 'e'] rest
    | true =>
      refine .of_cons (by decide) (by decide) fun {fuel rest} _ _ => ?_
      rw [skipValueWith, run_bind_of (run_start_cons (by decide) _)]
      exact takes_keyword ['t', 'r', 'u', 'e'] rest
  | number number => exact skips_number number
  | text string =>
    have takes := takes_skipString string
    obtain ⟨cs, inside, -, rfl⟩ := string
    refine .of_cons (by decide) (by decide) fun {fuel rest} _ _ => ?_
    rw [skipValueWith, run_bind_of (run_start_cons (by decide) _)]
    exact takes rest
  | @emptyList gap blank =>
    refine .of_cons (by decide) (by decide) fun {fuel rest} _ _ => ?_
    change StateT.run _ (enclosed '[' ']' [gap] ++ rest) = _
    rw [enclosed_cons, following_nil, skipValueWith, run_bind_of (run_start_cons (by decide) _)]
    change StateT.run (do skipChar; _ : Reader Unit) _ = _
    rw [run_bind_of (run_skipChar _ _), run_bind_of (run_start blank (by decide) _)]
    rfl
  | @list items nonempty padded values ih =>
    obtain _ | ⟨first, more⟩ := items
    · exact absurd rfl nonempty
    refine .of_cons (by decide) (by decide) fun {fuel rest} deep _ => ?_
    change StateT.run _ (enclosed '[' ']' ((first :: more).map Part.text) ++ rest) = _
    obtain ⟨c, other, started⟩ := (ih _ List.mem_cons_self).begins.run_start
      (padded _ List.mem_cons_self).1 (first.after ++ following ']' (more.map Part.text) rest)
    rw [List.map_cons, enclosed_cons, skipValueWith, run_bind_of (run_start_cons (by decide) _)]
    change StateT.run (do skipChar; _ : Reader Unit) _ = _
    rw [run_bind_of (run_skipChar _ _), Part.text_append, run_bind_of started, if_neg other,
      Part.trimmed_append]
    refine run_skipItemsWith more (List.forall_mem_cons.mpr ⟨⟨(padded _ List.mem_cons_self).trimmed,
      ih first List.mem_cons_self⟩, fun item mem => ?_⟩) ?_ rest
    · exact ⟨padded _ (List.mem_cons_of_mem _ mem), ih _ (List.mem_cons_of_mem _ mem)⟩
    · have trimmed := first.length_trimmed_le
      simp [separated_cons] at deep ⊢
      omega
  | @emptyObject gap blank =>
    refine .of_cons (by decide) (by decide) fun {fuel rest} _ _ => ?_
    change StateT.run _ (enclosed '\x7b' '\x7d' [gap] ++ rest) = _
    rw [enclosed_cons, following_nil, skipValueWith, run_bind_of (run_start_cons (by decide) _)]
    change StateT.run (do skipChar; _ : Reader Unit) _ = _
    rw [run_bind_of (run_skipChar _ _), run_bind_of (run_start blank (by decide) _)]
    rfl
  | @object members nonempty padded names values ih =>
    obtain _ | ⟨first, more⟩ := members
    · exact absurd rfl nonempty
    refine .of_cons (by decide) (by decide) fun {fuel rest} deep _ => ?_
    change StateT.run _ (enclosed '\x7b' '\x7d' ((first :: more).map memberText) ++ rest) = _
    rw [List.map_cons, enclosed_cons, skipValueWith, run_bind_of (run_start_cons (by decide) _)]
    change StateT.run (do skipChar; _ : Reader Unit) _ = _
    rw [run_bind_of (run_skipChar _ _), run_bind_of (start_memberText _
      (padded _ List.mem_cons_self).1 (names _ List.mem_cons_self).head? _),
      if_neg (by decide)]
    refine run_skipMembersWith more (List.forall_mem_cons.mpr ⟨?_, ?_⟩)
      (List.forall_mem_cons.mpr ⟨?_, ?_⟩) (List.forall_mem_cons.mpr ⟨?_, ?_⟩) ?_ rest
    · exact (padded first List.mem_cons_self).imp_left Part.Padded.trimmed
    · exact fun member mem => padded _ (List.mem_cons_of_mem _ mem)
    · exact names first List.mem_cons_self
    · exact fun member mem => names _ (List.mem_cons_of_mem _ mem)
    · exact ih first List.mem_cons_self
    · exact fun member mem => ih _ (List.mem_cons_of_mem _ mem)
    · have trimmed := first.1.length_trimmed_le
      simp [separated_cons, memberText] at deep ⊢
      omega

end Lineage.Json.Reader
