import Mathlib.Data.List.Nodup
import Lineage.Proofs.Json.Skipping

/-!
# Lists and records are read

A typed value is read from any of its spellings. The members of an object lead a record from one state to
the next; as each known member is read once and the others are passed over, their order does not count.
-/

namespace Lineage.Json.Reader

variable {α β S : Type}

/-- The reader takes the value from the front of a text, with any white space before it. -/
structure Reads (r : Reader α) (text : List Char) (a : α) : Prop where
  begins : Begins text
  run : ∀ {gap rest : List Char}, Gap gap → Ends rest → r.run (gap ++ (text ++ rest)) = .ok (a, rest)

/-- It is enough to read the value where it begins. -/
theorem Reads.of_cons {f : Char → Reader α} {c : Char} {tail : List Char} {a : α}
    (visible : isGap c = false) (other : c ≠ ']')
    (h : ∀ {rest : List Char}, Ends rest → (f c).run (c :: (tail ++ rest)) = .ok (a, rest)) :
    Reads (start >>= f) (c :: tail) a := by
  refine ⟨⟨c, tail, rfl, visible, other⟩, fun {gap rest} blank ends => ?_⟩
  rw [List.cons_append, run_bind_of (run_start blank visible _)]
  exact h ends

theorem reads_natural {n : Nat} {text : List Char} (h : SpellsNatural n text) :
    Reads natural text n := by
  obtain ⟨small, rfl⟩ := h
  obtain ⟨c, isDigit, head⟩ := (whole_toDigits n).1.head? []
  obtain ⟨tail, eq⟩ := List.head?_eq_some_iff.mp head
  rw [List.append_nil] at eq
  rw [eq]
  obtain ⟨visible, other⟩ := visible_of_isDigit isDigit
  refine .of_cons visible other fun {rest} ends => ?_
  rw [← List.cons_append, ← eq, isDigit, Bool.or_true, if_pos rfl, run_bind_of (run_numeral small ends)]
  rfl

theorem reads_bool {b : Bool} {text : List Char} (h : SpellsBool b text) : Reads bool text b := by
  obtain rfl := h
  cases b with
  | false =>
    refine .of_cons (by decide) (by decide) fun {rest} _ => ?_
    exact run_bind_of (takes_keyword ['f', 'a', 'l', 's', 'e'] rest) _
  | true =>
    refine .of_cons (by decide) (by decide) fun {rest} _ => ?_
    exact run_bind_of (takes_keyword ['t', 'r', 'u', 'e'] rest) _

theorem reads_text {s : String} {quoted : List Char} (h : SpellsText s quoted) :
    Reads text quoted s := by
  have takes := takes_string h
  obtain ⟨inside, -, rfl⟩ := h
  refine .of_cons (by decide) (by decide) fun {rest} _ => ?_
  exact takes rest

theorem reads_skipValue {text : List Char} (h : WellFormed text) : Reads skipValue text () := by
  have skips := skips_of_wellFormed h
  refine ⟨skips.begins, fun {gap rest} blank ends => ?_⟩
  unfold skipValue
  rw [run_bind_of (m := get) rfl]
  refine skips.run ?_ blank ends
  simp
  omega

/-! ### Lists -/

theorem run_map_of {m : Reader α} {text rest : List Char} {a : α} (h : m.run text = .ok (a, rest))
    (f : α → β) : (f <$> m).run text = .ok (f a, rest) := by
  rw [StateT.run_map, h]
  rfl

theorem run_nextItem_end {gap : List Char} (blank : Gap gap) (first : Bool) (item : Reader α)
    (rest : List Char) : (nextItem first item).run (gap ++ ']' :: rest) = .ok (none, ']' :: rest) := by
  unfold nextItem
  rw [run_bind_of (run_start blank (by decide) _), if_pos rfl]
  rfl

theorem run_nextItem_first {item : Reader α} {part : Part} {a : α} (padded : part.Padded)
    (reads : Reads item part.inner a) {rest : List Char} (ends : Ends rest) :
    (nextItem true item).run (part.text ++ rest) = .ok (some a, part.after ++ rest) := by
  obtain ⟨c, other, started⟩ := reads.begins.run_start padded.1 (part.after ++ rest)
  unfold nextItem
  rw [Part.text_append, run_bind_of started, if_neg other, if_pos rfl]
  exact run_map_of (reads.run gap_nil (ends.gap padded.2)) some

theorem run_nextItem_next {item : Reader α} {part : Part} {a : α} (padded : part.Padded)
    (reads : Reads item part.inner a) {gap rest : List Char} (blank : Gap gap) (ends : Ends rest) :
    (nextItem false item).run (gap ++ ',' :: (part.text ++ rest)) =
      .ok (some a, part.after ++ rest) := by
  obtain ⟨c, other, started⟩ := reads.begins.run_start padded.1 (part.after ++ rest)
  unfold nextItem
  rw [run_bind_of (run_start blank (by decide) _), if_neg (by decide), if_neg (by decide),
    if_neg (by decide), run_bind_of (run_skipChar _ _), Part.text_append, run_bind_of started,
    if_neg other]
  exact run_map_of (reads.run gap_nil (ends.gap padded.2)) some

/-- The items of a list after the first one. -/
theorem run_itemsWith {item : Reader α} {as : List α} {items : List Part}
    (padded : ∀ part ∈ items, part.Padded)
    (reads : List.Forall₂ (fun a part => Reads item part.inner a) as items) {fuel : Nat}
    (enough : items.length < fuel) {gap : List Char} (blank : Gap gap) (rest : List Char) :
    (itemsWith item fuel false).run (gap ++ following ']' (items.map Part.text) rest) =
      .ok (as, ']' :: rest) := by
  induction reads generalizing fuel gap with
  | nil =>
    obtain ⟨fuel, rfl⟩ := Nat.exists_eq_add_of_lt enough
    rw [List.map_nil, following_nil, itemsWith, run_bind_of (run_nextItem_end blank _ _ _)]
    rfl
  | @cons a part as items readsFirst _ ih =>
    obtain ⟨fuel, rfl⟩ := Nat.exists_eq_add_of_lt enough
    obtain ⟨paddedFirst, paddedMore⟩ := List.forall_mem_cons.mp padded
    rw [List.map_cons, following_cons, itemsWith, run_bind_of (run_nextItem_next paddedFirst readsFirst
      blank (ends_following (by decide) _ rest))]
    exact run_bind_of (ih paddedMore (by simp; omega) paddedFirst.2) _

theorem run_endList (rest : List Char) : endList.run (']' :: rest) = .ok ((), rest) := by
  unfold endList
  rw [run_bind_of (run_start_cons (by decide) _), if_pos rfl]
  rfl

theorem reads_list {item : Reader α} {spells : α → List Char → Prop}
    (reads : ∀ {a text}, spells a text → Reads item text a) {as : List α} {text : List Char}
    (h : SpellsList spells as text) : Reads (list item) text as := by
  cases h with
  | @nil gap blank =>
    refine .of_cons (by decide) (by decide) fun {rest} _ => ?_
    change StateT.run (do skipChar; _ : Reader (List α)) (enclosed '[' ']' [gap] ++ rest) = _
    have items : ∀ n, (itemsWith item (n + 1) true).run (gap ++ ']' :: rest) =
        .ok ([], ']' :: rest) := by
      intro n
      rw [itemsWith, run_bind_of (run_nextItem_end blank _ _ _)]
      rfl
    rw [enclosed_cons, following_nil, run_bind_of (run_skipChar _ _), run_bind_of (m := get) rfl,
      run_bind_of (items _), run_bind_of (run_endList rest)]
    rfl
  | @cons as items nonempty padded spelled =>
    cases spelled with
    | nil => exact absurd rfl nonempty
    | @cons a part as items isSpelled spelled =>
      refine .of_cons (by decide) (by decide) fun {rest} _ => ?_
      change StateT.run (do skipChar; _ : Reader (List α))
        (enclosed '[' ']' ((part :: items).map Part.text) ++ rest) = _
      obtain ⟨paddedFirst, paddedMore⟩ := List.forall_mem_cons.mp padded
      have all : ∀ n, items.length < n → (itemsWith item (n + 1) true).run
          (part.text ++ following ']' (items.map Part.text) rest) = .ok (a :: as, ']' :: rest) := by
        intro n enough
        rw [itemsWith, run_bind_of (run_nextItem_first paddedFirst (reads isSpelled)
          (ends_following (by decide) _ rest))]
        exact run_bind_of (run_itemsWith paddedMore (spelled.imp fun _ _ => reads) enough
          paddedFirst.2 rest) _
      have enough := length_following ']' (items.map Part.text) rest
      rw [List.map_cons, enclosed_cons, run_bind_of (run_skipChar _ _), run_bind_of (m := get) rfl,
        run_bind_of (all _ (by simp at enough ⊢; omega)), run_bind_of (run_endList rest)]
      rfl

/-! ### Records -/

/-- The members are read one after another. -/
inductive Fills (member : String → Member S) : List (String × List Char) → S → S → Prop
  | nil (state : S) : Fills member [] state state
  | cons {name : String} {text : List Char} {entries : List (String × List Char)}
      {state next last : S} {value : Reader S} (accepted : member name state = .ok value)
      (reads : Reads value text next) (more : Fills member entries next last) :
      Fills member ((name, text) :: entries) state last

theorem run_membersWith_end {gap : List Char} (blank : Gap gap) (member : String → Member S)
    (fuel : Nat) (first : Bool) (state : S) (rest : List Char) :
    (membersWith member (fuel + 1) first state).run (gap ++ '\x7d' :: rest) =
      .ok (state, '\x7d' :: rest) := by
  rw [membersWith, run_bind_of (run_start blank (by decide) _), if_pos rfl]
  rfl

/-- The first member of a record, or one after its comma. -/
theorem run_membersWith_first {member : String → Member S} {name : String} {text : Part × Part}
    {state next : S} {value : Reader S} (accepted : member name state = .ok value)
    (padded : text.1.Padded ∧ text.2.Padded) (spelled : SpellsText name text.1.inner)
    (reads : Reads value text.2.inner next) (fuel : Nat) {rest : List Char} (ends : Ends rest) :
    (membersWith member (fuel + 1) true state).run (memberText text ++ rest) =
      (membersWith member fuel false next).run (text.2.after ++ rest) := by
  have opened := start_memberText (text.1.trimmed, text.2) padded.1.trimmed spelled.head? rest
  rw [membersWith, run_bind_of (start_memberText _ padded.1 spelled.head? _), if_neg (by decide)]
  dsimp only
  rw [if_neg (by decide), run_bind_of opened, if_neg (by decide), memberText_append]
  change StateT.run _ (text.1.inner ++ (text.1.after ++ ':' :: (text.2.text ++ _))) = _
  rw [run_bind_of (takes_string spelled _), accepted, run_bind_of (run_start padded.1.2 (by decide) _),
    if_neg (by decide), run_bind_of (run_skipChar _ _), Part.text_append]
  exact run_bind_of (reads.run padded.2.1 (ends.gap padded.2.2)) _

theorem run_membersWith_next {member : String → Member S} {name : String} {text : Part × Part}
    (padded : text.1.Padded) (spelled : SpellsText name text.1.inner) (fuel : Nat) (state : S)
    {gap : List Char} (blank : Gap gap) (rest : List Char) :
    (membersWith member (fuel + 1) false state).run (gap ++ ',' :: (memberText text ++ rest)) =
      (membersWith member (fuel + 1) true state).run (memberText text ++ rest) := by
  have opened := start_memberText (text.1.trimmed, text.2) padded.trimmed spelled.head? rest
  rw [membersWith, run_bind_of (run_start blank (by decide) _), if_neg (by decide)]
  dsimp only
  rw [if_pos (show (!false) = true from rfl), if_neg (by decide), run_bind_of (run_skipChar _ _),
    run_bind_of (start_memberText _ padded spelled.head? _), membersWith,
    run_bind_of (start_memberText _ padded spelled.head? _), if_neg (show ¬ '"' = '\x7d' by decide)]
  dsimp only
  rw [if_neg (show ¬ (!true) = true by decide), run_bind_of opened]
  rfl

/-- The members of a record after the first one. -/
theorem run_membersWith {member : String → Member S} {entries : List (String × List Char)}
    {members : List (Part × Part)} {state last : S}
    (padded : ∀ text ∈ members, text.1.Padded ∧ text.2.Padded)
    (spelled : List.Forall₂ (fun entry text => SpellsText entry.1 text.1.inner ∧
      text.2.inner = entry.2) entries members) (fills : Fills member entries state last) {fuel : Nat}
    (enough : members.length < fuel) {gap : List Char} (blank : Gap gap) (rest : List Char) :
    (membersWith member fuel false state).run
        (gap ++ following '\x7d' (members.map memberText) rest) = .ok (last, '\x7d' :: rest) := by
  induction fills generalizing members fuel gap with
  | nil state =>
    obtain ⟨fuel, rfl⟩ := Nat.exists_eq_add_of_lt enough
    cases spelled
    exact run_membersWith_end blank _ _ _ _ _
  | cons accepted reads more ih =>
    obtain ⟨fuel, rfl⟩ := Nat.exists_eq_add_of_lt enough
    cases spelled with
    | @cons _ text _ members isSpelled spelled =>
      obtain ⟨paddedFirst, paddedMore⟩ := List.forall_mem_cons.mp padded
      obtain ⟨name, rfl⟩ := isSpelled
      rw [List.map_cons, following_cons, run_membersWith_next paddedFirst.1 name _ _ blank,
        run_membersWith_first accepted paddedFirst name reads _ (ends_following (by decide) _ rest)]
      exact ih paddedMore spelled (by simp; omega) paddedFirst.2.2

/-- A record is read from an object whose members lead to a state with nothing missing. -/
theorem reads_record {empty last : S} {member : String → Member S} {inOrder : S → Reader S}
    {finish : S → Except Defect α} {entries : List (String × List Char)} {text : List Char} {a : α}
    (h : ObjectText entries text) (fills : Fills member entries empty last)
    (finished : finish last = .ok a) : Reads (record empty member inOrder finish) text a := by
  cases h with
  | @nil gap blank =>
    cases fills
    refine .of_cons (by decide) (by decide) fun {rest} _ => ?_
    change StateT.run (do skipChar; _ : Reader α) (enclosed '\x7b' '\x7d' [gap] ++ rest) = _
    rw [enclosed_cons, following_nil, run_bind_of (run_skipChar _ _), run_bind_of (m := get) rfl,
      run_bind_of (run_membersWith_end blank _ _ _ _ _)]
    dsimp only
    rw [finished]
    rfl
  | @cons entries members nonempty padded spelled =>
    cases spelled with
    | nil => exact absurd rfl nonempty
    | @cons entry text entries members isSpelled spelled =>
      cases fills with
      | @cons name _ _ _ next _ value accepted reads more =>
        obtain ⟨isName, rfl⟩ := isSpelled
        obtain ⟨paddedFirst, paddedMore⟩ := List.forall_mem_cons.mp padded
        refine .of_cons (by decide) (by decide) fun {rest} _ => ?_
        change StateT.run (do skipChar; _ : Reader α)
          (enclosed '\x7b' '\x7d' ((text :: members).map memberText) ++ rest) = _
        have all : ∀ n, members.length < n → (membersWith member (n + 1) true empty).run
            (memberText text ++ following '\x7d' (members.map memberText) rest) =
              .ok (last, '\x7d' :: rest) := by
          intro n enough
          rw [run_membersWith_first accepted paddedFirst isName reads _
            (ends_following (by decide) _ rest)]
          exact run_membersWith paddedMore spelled more enough paddedFirst.2.2 rest
        have enough := length_following '\x7d' (members.map memberText) rest
        rw [List.map_cons, enclosed_cons, run_bind_of (run_skipChar _ _),
          run_bind_of (m := get) rfl, run_bind_of (all _ (by simp at enough ⊢; omega))]
        dsimp only
        rw [finished]
        rfl

/-! ### Known members -/

/-- A member that a record knows: its name, where its value goes, how it is read and how it is
    spelled. -/
structure Known (S : Type) where
  {α : Type}
  name : String
  get : S → Option α
  put : α → S → S
  item : Reader α
  spells : α → List Char → Prop

/-- The record reads each of these members once, passes over all others, and is nothing but the values
    of these members. -/
structure Layout (member : String → Member S) (known : List (Known S)) : Prop where
  once : ∀ k ∈ known, member k.name = once k.get k.item k.put
  unknown : ∀ name, name ∉ known.map (·.name) → member name = unknownMember
  reads : ∀ k ∈ known, ∀ {a text}, k.spells a text → Reads k.item text a
  distinct : (known.map (·.name)).Nodup
  get_put : ∀ k ∈ known, ∀ a state, k.get (k.put a state) = some a
  frame : ∀ k ∈ known, ∀ l ∈ known, k.name ≠ l.name → ∀ a state, l.get (k.put a state) = l.get state
  ext : ∀ state other, (∀ k ∈ known, k.get state = k.get other) → state = other

/-- Whatever the order of the members, they lead to the state that they give: of what the record knows
    some has been read, and the members that are left give the rest. -/
theorem Layout.fills {member : String → Member S} {known : List (Known S)}
    (layout : Layout member known) {entries : List (String × List Char)} {state target : S}
    (others : ∀ entry ∈ entries, entry.1 ∉ known.map (·.name) → WellFormed entry.2)
    (given : ∀ k ∈ known,
      k.get state = none ∧ Gives entries k.name k.spells (k.get target) ∨
      k.get state = k.get target ∧ k.name ∉ entries.map Prod.fst) :
    Fills member entries state target := by
  induction entries generalizing state with
  | nil =>
    have eq : state = target := by
      refine layout.ext _ _ fun k mem => ?_
      rcases given k mem with ⟨none, gives⟩ | ⟨eq, -⟩
      · rw [none, Gives.of_nil gives]
      · exact eq
    exact eq ▸ .nil state
  | cons entry entries ih =>
    obtain ⟨name, text⟩ := entry
    obtain ⟨otherFirst, otherMore⟩ := List.forall_mem_cons.mp others
    by_cases isKnown : name ∈ known.map (·.name)
    · obtain ⟨k, mem, rfl⟩ := List.mem_map.mp isKnown
      rcases given k mem with ⟨none, gives⟩ | ⟨-, absent⟩
      · obtain ⟨⟨a, found, spelled⟩, once⟩ := Gives.of_cons gives
        have reads := layout.reads k mem spelled
        have put : Reads (do return k.put (← k.item) state) text (k.put a state) :=
          ⟨reads.begins, fun blank ends => run_bind_of (reads.run blank ends) _⟩
        refine .cons ?_ put (ih otherMore fun l other => ?_)
        · rw [layout.once k mem, Reader.once, none]
        · by_cases same : k.name = l.name
          · obtain rfl := List.inj_on_of_nodup_map layout.distinct mem other same
            exact .inr ⟨(layout.get_put k mem a state).trans found.symm, once⟩
          · rw [layout.frame k mem l other same]
            refine (given l other).imp (And.imp_right ?_) (And.imp_right ?_)
            · exact (Gives.cons_of_ne same _).mp
            · exact List.not_mem_of_not_mem_cons
      · exact absurd List.mem_cons_self absent
    · have skips := reads_skipValue (otherFirst isKnown)
      have passed : Reads (do skipValue; return state) text state :=
        ⟨skips.begins, fun blank ends => run_bind_of (skips.run blank ends) _⟩
      refine .cons ?_ passed (ih otherMore fun k mem => ?_)
      · rw [layout.unknown name isKnown]
        rfl
      · have other : name ≠ k.name := fun eq => isKnown (eq ▸ List.mem_map_of_mem mem)
        refine (given k mem).imp (And.imp_right ?_) (And.imp_right ?_)
        · exact (Gives.cons_of_ne other _).mp
        · exact List.not_mem_of_not_mem_cons

/-- A record is read from an object that gives its members. -/
theorem Layout.reads_object {member : String → Member S} {known : List (Known S)}
    (layout : Layout member known) (given : S) {entries : List (String × List Char)}
    {text : List Char} (object : ObjectText entries text) {empty : S} (nothing : ∀ k ∈ known, k.get empty = none)
    (gives : ∀ k ∈ known, Gives entries k.name k.spells (k.get given))
    (others : ∀ entry ∈ entries, entry.1 ∉ known.map (·.name) → WellFormed entry.2)
    {inOrder : S → Reader S} {finish : S → Except Defect α} {a : α}
    (finished : finish given = .ok a) : Reads (record empty member inOrder finish) text a :=
  reads_record object (layout.fills others fun k mem => .inl ⟨nothing k mem, gives k mem⟩) finished

/-! ### Choices -/

/-- An alternative is chosen by its name alone. -/
theorem reads_choice_plain {alternative : String → Option (Alternative α)} {name : String} {a : α}
    (chosen : alternative name = some (.plain a)) {text : List Char} (spelled : SpellsText name text) :
    Reads (choice alternative) text a := by
  have takes := takes_string spelled
  obtain ⟨inside, -, rfl⟩ := spelled
  refine .of_cons (by decide) (by decide) fun {rest} _ => ?_
  refine (run_bind_of (takes rest) _).trans ?_
  rw [chosen]
  rfl

/-- An alternative with content is the only member of an object. -/
theorem reads_choice_holding {alternative : String → Option (Alternative α)} {name : String}
    {content : Reader α} (chosen : alternative name = some (.holding content)) {text : Part × Part}
    (padded : text.1.Padded ∧ text.2.Padded) (spelled : SpellsText name text.1.inner) {a : α}
    (reads : Reads content text.2.inner a) :
    Reads (choice alternative) (enclosed '\x7b' '\x7d' [memberText text]) a := by
  refine .of_cons (by decide) (by decide) fun {rest} _ => ?_
  change StateT.run (do skipChar; _ : Reader α) (enclosed '\x7b' '\x7d' [memberText text] ++ rest) = _
  rw [enclosed_cons, run_bind_of (run_skipChar _ _),
    run_bind_of (start_memberText _ padded.1 spelled.head? _), if_neg (by decide), memberText_append]
  change StateT.run _ (text.1.inner ++ (text.1.after ++ ':' :: (text.2.text ++ _))) = _
  rw [run_bind_of (takes_string spelled _), chosen]
  dsimp only
  rw [run_bind_of (run_start padded.1.2 (by decide) _), if_neg (by decide),
    run_bind_of (run_skipChar _ _), Part.text_append, run_bind_of (reads.run padded.2.1
      ((ends_following (by decide) [] rest).gap padded.2.2)), following_nil,
    run_bind_of (run_start padded.2.2 (by decide) _), if_pos rfl, run_bind_of (run_skipChar _ _)]
  rfl

/-! ### Documents -/

theorem document_eq_ok {r : Reader α} {spells : List Char → Prop} {a : α} {source : String}
    (h : DocumentOf spells source.toList) (reads : ∀ {text}, spells text → Reads r text a) :
    document r source = .ok a := by
  obtain ⟨part, padded, spelled, eq⟩ := h
  have value := (reads spelled).run padded.1 (ends_nil.gap padded.2)
  rw [List.append_nil] at value
  have whole : (do let a ← r; skipGap; pure a : Reader α).run source.toList = .ok (a, []) := by
    rw [eq, Part.text, run_bind_of value, run_bind_of (run_skipGap padded.2)]
    rfl
  unfold document
  rw [whole]

end Lineage.Json.Reader
