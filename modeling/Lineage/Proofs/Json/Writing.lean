import Lineage.Proofs.Json.Grammar

/-!
# What is written obeys the grammar

The text of a document spells the document: in strings what has to be escaped is escaped, and lists and
objects have no white space.
-/

namespace Lineage.Json

variable {α : Type}

/-! ### Strings -/

theorem hexDigit_digitChar {n : Nat} (h : n < 16) : HexDigit n (Nat.digitChar n) := by
  have all : ∀ n < 16, "0123456789abcdef".toList[n]? = some (Nat.digitChar n) := by decide
  exact .inl (all n h)

theorem code_control {c : Char} (h : c.toNat < 0x20) : Code c ('0' :: '0' :: hexPair c.toNat) := by
  have number : ((0 * 16 + 0) * 16 + c.toNat / 16) * 16 + c.toNat % 16 = c.toNat := by omega
  refine .one ?_
  have digits := HexFour.digits (hexDigit_digitChar (n := 0) (by decide))
    (hexDigit_digitChar (n := 0) (by decide)) (hexDigit_digitChar (n := c.toNat / 16) (by omega))
    (hexDigit_digitChar (n := c.toNat % 16) (by omega))
  rw [number] at digits
  exact digits

theorem inside_escapeChar (c : Char) {cs text : List Char} (rest : Inside Code cs text) :
    Inside Code (c :: cs) (escapeChar c ++ text) := by
  unfold escapeChar
  split
  next eq => exact .short (by simp [eq, shortEscapes]) rest
  split
  next eq => exact .short (by simp [eq, shortEscapes]) rest
  split
  next eq => exact .short (by simp [eq, shortEscapes]) rest
  split
  next eq => exact .short (by simp [eq, shortEscapes]) rest
  split
  next eq => exact .short (by simp [eq, shortEscapes]) rest
  split
  next eq => exact .short (by simp [eq, shortEscapes]) rest
  split
  next eq => exact .short (by simp [eq, shortEscapes]) rest
  split
  next control => exact .unicode (code_control control) rest
  next quote backslash _ _ _ _ _ visible =>
    exact .plain (Nat.le_of_not_lt visible) quote backslash rest

theorem spellsText_writeText (s : String) : SpellsText s (writeText s) := by
  refine ⟨s.toList.flatMap escapeChar, ?_, rfl⟩
  induction s.toList with
  | nil => exact .nil
  | cons c cs ih => exact inside_escapeChar c ih

/-! ### Lists and objects -/

/-- A text without white space around it. -/
def Part.bare (text : List Char) : Part := ⟨[], text, []⟩

theorem Part.padded_bare (text : List Char) : (bare text).Padded := ⟨gap_nil, gap_nil⟩

theorem Part.text_bare (text : List Char) : (bare text).text = text := List.append_nil text

theorem writeItems_eq (items : List Value) : writeItems items = items.map Value.write := by
  induction items with
  | nil => rfl
  | cons item rest ih => rw [writeItems, ih, List.map_cons]

/-- A list is spelled by its items, one by one. -/
theorem spellsList_write {spells : α → List Char → Prop} {toValue : α → Value}
    (h : ∀ a, spells a (toValue a).write) (as : List α) :
    SpellsList spells as (Value.list (as.map toValue)).write := by
  rw [Value.write, writeItems_eq]
  cases as with
  | nil => exact .nil gap_nil
  | cons a as =>
    have parts : ((a :: as).map toValue).map Value.write =
        ((a :: as).map fun a => Part.bare (toValue a).write).map Part.text := by
      simp [Part.text_bare]
    rw [parts]
    refine .cons (List.cons_ne_nil _ _) ?_ ?_
    · exact List.forall_mem_map.mpr fun a _ => Part.padded_bare _
    · exact List.forall₂_map_right_iff.mpr (List.forall₂_same.mpr fun a _ => h a)

theorem writeMembers_eq (members : List (String × Value)) : writeMembers members =
    members.map fun member => writeText member.1 ++ ':' :: member.2.write := by
  induction members with
  | nil => rfl
  | cons member rest ih => rw [writeMembers, ih, List.map_cons]

/-- An object lists its members in their order. -/
theorem objectText_write (members : List (String × Value)) :
    ObjectText (members.map fun member => (member.1, member.2.write))
      (Value.object members).write := by
  rw [Value.write, writeMembers_eq]
  cases members with
  | nil => exact .nil gap_nil
  | cons member members =>
    have parts : ((member :: members).map fun member => writeText member.1 ++ ':' :: member.2.write) =
        ((member :: members).map fun member =>
          (Part.bare (writeText member.1), Part.bare member.2.write)).map memberText := by
      simp [memberText, Part.text_bare]
    rw [parts]
    refine .cons (List.cons_ne_nil _ _) ?_ ?_
    · exact List.forall_mem_map.mpr fun member _ => ⟨Part.padded_bare _, Part.padded_bare _⟩
    · refine List.forall₂_map_right_iff.mpr (List.forall₂_map_left_iff.mpr ?_)
      exact List.forall₂_same.mpr fun member _ => ⟨spellsText_writeText _, rfl⟩

/-- A value is a document by itself. -/
theorem documentOf_write {spells : List Char → Prop} {text : List Char} (h : spells text) :
    DocumentOf spells (String.ofList text).toList :=
  ⟨.bare text, Part.padded_bare text, h, String.toList_ofList.trans (Part.text_bare text).symm⟩

end Lineage.Json
