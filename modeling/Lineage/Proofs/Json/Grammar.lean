import Mathlib.Data.List.Forall2
import Mathlib.Tactic.NormNum.Pow
import Lineage.Json.Value

/-!
# The grammar of JSON

Which texts are values, and which values they spell. A string, a number and a truth value are told
from their text; an object is told as the list of its members in the order of the text, each with its
name and the text of its value. White space may stand around each token.
-/

namespace Lineage.Json

variable {α : Type}

/-- White space, or nothing. -/
def Gap (text : List Char) : Prop := ∀ c ∈ text, c ∈ [' ', '\n', '\r', '\t']

theorem gap_nil : Gap [] := nofun

/-! ### Numbers -/

def Digits (text : List Char) : Prop := text ≠ [] ∧ ∀ c ∈ text, c.isDigit

/-- Digits of which the first one is not zero, or a zero. -/
def Whole (text : List Char) : Prop := Digits text ∧ (text.head? = some '0' → text = ['0'])

theorem Digits.head? {ds : List Char} (h : Digits ds) (rest : List Char) :
    ∃ c, c.isDigit = true ∧ (ds ++ rest).head? = some c := by
  obtain ⟨nonempty, isDigit⟩ := h
  cases ds with
  | nil => exact absurd rfl nonempty
  | cons c ds => exact ⟨c, isDigit c List.mem_cons_self, rfl⟩

theorem Digits.isEmpty {ds : List Char} (h : Digits ds) : ¬ ds.isEmpty = true := by
  rw [List.isEmpty_iff]
  exact h.1

def Fraction (text : List Char) : Prop := text = [] ∨ ∃ ds, Digits ds ∧ text = '.' :: ds

def Power (text : List Char) : Prop :=
  text = [] ∨ ∃ letter sign ds, (letter = 'e' ∨ letter = 'E') ∧
    (sign = [] ∨ sign = ['+'] ∨ sign = ['-']) ∧ Digits ds ∧ text = letter :: (sign ++ ds)

def Number (text : List Char) : Prop :=
  ∃ sign whole fraction power, (sign = [] ∨ sign = ['-']) ∧ Whole whole ∧ Fraction fraction ∧
    Power power ∧ text = sign ++ (whole ++ (fraction ++ power))

theorem whole_toDigits (n : Nat) : Whole (Nat.toDigits 10 n) := by
  refine ⟨⟨Nat.toDigits_ne_nil, fun c mem => ?_⟩, ?_⟩
  · exact Nat.isDigit_of_mem_toDigits (by decide) (by decide) mem
  induction n using Nat.strongRecOn with
  | ind n ih =>
    rcases Nat.lt_or_ge n 10 with small | large
    · rw [Nat.toDigits_of_lt_base small]
      exact fun head => congrArg (fun c => [c]) (Option.some.inj head)
    · intro head
      rw [Nat.toDigits_of_base_le (by decide) large, List.head?_append_of_ne_nil _ Nat.toDigits_ne_nil]
        at head
      have zero := ih (n / 10) (by omega) head
      have value : n / 10 = 0 := by
        rw [← Nat.ofDigitChars_ten_toDigits (n := n / 10), zero]
        rfl
      omega

/-- A natural number that fits into 64 bits. -/
def SpellsNatural (n : Nat) (text : List Char) : Prop := n < 2 ^ 64 ∧ text = Nat.toDigits 10 n

def SpellsBool (b : Bool) (text : List Char) : Prop := text = (Value.bool b).write

/-! ### Strings -/

/-- A hexadecimal digit, in lower or upper case. -/
def HexDigit (n : Nat) (c : Char) : Prop :=
  "0123456789abcdef".toList[n]? = some c ∨ "0123456789ABCDEF".toList[n]? = some c

/-- Four hexadecimal digits. -/
inductive HexFour : Nat → List Char → Prop
  | digits {i j k l : Nat} {a b c d : Char} (first : HexDigit i a) (second : HexDigit j b)
      (third : HexDigit k c) (fourth : HexDigit l d) :
      HexFour (((i * 16 + j) * 16 + k) * 16 + l) [a, b, c, d]

/-- The letters that may follow a backslash alone, with what they stand for. -/
def shortEscapes : List (Char × Char) :=
  [('"', '"'), ('\\', '\\'), ('/', '/'), ('b', '\x08'), ('f', '\x0c'), ('n', '\n'), ('r', '\r'),
    ('t', '\t')]

/-- What may follow a backslash and the letter u for a character to be meant: its number, or, if that
    does not fit into 16 bits, two surrogates. -/
inductive Code (c : Char) : List Char → Prop
  | one {text : List Char} (number : HexFour c.toNat text) : Code c text
  | pair {i j : Nat} {high low : List Char} (i_lt : i < 0x400) (j_lt : j < 0x400)
      (number : c.toNat = 0x10000 + i * 0x400 + j) (first : HexFour (0xd800 + i) high)
      (second : HexFour (0xdc00 + j) low) : Code c (high ++ '\\' :: 'u' :: low)

/-- What may follow a backslash and the letter u, also where it means no character. -/
def AnyCode (_ : Char) (text : List Char) : Prop := ∃ n, HexFour n text

/-- The text between the quotes of a string; `code` tells what may follow a backslash and the letter
    u. -/
inductive Inside (code : Char → List Char → Prop) : List Char → List Char → Prop
  | nil : Inside code [] []
  | plain {c : Char} {cs text : List Char} (visible : 0x20 ≤ c.toNat) (quote : c ≠ '"')
      (backslash : c ≠ '\\') (rest : Inside code cs text) : Inside code (c :: cs) (c :: text)
  | short {letter c : Char} {cs text : List Char} (escape : (letter, c) ∈ shortEscapes)
      (rest : Inside code cs text) : Inside code (c :: cs) ('\\' :: letter :: text)
  | unicode {c : Char} {cs escape text : List Char} (number : code c escape)
      (rest : Inside code cs text) : Inside code (c :: cs) ('\\' :: 'u' :: (escape ++ text))

/-- The text of a string. -/
def SpellsText (s : String) (text : List Char) : Prop :=
  ∃ inside, Inside Code s.toList inside ∧ text = '"' :: (inside ++ ['"'])

/-- The text of a string that may have surrogates without their partners. -/
def AnyText (text : List Char) : Prop :=
  ∃ cs inside, Inside AnyCode cs inside ∧ text = '"' :: (inside ++ ['"'])

/-- It does not matter which characters the codes stand for. -/
theorem Inside.blank {cs inside : List Char} (h : Inside AnyCode cs inside) :
    ∃ cs, Inside (fun c text => c = ' ' ∧ AnyCode c text) cs inside := by
  induction h with
  | nil => exact ⟨[], .nil⟩
  | plain visible quote backslash _ ih =>
    obtain ⟨cs, tail⟩ := ih
    exact ⟨_, .plain visible quote backslash tail⟩
  | short escape _ ih =>
    obtain ⟨cs, tail⟩ := ih
    exact ⟨_, .short escape tail⟩
  | unicode number _ ih =>
    obtain ⟨cs, tail⟩ := ih
    exact ⟨_, .unicode ⟨rfl, number⟩ tail⟩

theorem AnyText.head? {text : List Char} (h : AnyText text) : text.head? = some '"' := by
  obtain ⟨cs, inside, -, rfl⟩ := h
  rfl

theorem SpellsText.head? {s : String} {text : List Char} (h : SpellsText s text) :
    text.head? = some '"' := by
  obtain ⟨inside, -, rfl⟩ := h
  rfl

/-! ### Lists and objects -/

/-- A text with the white space around it. -/
structure Part where
  before : List Char
  inner : List Char
  after : List Char

def Part.text (part : Part) : List Char := part.before ++ (part.inner ++ part.after)

theorem Part.text_append (part : Part) (rest : List Char) :
    part.text ++ rest = part.before ++ (part.inner ++ (part.after ++ rest)) := by
  simp [Part.text]

/-- The part without the white space before it. -/
def Part.trimmed (part : Part) : Part := { part with before := [] }

theorem Part.trimmed_append (part : Part) (rest : List Char) :
    part.inner ++ (part.after ++ rest) = part.trimmed.text ++ rest :=
  (part.trimmed.text_append rest).symm

theorem Part.length_trimmed_le (part : Part) : part.trimmed.text.length ≤ part.text.length := by
  simp [Part.text, trimmed]

theorem Part.length_inner_le (part : Part) : part.inner.length ≤ part.text.length := by
  simp only [Part.text, List.length_append]
  omega

def Part.Padded (part : Part) : Prop := Gap part.before ∧ Gap part.after

theorem Part.Padded.trimmed {part : Part} (padded : part.Padded) : part.trimmed.Padded :=
  ⟨gap_nil, padded.2⟩

/-- The text of a member of an object, with a colon between its name and its value. -/
def memberText (member : Part × Part) : List Char := member.1.text ++ ':' :: member.2.text

theorem memberText_append (member : Part × Part) (rest : List Char) :
    memberText member ++ rest = member.1.before ++ (member.1.inner ++ (member.1.after ++
      ':' :: (member.2.text ++ rest))) := by
  simp [memberText, Part.text]

/-- Texts in brackets, with a comma between any two of them. -/
def enclosed (opening closing : Char) (parts : List (List Char)) : List Char :=
  opening :: (separated parts ++ [closing])

theorem separated_cons (part : List Char) (parts : List (List Char)) :
    separated (part :: parts) = part ++ parts.flatMap (',' :: ·) := by
  induction parts generalizing part with
  | nil => exact List.intercalate_singleton.trans (List.append_nil part).symm
  | cons other parts ih =>
    refine List.intercalate_cons_cons.trans ?_
    rw [List.append_assoc]
    exact congrArg (part ++ ',' :: ·) (ih other)

/-- What stands in brackets after the first part. -/
def following (closing : Char) (parts : List (List Char)) (rest : List Char) : List Char :=
  parts.flatMap (',' :: ·) ++ closing :: rest

theorem enclosed_cons (opening closing : Char) (part : List Char) (parts : List (List Char))
    (rest : List Char) : enclosed opening closing (part :: parts) ++ rest =
      opening :: (part ++ following closing parts rest) := by
  simp [enclosed, separated_cons, following]

theorem following_nil (closing : Char) (rest : List Char) :
    following closing [] rest = closing :: rest := rfl

theorem following_cons (closing : Char) (part : List Char) (parts : List (List Char))
    (rest : List Char) : following closing (part :: parts) rest =
      ',' :: (part ++ following closing parts rest) := by
  simp [following]

/-- There is at least a comma for each part. -/
theorem length_following (closing : Char) (parts : List (List Char)) (rest : List Char) :
    parts.length < (following closing parts rest).length := by
  induction parts with
  | nil => simp [following]
  | cons part parts ih =>
    simp only [following_cons, List.length_cons, List.length_append]
    omega

/-- A value of any kind. -/
inductive WellFormed : List Char → Prop
  | null : WellFormed Value.null.write
  | bool (b : Bool) : WellFormed (Value.bool b).write
  | number {text : List Char} (number : Number text) : WellFormed text
  | text {text : List Char} (string : AnyText text) : WellFormed text
  | emptyList {gap : List Char} (blank : Gap gap) : WellFormed (enclosed '[' ']' [gap])
  | list {items : List Part} (nonempty : items ≠ []) (padded : ∀ item ∈ items, item.Padded)
      (values : ∀ item ∈ items, WellFormed item.inner) :
      WellFormed (enclosed '[' ']' (items.map Part.text))
  | emptyObject {gap : List Char} (blank : Gap gap) : WellFormed (enclosed '\x7b' '\x7d' [gap])
  | object {members : List (Part × Part)} (nonempty : members ≠ [])
      (padded : ∀ member ∈ members, member.1.Padded ∧ member.2.Padded)
      (names : ∀ member ∈ members, AnyText member.1.inner)
      (values : ∀ member ∈ members, WellFormed member.2.inner) :
      WellFormed (enclosed '\x7b' '\x7d' (members.map memberText))

/-- A list of values of one type, each of them spelled by its text. -/
inductive SpellsList (spells : α → List Char → Prop) : List α → List Char → Prop
  | nil {gap : List Char} (blank : Gap gap) : SpellsList spells [] (enclosed '[' ']' [gap])
  | cons {as : List α} {items : List Part} (nonempty : items ≠ [])
      (padded : ∀ item ∈ items, item.Padded)
      (spelled : List.Forall₂ (fun a item => spells a item.inner) as items) :
      SpellsList spells as (enclosed '[' ']' (items.map Part.text))

/-- An object, as the list of its members in their order: their names and the texts of their values. -/
inductive ObjectText : List (String × List Char) → List Char → Prop
  | nil {gap : List Char} (blank : Gap gap) : ObjectText [] (enclosed '\x7b' '\x7d' [gap])
  | cons {entries : List (String × List Char)} {members : List (Part × Part)}
      (nonempty : members ≠ [])
      (padded : ∀ member ∈ members, member.1.Padded ∧ member.2.Padded)
      (spelled : List.Forall₂ (fun entry member =>
        SpellsText entry.1 member.1.inner ∧ member.2.inner = entry.2) entries members) :
      ObjectText entries (enclosed '\x7b' '\x7d' (members.map memberText))

/-- The members give a value under a name, once, or they give none. -/
def Gives (entries : List (String × List Char)) (name : String) (spells : α → List Char → Prop) :
    Option α → Prop
  | none => name ∉ entries.map Prod.fst
  | some a => ∃ text, entries.filter (·.1 = name) = [(name, text)] ∧ spells a text

namespace Gives

variable {name : String} {spells : α → List Char → Prop} {entries : List (String × List Char)}

theorem of_nil {given : Option α} (h : Gives [] name spells given) : given = none := by
  cases given with
  | none => rfl
  | some a =>
    obtain ⟨text, listed, -⟩ := h
    cases listed

theorem cons_of_ne {entry : String × List Char} (other : entry.1 ≠ name) (given : Option α) :
    Gives (entry :: entries) name spells given ↔ Gives entries name spells given := by
  cases given with
  | none => simp [Gives, Ne.symm other]
  | some a => simp [Gives, other]

/-- A member under the name gives the value, and it is the only one. -/
theorem of_cons {text : List Char} {given : Option α}
    (h : Gives ((name, text) :: entries) name spells given) :
    (∃ a, given = some a ∧ spells a text) ∧ name ∉ entries.map Prod.fst := by
  cases given with
  | none => exact absurd List.mem_cons_self h
  | some a =>
    obtain ⟨only, listed, spelled⟩ := h
    rw [List.filter_cons_of_pos (by simp)] at listed
    obtain ⟨eq, no_more⟩ := List.cons.inj listed
    obtain ⟨-, rfl⟩ := Prod.mk.inj eq
    refine ⟨⟨a, rfl, spelled⟩, fun mem => ?_⟩
    obtain ⟨entry, among, rfl⟩ := List.mem_map.mp mem
    exact List.filter_eq_nil_iff.mp no_more entry among (by simp)

/-- Only the members of that name count, and of these not the order. -/
theorem of_perm {others : List (String × List Char)} {names : List String} (listed : name ∈ names)
    (perm : (others.filter (·.1 ∈ names)).Perm (entries.filter (·.1 ∈ names))) {given : Option α}
    (h : Gives entries name spells given) : Gives others name spells given := by
  have narrower : ∀ list : List (String × List Char),
      (list.filter (·.1 ∈ names)).filter (·.1 = name) = list.filter (·.1 = name) := by
    intro list
    rw [List.filter_filter]
    refine List.filter_congr fun entry _ => ?_
    by_cases eq : entry.1 = name <;> simp [eq, listed]
  have same := perm.filter (·.1 = name)
  rw [narrower, narrower] at same
  cases given with
  | none =>
    intro mem
    obtain ⟨entry, among, rfl⟩ := List.mem_map.mp mem
    have here := same.subset (List.mem_filter.mpr ⟨among, by simp⟩)
    exact h (List.mem_map_of_mem (List.mem_filter.mp here).1)
  | some a =>
    obtain ⟨text, only, spelled⟩ := h
    rw [only] at same
    exact ⟨text, List.perm_singleton.mp same, spelled⟩

end Gives

/-- A document that holds one value. -/
def DocumentOf (spells : List Char → Prop) (document : List Char) : Prop :=
  ∃ part : Part, part.Padded ∧ spells part.inner ∧ document = part.text

end Lineage.Json
