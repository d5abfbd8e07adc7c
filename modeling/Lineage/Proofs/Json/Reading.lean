import Lineage.Json.Reader
import Lineage.Proofs.Json.Grammar

/-!
# Readers read the grammar

Where a text starts with a token as the grammar has it, a reader takes this token and leaves the rest
of the text, as long as the rest does not go on with what could belong to a number.
-/

namespace Lineage.Json.Reader

variable {α β S : Type}

/-! ### Steps -/

/-- The reader takes this text from the front, whatever comes after it. -/
def Takes (r : Reader α) (text : List Char) (a : α) : Prop :=
  ∀ rest, r.run (text ++ rest) = .ok (a, rest)

theorem run_bind_of {m : Reader α} {text rest : List Char} {a : α} (h : m.run text = .ok (a, rest))
    (f : α → Reader β) : (m >>= f).run text = (f a).run rest := by
  rw [StateT.run_bind, h]
  rfl

theorem run_discard_of {m : Reader α} {text rest : List Char} {a : α}
    (h : m.run text = .ok (a, rest)) : (discard m).run text = .ok ((), rest) := by
  refine (StateT.run_map ..).trans ?_
  rw [h]
  rfl

theorem run_peek (text : List Char) : peek.run text = .ok (text.head?, text) := rfl

theorem run_skipChar (c : Char) (text : List Char) : skipChar.run (c :: text) = .ok ((), text) := rfl

theorem isGap_of_gap {gap : List Char} (h : Gap gap) : ∀ c ∈ gap, isGap c = true := by
  intro c mem
  have listed := h c mem
  simp only [List.mem_cons, List.not_mem_nil, or_false] at listed
  rcases listed with rfl | rfl | rfl | rfl <;> rfl

theorem dropWhile_gap {gap : List Char} (h : Gap gap) (rest : List Char) :
    (gap ++ rest).dropWhile isGap = rest.dropWhile isGap :=
  List.dropWhile_append_of_pos (isGap_of_gap h)

theorem run_skipGap {gap : List Char} (h : Gap gap) : skipGap.run gap = .ok ((), []) := by
  have dropped := dropWhile_gap h []
  rw [List.append_nil] at dropped
  exact congrArg (fun rest => Except.ok ((), rest)) dropped

theorem run_start {gap : List Char} (h : Gap gap) {c : Char} (visible : isGap c = false)
    (rest : List Char) : start.run (gap ++ c :: rest) = .ok (c, c :: rest) := by
  have skipped : skipGap.run (gap ++ c :: rest) = .ok ((), c :: rest) := by
    refine congrArg (fun rest => Except.ok ((), rest)) ((dropWhile_gap h _).trans ?_)
    exact List.dropWhile_cons_of_neg (by rw [visible]; decide)
  exact run_bind_of skipped _

theorem run_start_cons {c : Char} (visible : isGap c = false) (rest : List Char) :
    start.run (c :: rest) = .ok (c, c :: rest) := run_start gap_nil visible rest

theorem takes_keyword (word : List Char) : Takes (keyword word) word () := by
  induction word with
  | nil => exact fun rest => rfl
  | cons c word ih =>
    intro rest
    have next : (keyword (c :: word)).run (c :: word ++ rest) =
        (if c = c then keyword word else throw .malformed : Reader Unit).run (word ++ rest) := rfl
    rw [next, if_pos rfl]
    exact ih rest

/-! ### Numbers -/

/-- The text does not go on with what could belong to a number. -/
def Ends (rest : List Char) : Prop := ∀ c ∈ rest.head?, c.isDigit = false ∧ c ∉ ['.', 'e', 'E']

theorem ends_nil : Ends [] := nofun

theorem Ends.gap {gap rest : List Char} (h : Gap gap) (ends : Ends rest) : Ends (gap ++ rest) := by
  cases gap with
  | nil => exact ends
  | cons c gap =>
    intro d eq
    obtain rfl : c = d := Option.some.inj eq
    have listed := h c List.mem_cons_self
    simp only [List.mem_cons, List.not_mem_nil, or_false] at listed
    rcases listed with rfl | rfl | rfl | rfl <;> decide

theorem Ends.head?_ne {rest : List Char} (ends : Ends rest) {c : Char} (listed : c ∈ ['.', 'e', 'E']) :
    ¬ rest.head? = some c := fun eq => (ends c eq).2 listed

theorem run_digits {ds rest : List Char} (h : ∀ c ∈ ds, c.isDigit = true)
    (stops : ∀ c ∈ rest.head?, c.isDigit = false) : digits.run (ds ++ rest) = .ok (ds, rest) := by
  have none : rest.takeWhile Char.isDigit = [] ∧ rest.dropWhile Char.isDigit = rest := by
    cases rest with
    | nil => exact ⟨rfl, rfl⟩
    | cons c rest =>
      have stop := stops c rfl
      exact ⟨List.takeWhile_cons_of_neg (by rw [stop]; decide),
        List.dropWhile_cons_of_neg (by rw [stop]; decide)⟩
  have taken : (ds ++ rest).takeWhile Char.isDigit = ds := by
    rw [List.takeWhile_append_of_pos h, none.1, List.append_nil]
  have dropped : (ds ++ rest).dropWhile Char.isDigit = rest := by
    rw [List.dropWhile_append_of_pos h, none.2]
  exact congrArg₂ (fun ds rest => Except.ok (ds, rest)) taken dropped

/-- Passes over a sign if there is one. -/
theorem run_sign {sign ds rest : List Char} {k : Unit → Reader β} {p : Option Char → Prop}
    [DecidablePred p] (signed : sign = [] ∨ ∃ c, p (some c) ∧ sign = [c])
    (unsigned : ∀ c, c.isDigit = true → ¬ p (some c)) (h : Digits ds) :
    (if p (sign ++ (ds ++ rest)).head? then skipChar >>= k else k ()).run (sign ++ (ds ++ rest)) =
      (k ()).run (ds ++ rest) := by
  obtain rfl | ⟨c, isSign, rfl⟩ := signed
  · obtain ⟨c, isDigit, head⟩ := h.head? rest
    rw [List.nil_append, head, if_neg (unsigned c isDigit)]
  · rw [List.singleton_append, List.head?_cons, if_pos isSign, run_bind_of (run_skipChar c _)]

/-- Passes over a fraction if there is one. -/
theorem run_fraction {fraction rest : List Char} {k : Unit → Reader β} (h : Fraction fraction)
    (stops : ∀ c ∈ rest.head?, c.isDigit = false ∧ c ≠ '.') :
    (peek >>= fun c =>
      if c = some '.' then
        skipChar >>= fun _ => digits >>= fun ds =>
          if ds.isEmpty = true then throw .malformed >>= k else k ()
      else k ()).run (fraction ++ rest) = (k ()).run rest := by
  rw [run_bind_of (run_peek _)]
  obtain rfl | ⟨ds, isDigits, rfl⟩ := h
  · rw [List.nil_append, if_neg fun eq : rest.head? = some '.' => (stops _ eq).2 rfl]
  · have stop : ∀ c ∈ rest.head?, c.isDigit = false := fun c mem => (stops c mem).1
    rw [List.cons_append, List.head?_cons, if_pos rfl, run_bind_of (run_skipChar _ _),
      run_bind_of (run_digits isDigits.2 stop), if_neg isDigits.isEmpty]

/-- Passes over an exponent if there is one. -/
theorem run_power {power rest : List Char} (h : Power power) (ends : Ends rest) :
    (do
      let letter ← peek
      if letter = some 'e' || letter = some 'E' then
        skipChar
        let sign ← peek
        if sign = some '+' || sign = some '-' then skipChar
        if (← digits).isEmpty then throw .malformed : Reader Unit).run (power ++ rest) =
      .ok ((), rest) := by
  rw [run_bind_of (run_peek _)]
  obtain rfl | ⟨letter, sign, ds, isLetter, isSign, isDigits, rfl⟩ := h
  · rw [List.nil_append, if_neg]
    · rfl
    · rw [Bool.or_eq_true, decide_eq_true_eq, decide_eq_true_eq]
      rintro (eq | eq)
      · exact ends.head?_ne (by decide) eq
      · exact ends.head?_ne (by decide) eq
  · rw [List.cons_append, List.head?_cons, if_pos, run_bind_of (run_skipChar _ _),
      run_bind_of (run_peek _), List.append_assoc]
    · refine (run_sign (p := fun sign => (sign = some '+' || sign = some '-') = true)
        ?_ ?_ isDigits).trans ?_
      · rcases isSign with rfl | rfl | rfl
        · exact .inl rfl
        · exact .inr ⟨'+', rfl, rfl⟩
        · exact .inr ⟨'-', rfl, rfl⟩
      · rintro c isDigit isSign
        simp only [Option.some.injEq, Bool.or_eq_true, decide_eq_true_eq] at isSign
        rcases isSign with rfl | rfl <;> cases isDigit
      · rw [run_bind_of (run_digits isDigits.2 fun c mem => (ends c mem).1),
          if_neg isDigits.isEmpty]
        rfl
    · rcases isLetter with rfl | rfl <;> rfl

theorem run_skipNumeral {text rest : List Char} (h : Number text) (ends : Ends rest) :
    skipNumeral.run (text ++ rest) = .ok ((), rest) := by
  obtain ⟨sign, whole, fraction, power, isSign, isWhole, isFraction, isPower, rfl⟩ := h
  have beforeRest : ∀ c ∈ (power ++ rest).head?, c.isDigit = false ∧ c ≠ '.' := by
    obtain rfl | ⟨letter, sign, ds, isLetter, -, -, rfl⟩ := isPower
    · exact fun c mem => ⟨(ends c mem).1, fun eq => (ends c mem).2 (eq ▸ List.mem_cons_self)⟩
    · intro c mem
      obtain rfl : letter = c := Option.some.inj mem
      rcases isLetter with rfl | rfl <;> decide
  have beforePower : ∀ c ∈ (fraction ++ (power ++ rest)).head?, c.isDigit = false := by
    obtain rfl | ⟨ds, -, rfl⟩ := isFraction
    · exact fun c mem => (beforeRest c mem).1
    · rintro c mem
      obtain rfl : '.' = c := Option.some.inj mem
      rfl
  rw [List.append_assoc, List.append_assoc, List.append_assoc]
  unfold skipNumeral
  rw [run_bind_of (run_peek _)]
  refine (run_sign (p := (· = some '-')) ?_ ?_ isWhole.1).trans ?_
  · exact isSign.imp_right fun eq => ⟨'-', rfl, eq⟩
  · rintro c isDigit eq
    obtain rfl := Option.some.inj eq
    cases isDigit
  · rw [run_bind_of (run_digits isWhole.1.2 beforePower), if_neg]
    · dsimp only
      exact (run_fraction isFraction beforeRest).trans (run_power isPower ends)
    · -- zero stands alone
      simp only [Bool.or_eq_true, Bool.and_eq_true, decide_eq_true_eq, not_or, not_and]
      refine ⟨isWhole.1.isEmpty, fun zero length => length ?_⟩
      rw [isWhole.2 zero]
      rfl

/-! ### Natural numbers -/

theorem le_ofDigitChars (ds : List Char) (m : Nat) : m ≤ Nat.ofDigitChars 10 ds m := by
  induction ds generalizing m with
  | nil => exact Nat.le_refl m
  | cons d ds ih =>
    have grows : m ≤ 10 * m + digitValue d := by omega
    exact Nat.le_trans grows (ih _)

/-- All digits of a number that fits into 64 bits are taken. -/
theorem absorb_of_lt {ds : List Char} {m : Nat} (h : Nat.ofDigitChars 10 ds m < wordLimit) :
    absorb m ds = (Nat.ofDigitChars 10 ds m, 0) := by
  induction ds generalizing m with
  | nil => rfl
  | cons d ds ih =>
    have fits : 10 * m + digitValue d < wordLimit := Nat.lt_of_le_of_lt (le_ofDigitChars ds _) h
    rw [absorb, if_pos fits]
    exact ih h

theorem roundBinary_le (n : Nat) : roundBinary n ≤ 2 * n + 1 := by
  have spread : n >>> (n.log2 - 52) * 2 ^ (n.log2 - 52) ≤ n := by
    rw [Nat.shiftRight_eq_div_pow]
    exact Nat.div_mul_le_self _ _
  have unit : 2 ^ (n.log2 - 52) ≤ n + 1 := by
    by_cases zero : n = 0
    · subst zero
      decide
    · have small : 2 ^ (n.log2 - 52) ≤ 2 ^ n.log2 := Nat.pow_le_pow_right (by decide) (Nat.sub_le _ _)
      exact Nat.le_succ_of_le (Nat.le_trans small (Nat.log2_self_le zero))
  have rounded : ∀ q, q ≤ n >>> (n.log2 - 52) + 1 → q <<< (n.log2 - 52) ≤ 2 * n + 1 := by
    intro q le
    rw [Nat.shiftLeft_eq]
    have product := Nat.mul_le_mul_right (2 ^ (n.log2 - 52)) le
    rw [Nat.add_mul, Nat.one_mul] at product
    omega
  unfold roundBinary
  refine rounded _ ?_
  split
  · exact Nat.le_refl _
  · exact Nat.le_succ _

theorem isInfinite_of_lt {n : Nat} (h : n < wordLimit) : isInfinite n 0 = false := by
  have one : roundBinary (Nat.pow 10 (0 : Int).toNat) = 1 := by decide
  have below : roundBinary n < infinityLimit := by
    refine Nat.lt_of_le_of_lt (roundBinary_le n) (Nat.lt_trans (m := 2 * wordLimit + 1) ?_ (by decide))
    omega
  unfold isInfinite
  rw [one, Nat.mul_one, decide_eq_false (Nat.not_le_of_lt below)]
  simp

theorem run_numeral {n : Nat} (h : n < wordLimit) {rest : List Char} (ends : Ends rest) :
    numeral.run (Nat.toDigits 10 n ++ rest) = .ok (.natural n, rest) := by
  have whole := whole_toDigits n
  have stops : ∀ c ∈ rest.head?, c.isDigit = false := fun c mem => (ends c mem).1
  obtain ⟨c, isDigit, head⟩ := whole.1.head? rest
  have unsigned : ¬ some c = some '-' := by
    rintro ⟨⟩
    cases isDigit
  have alone : ¬ (decide (c = '0') && decide ((Nat.toDigits 10 n).length ≠ 1)) = true := by
    rw [Bool.and_eq_true, decide_eq_true_eq, decide_eq_true_eq]
    rintro ⟨rfl, length⟩
    rw [List.head?_append_of_ne_nil _ whole.1.1] at head
    exact length (congrArg List.length (whole.2 head))
  have absorbed : absorb 0 (Nat.toDigits 10 n) = _ :=
    absorb_of_lt (Nat.ofDigitChars_ten_toDigits.symm ▸ h)
  rw [Nat.ofDigitChars_ten_toDigits] at absorbed
  unfold numeral
  rw [run_bind_of (run_peek _)]
  dsimp only
  rw [head, if_neg unsigned, run_bind_of (run_peek _), head]
  dsimp only
  rw [isDigit, if_neg (by decide), run_bind_of (run_digits whole.1.2 stops), if_neg alone, absorbed]
  dsimp only
  rw [run_bind_of (run_peek _), if_neg (ends.head?_ne (by decide)),
    run_bind_of (m := pure []) rfl, run_bind_of (run_peek _)]
  split
  next eq => exact absurd eq (ends.head?_ne (by decide))
  next eq => exact absurd eq (ends.head?_ne (by decide))
  next =>
    rw [run_bind_of (m := pure none) rfl]
    refine (congrArg (StateT.run · rest) (if_neg ?_)).trans ?_
    · exact Bool.eq_false_iff.mp (isInfinite_of_lt h)
    · refine congrArg (fun a => Except.ok (a, rest)) (if_neg ?_)
      rw [decide_eq_false unsigned]
      exact Bool.false_ne_true

/-! ### Strings -/

theorem hexDigit?_of {n : Nat} {c : Char} (h : HexDigit n c) : hexDigit? c = some n := by
  have read : ∀ digits : List Char, digits.map hexDigit? = (List.range 16).map some →
      digits[n]? = some c → hexDigit? c = some n := by
    intro digits values found
    have there := congrArg (·[n]?) values
    simp only [List.getElem?_map, found, Option.map_some] at there
    obtain ⟨k, inRange, same⟩ := Option.map_eq_some_iff.mp there.symm
    obtain ⟨_, rfl⟩ := List.getElem?_eq_some_iff.mp inRange
    rw [← same, List.getElem_range]
  rcases h with h | h
  · exact read _ (by decide) h
  · exact read _ (by decide) h

theorem takes_hexFour {n : Nat} {text : List Char} (h : HexFour n text) : Takes hexFour text n := by
  cases h with
  | @digits i j k l a b c d first second third fourth =>
    intro rest
    have bytes : ¬ (([a, b, c, d] ++ rest).take 4).foldl (· + ·.utf8Size) 0 < 4 := by
      have size := fun c : Char => c.utf8Size_pos
      have := size a
      have := size b
      have := size c
      have := size d
      change ¬ 0 + a.utf8Size + b.utf8Size + c.utf8Size + d.utf8Size < 4
      omega
    have read : (([a, b, c, d] ++ rest).take 4).mapM hexDigit? = some [i, j, k, l] := by
      simp [hexDigit?_of first, hexDigit?_of second, hexDigit?_of third, hexDigit?_of fourth]
    have value : [i, j, k, l].foldl (fun n d => 16 * n + d) 0 = ((i * 16 + j) * 16 + k) * 16 + l := by
      simp only [List.foldl_cons, List.foldl_nil]
      omega
    unfold hexFour
    rw [run_bind_of (m := get) rfl, if_neg bytes, run_bind_of (m := set _) rfl, read]
    exact congrArg (fun n => Except.ok (n, rest)) value

theorem isSurrogate_of_lt {i : Nat} (i_lt : i < 0x400) :
    isHighSurrogate (0xd800 + i) = true ∧ isLowSurrogate (0xd800 + i) = false ∧
      isLowSurrogate (0xdc00 + i) = true := by
  simp only [isHighSurrogate, isLowSurrogate, Bool.and_eq_true, Bool.and_eq_false_iff,
    decide_eq_true_eq, decide_eq_false_iff_not]
  omega

/-- A character is no surrogate. -/
theorem isSurrogate_toNat (c : Char) :
    isHighSurrogate c.toNat = false ∧ isLowSurrogate c.toNat = false := by
  have valid : c.toNat < 0xd800 ∨ 0xdfff < c.toNat ∧ c.toNat < 0x110000 := c.valid
  simp only [isHighSurrogate, isLowSurrogate, Bool.and_eq_false_iff, decide_eq_false_iff_not]
  omega

theorem takes_unicodeEscape {c : Char} {text : List Char} (h : Code c text) :
    Takes unicodeEscape text c := by
  intro rest
  unfold unicodeEscape
  cases h with
  | one number =>
    have plain := isSurrogate_toNat c
    rw [run_bind_of (takes_hexFour number rest), plain.2, plain.1, if_neg (by decide),
      if_pos (by decide), Char.ofNat_toNat]
    rfl
  | @pair i j high low i_lt j_lt number first second =>
    have surrogate := isSurrogate_of_lt i_lt
    have character : 0x10000 + (0xd800 + i - 0xd800) * 0x400 + (0xdc00 + j - 0xdc00) = c.toNat := by
      omega
    have word : (keyword ['\\', 'u']).run ('\\' :: 'u' :: (low ++ rest)) = .ok ((), low ++ rest) :=
      takes_keyword _ _
    rw [List.append_assoc, run_bind_of (takes_hexFour first _), surrogate.1, surrogate.2.1,
      if_neg (by decide), if_neg (by decide)]
    dsimp only [List.cons_append]
    rw [run_bind_of word, run_bind_of (takes_hexFour second rest), (isSurrogate_of_lt j_lt).2.2,
      if_neg (by decide), character, Char.ofNat_toNat]
    rfl

theorem run_stringBody_plain {escape : Reader Char} {c : Char} (visible : 0x20 ≤ c.toNat)
    (quote : c ≠ '"') (backslash : c ≠ '\\') (fuel : Nat) (text : List Char) :
    (stringBody escape (fuel + 1)).run (c :: text) =
      (do return c :: (← stringBody escape fuel) : Reader (List Char)).run text := by
  rw [stringBody, run_bind_of (m := get) rfl]
  split
  next eq => cases eq
  next eq => exact absurd (List.cons.inj eq).1 quote
  next eq => exact absurd (List.cons.inj eq).1 backslash
  next eq =>
    obtain ⟨rfl, rfl⟩ := List.cons.inj eq
    rw [if_neg (Nat.not_lt_of_le visible), run_bind_of (m := set _) rfl]

theorem simpleEscape?_of {letter c : Char} (h : (letter, c) ∈ shortEscapes) :
    letter ≠ 'u' ∧ simpleEscape? letter = some c := by
  have all : ∀ pair ∈ shortEscapes, pair.1 ≠ 'u' ∧ simpleEscape? pair.1 = some pair.2 := by decide
  exact all _ h

theorem run_stringBody_short {escape : Reader Char} {letter c : Char}
    (h : (letter, c) ∈ shortEscapes) (fuel : Nat) (text : List Char) :
    (stringBody escape (fuel + 1)).run ('\\' :: letter :: text) =
      (do return c :: (← stringBody escape fuel) : Reader (List Char)).run text := by
  obtain ⟨notU, simple⟩ := simpleEscape?_of h
  rw [stringBody, run_bind_of (m := get) rfl]
  change StateT.run (do
    set (letter :: text)
    _ : Reader (List Char)) _ = _
  rw [run_bind_of (m := set _) rfl]
  dsimp only
  rw [run_bind_of (m := set _) rfl, if_neg notU, simple]
  exact run_bind_of (m := pure c) rfl _

theorem run_stringBody_unicode {escape : Reader Char} {c : Char} {text rest : List Char}
    (h : escape.run text = .ok (c, rest)) (fuel : Nat) :
    (stringBody escape (fuel + 1)).run ('\\' :: 'u' :: text) =
      (do return c :: (← stringBody escape fuel) : Reader (List Char)).run rest := by
  rw [stringBody, run_bind_of (m := get) rfl]
  change StateT.run (do
    set ('u' :: text)
    _ : Reader (List Char)) _ = _
  rw [run_bind_of (m := set _) rfl]
  dsimp only
  rw [run_bind_of (m := set _) rfl, if_pos rfl]
  exact run_bind_of h _

theorem run_stringBody {escape : Reader Char} {code : Char → List Char → Prop}
    (takes : ∀ c text, code c text → Takes escape text c) {cs inside : List Char}
    (h : Inside code cs inside) {fuel : Nat} (enough : inside.length < fuel) (rest : List Char) :
    (stringBody escape fuel).run (inside ++ '"' :: rest) = .ok (cs, rest) := by
  induction h generalizing fuel with
  | nil =>
    obtain ⟨fuel, rfl⟩ := Nat.exists_eq_add_of_lt enough
    rfl
  | @plain c cs text visible quote backslash _ ih =>
    obtain ⟨fuel, rfl⟩ := Nat.exists_eq_add_of_lt enough
    refine (run_stringBody_plain visible quote backslash _ _).trans ?_
    exact run_bind_of (ih (by simp; omega)) _
  | @short letter c cs text listed _ ih =>
    obtain ⟨fuel, rfl⟩ := Nat.exists_eq_add_of_lt enough
    refine (run_stringBody_short listed _ _).trans ?_
    exact run_bind_of (ih (by simp; omega)) _
  | @unicode c cs number text isCode _ ih =>
    obtain ⟨fuel, rfl⟩ := Nat.exists_eq_add_of_lt enough
    have number := takes c number isCode (text ++ '"' :: rest)
    rw [← List.append_assoc] at number
    refine (run_stringBody_unicode number _).trans ?_
    exact run_bind_of (ih (by simp; omega)) _

theorem takes_string {s : String} {text : List Char} (h : SpellsText s text) : Takes string text s := by
  obtain ⟨inside, isInside, rfl⟩ := h
  intro rest
  have enough : inside.length < (inside ++ '"' :: rest).length + 1 := by
    rw [List.length_append]
    omega
  have body := run_stringBody (fun c text => takes_unicodeEscape) isInside enough rest
  unfold string
  rw [List.cons_append, run_bind_of (run_skipChar _ _), List.append_assoc, List.singleton_append,
    run_bind_of (m := get) rfl, run_bind_of body, String.ofList_toList]
  rfl

theorem takes_skipString {text : List Char} (h : AnyText text) : Takes skipString text () := by
  obtain ⟨_, inside, isInside, rfl⟩ := h
  obtain ⟨cs, isInside⟩ := isInside.blank
  intro rest
  have takes : ∀ c text, c = ' ' ∧ AnyCode c text →
      Takes (do discard hexFour; pure ' ' : Reader Char) text c := by
    rintro c text ⟨rfl, n, isHex⟩ rest
    rw [run_bind_of (run_discard_of (takes_hexFour isHex rest))]
    rfl
  have enough : inside.length < (inside ++ '"' :: rest).length + 1 := by
    rw [List.length_append]
    omega
  have body := run_stringBody takes isInside enough rest
  unfold skipString
  rw [List.cons_append, run_bind_of (run_skipChar _ _), List.append_assoc, List.singleton_append,
    run_bind_of (m := get) rfl]
  exact run_discard_of body

/-! ### Where parts begin and end -/

/-- The text begins with a token, which does not close a list. -/
def Begins (text : List Char) : Prop :=
  ∃ c tail, text = c :: tail ∧ isGap c = false ∧ c ≠ ']'

theorem visible_of_isDigit {c : Char} (h : c.isDigit = true) : isGap c = false ∧ c ≠ ']' := by
  have other : ∀ d : Char, d.isDigit = false → c ≠ d := by
    rintro d notDigit rfl
    rw [h] at notDigit
    cases notDigit
  refine ⟨?_, other _ (by decide)⟩
  simp only [isGap, Bool.or_eq_false_iff, decide_eq_false_iff_not]
  exact ⟨⟨⟨other _ (by decide), other _ (by decide)⟩, other _ (by decide)⟩, other _ (by decide)⟩

theorem ends_following {closing : Char} (h : closing.isDigit = false ∧ closing ∉ ['.', 'e', 'E'])
    (parts : List (List Char)) (rest : List Char) : Ends (following closing parts rest) := by
  intro c mem
  cases parts with
  | nil =>
    obtain rfl : closing = c := Option.some.inj mem
    exact h
  | cons part parts =>
    rw [following_cons] at mem
    obtain rfl : ',' = c := Option.some.inj mem
    decide

theorem Begins.run_start {gap inner : List Char} (begins : Begins inner) (blank : Gap gap)
    (rest : List Char) :
    ∃ c, c ≠ ']' ∧ start.run (gap ++ (inner ++ rest)) = .ok (c, inner ++ rest) := by
  obtain ⟨c, tail, rfl, visible, other⟩ := begins
  exact ⟨c, other, Reader.run_start blank visible _⟩

/-- The name of a member begins with a quote. -/
theorem start_memberText (member : Part × Part) (padded : member.1.Padded)
    (name : member.1.inner.head? = some '"') (rest : List Char) :
    start.run (memberText member ++ rest) =
      .ok ('"', memberText (member.1.trimmed, member.2) ++ rest) := by
  obtain ⟨tail, eq⟩ := List.head?_eq_some_iff.mp name
  rw [memberText_append, memberText_append]
  change start.run (_ ++ (member.1.inner ++ _)) = .ok (_, member.1.inner ++ _)
  rw [eq]
  exact run_start padded.1 (by decide) _

end Lineage.Json.Reader
