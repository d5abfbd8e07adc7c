import Lineage.Fault

/-!
# Reading JSON

Readers take a typed value from the front of a text. They go through the text once, from left to
right, and the first problem they meet decides which defect is reported: a token of the wrong type is
reported before any error that comes after it in the text. Members that a type does not know are
passed over by grammar alone, whatever their value.
-/

namespace Lineage.Json

/-- Takes a value from the front of a text. -/
abbrev Reader := StateT (List Char) (Except Defect)

namespace Reader

variable {α S : Type}

/-- The four characters that may stand between tokens. -/
def isGap (c : Char) : Bool := c = ' ' || c = '\n' || c = '\t' || c = '\r'

def skipGap : Reader Unit := modify (·.dropWhile isGap)

/-- The next character, which stays; `none` at the end of the text. -/
def peek : Reader (Option Char) := return (← get).head?

def skipChar : Reader Unit := modify (·.drop 1)

/-- The next character after any gap, which stays. -/
def start : Reader Char := do
  skipGap
  let some c ← peek | throw .truncated
  return c

/-- Takes just these characters. -/
def keyword : List Char → Reader Unit
  | [] => pure ()
  | c :: rest => do
      match ← get with
      | [] => throw .truncated
      | d :: text =>
          set text
          if d = c then keyword rest else throw .malformed

/-! ### Numbers -/

/-- A number as far as any type of the library tells numbers apart. -/
inductive Numeral where
  /-- Digits alone. -/
  | natural (n : Nat)
  /-- A number with a sign, a fraction or an exponent, or too large for 64 bits. -/
  | other
  deriving DecidableEq, Repr

def digits : Reader (List Char) := do
  let text ← get
  set (text.dropWhile Char.isDigit)
  return text.takeWhile Char.isDigit

def digitValue (d : Char) : Nat := d.toNat - '0'.toNat

def valueOf (ds : List Char) : Nat := ds.foldl (fun n d => 10 * n + digitValue d) 0

/-- The least natural number that does not fit into 64 bits. -/
def wordLimit : Nat := 1 <<< 64

/-- Appends digits to the number `m` as long as the result fits into 64 bits; the second component
    counts the digits that are left over. -/
def absorb (m : Nat) : List Char → Nat × Nat
  | [] => (m, 0)
  | d :: ds =>
      let n := 10 * m + digitValue d
      if n < wordLimit then absorb n ds else (m, ds.length + 1)

/-- The least number that rounds to infinity among the binary numbers of 64 bits. -/
def infinityLimit : Nat := (1 <<< 1024) - (1 <<< 970)

/-- The nearest number that has at most 53 binary digits before its trailing zeros; of two, the one
    whose last digit is even. -/
def roundBinary (n : Nat) : Nat :=
  let excess := n.log2 - 52
  let q := n >>> excess
  let r := n % (1 <<< excess)
  let half := 1 <<< (excess - 1)
  let rounded := if half < r || (half = r && q % 2 = 1) then q + 1 else q
  rounded <<< excess

example : [9007199254740991, 9007199254740993, 9007199254740995, 18014398509481985].map roundBinary =
    [9007199254740991, 9007199254740992, 9007199254740996, 18014398509481984] := by decide

/-- The significand `m` times the power of ten with exponent `e` is infinite as a product of binary
    numbers of 64 bits, each factor being rounded before they are multiplied. -/
def isInfinite (m : Nat) (e : Int) : Bool :=
  m ≠ 0 && 0 ≤ e &&
    (308 < e || infinityLimit ≤ roundBinary m * roundBinary (Nat.pow 10 e.toNat))

/-- The digits after a point, of which there must be one. -/
def fraction : Reader (List Char) := do
  let ds ← digits
  if ds.isEmpty then
    if (← peek).isNone then throw .truncated else throw .malformed
  return ds

/-- The number after the letter of an exponent. -/
def exponent : Reader Int := do
  let sign ← peek
  if sign = some '+' || sign = some '-' then skipChar
  let ds ← digits
  if ds.isEmpty then
    if (← peek).isNone then throw .truncated else throw .malformed
  let n : Int := valueOf ds
  return if sign = some '-' then -n else n

/-- A number: its leading digits, as many as fit into 64 bits, are the significand, and each of the
    others counts as a place. One that is infinite is malformed. -/
def numeral : Reader Numeral := do
  let negative := (← peek) = some '-'
  if negative then skipChar
  let some c ← peek | throw .truncated
  if !c.isDigit then throw .malformed
  let whole ← digits
  if c = '0' && whole.length ≠ 1 then throw .malformed
  let (m, places) := absorb 0 whole
  let fractionDigits ← if (← peek) = some '.' then skipChar; fraction else pure []
  let (m, unused) := absorb m fractionDigits
  let power ← match ← peek with
    | some 'e' | some 'E' => do skipChar; some <$> exponent
    | _ => pure none
  let e : Int := (power.getD 0 + places) - (fractionDigits.length - unused : Nat)
  if isInfinite m e then throw .malformed
  return if negative || !fractionDigits.isEmpty || power.isSome || 0 < places then .other
    else .natural m

/-- Passes over a number, whose size does not matter. -/
def skipNumeral : Reader Unit := do
  if (← peek) = some '-' then skipChar
  let whole ← digits
  if whole.isEmpty || (whole.head? = some '0' && whole.length ≠ 1) then throw .malformed
  if (← peek) = some '.' then
    skipChar
    if (← digits).isEmpty then throw .malformed
  let letter ← peek
  if letter = some 'e' || letter = some 'E' then
    skipChar
    let sign ← peek
    if sign = some '+' || sign = some '-' then skipChar
    if (← digits).isEmpty then throw .malformed

/-! ### Strings -/

def hexDigit? (c : Char) : Option Nat :=
  if c.isDigit then some (c.toNat - '0'.toNat)
  else if 'a' ≤ c ∧ c ≤ 'f' then some (c.toNat - 'a'.toNat + 10)
  else if 'A' ≤ c ∧ c ≤ 'F' then some (c.toNat - 'A'.toNat + 10)
  else none

/-- Four hexadecimal digits. A text with fewer than four bytes left ends inside them, whatever these
    bytes are. -/
def hexFour : Reader Nat := do
  let text ← get
  if (text.take 4).foldl (· + ·.utf8Size) 0 < 4 then throw .truncated
  set (text.drop 4)
  let some ds := (text.take 4).mapM hexDigit? | throw .malformed
  return ds.foldl (fun n d => 16 * n + d) 0

def isHighSurrogate (n : Nat) : Bool := 0xd800 ≤ n && n ≤ 0xdbff

def isLowSurrogate (n : Nat) : Bool := 0xdc00 ≤ n && n ≤ 0xdfff

/-- The character after `\u`; one outside the first plane is written as a pair of surrogates. -/
def unicodeEscape : Reader Char := do
  let high ← hexFour
  if isLowSurrogate high then throw .malformed
  if !isHighSurrogate high then return Char.ofNat high
  keyword ['\\', 'u']
  let low ← hexFour
  if !isLowSurrogate low then throw .malformed
  return Char.ofNat (0x10000 + (high - 0xd800) * 0x400 + (low - 0xdc00))

/-- The character that a letter stands for after a backslash. -/
def simpleEscape? (c : Char) : Option Char :=
  match c with
  | '"' => some '"'
  | '\\' => some '\\'
  | '/' => some '/'
  | 'b' => some '\x08'
  | 'f' => some '\x0c'
  | 'n' => some '\n'
  | 'r' => some '\r'
  | 't' => some '\t'
  | _ => none

/-- The rest of a string after its opening quote; `escape` reads what follows `\u`. At most as many
    characters are read as the first argument says. -/
def stringBody (escape : Reader Char) : Nat → Reader (List Char)
  | 0 => throw .truncated
  | fuel + 1 => do
      match ← get with
      | [] => throw .truncated
      | '"' :: text => set text; return []
      | '\\' :: text =>
          set text
          let c ← match text with
            | [] => throw .truncated
            | letter :: text => do
                set text
                if letter = 'u' then escape
                else match simpleEscape? letter with
                  | some c => pure c
                  | none => throw .malformed
          return c :: (← stringBody escape fuel)
      | c :: text =>
          if c.toNat < 0x20 then throw .malformed
          set text
          return c :: (← stringBody escape fuel)

/-- A string of which the opening quote is next. -/
def string : Reader String := do
  skipChar
  return String.ofList (← stringBody unicodeEscape ((← get).length + 1))

/-- Passes over a string of which the opening quote is next. Lone surrogates do not matter. -/
def skipString : Reader Unit := do
  skipChar
  discard (stringBody (do discard hexFour; pure ' ') ((← get).length + 1))

/-! ### Values passed over -/

mutual

/-- Passes over a value. -/
def skipValueWith : Nat → Reader Unit
  | 0 => throw .truncated
  | fuel + 1 => do
      let c ← start
      match c with
      | 'n' => keyword ['n', 'u', 'l', 'l']
      | 't' => keyword ['t', 'r', 'u', 'e']
      | 'f' => keyword ['f', 'a', 'l', 's', 'e']
      | '"' => skipString
      | '[' =>
          skipChar
          if (← start) = ']' then skipChar else skipItemsWith fuel
      | '\x7b' =>
          skipChar
          if (← start) = '\x7d' then skipChar else skipMembersWith fuel
      | c => if c = '-' || c.isDigit then skipNumeral else throw .malformed

/-- Passes over the items of a list up to its end. -/
def skipItemsWith : Nat → Reader Unit
  | 0 => throw .truncated
  | fuel + 1 => do
      skipValueWith fuel
      match ← start with
      | ']' => skipChar
      | ',' => skipChar; skipItemsWith fuel
      | _ => throw .malformed

/-- Passes over the members of an object up to its end. -/
def skipMembersWith : Nat → Reader Unit
  | 0 => throw .truncated
  | fuel + 1 => do
      if (← start) ≠ '"' then throw .malformed
      skipString
      if (← start) ≠ ':' then throw .malformed
      skipChar
      skipValueWith fuel
      match ← start with
      | '\x7d' => skipChar
      | ',' => skipChar; skipMembersWith fuel
      | _ => throw .malformed

end

/-- Passes over a value of any type. -/
def skipValue : Reader Unit := do skipValueWith (2 * (← get).length + 2)

/-! ### Typed values -/

/-- Reports a token that starts with `c` where another type is wanted: one that is not even well
    formed is malformed, a list or an object is not looked into. -/
def wrongType (c : Char) : Reader α := do
  match c with
  | 'n' => keyword ['n', 'u', 'l', 'l']; throw .mistyped
  | 't' => keyword ['t', 'r', 'u', 'e']; throw .mistyped
  | 'f' => keyword ['f', 'a', 'l', 's', 'e']; throw .mistyped
  | '"' => discard string; throw .mistyped
  | '[' | '\x7b' => throw .mistyped
  | c => if c = '-' || c.isDigit then discard numeral; throw .mistyped else throw .malformed

/-- A natural number below `wordLimit`. -/
def natural : Reader Nat := do
  let c ← start
  if c = '-' || c.isDigit then
    match ← numeral with
    | .natural n => return n
    | .other => throw .mistyped
  else wrongType c

def bool : Reader Bool := do
  match ← start with
  | 't' => keyword ['t', 'r', 'u', 'e']; return true
  | 'f' => keyword ['f', 'a', 'l', 's', 'e']; return false
  | c => wrongType c

def text : Reader String := do
  match ← start with
  | '"' => string
  | c => wrongType c

def null : Reader Unit := do
  match ← start with
  | 'n' => keyword ['n', 'u', 'l', 'l']
  | c => wrongType c

/-! ### Lists -/

/-- The next item of a list that has been opened, or `none` at its end, which stays. -/
def nextItem (first : Bool) (item : Reader α) : Reader (Option α) := do
  let c ← start
  if c = ']' then return none
  else if first then some <$> item
  else if c ≠ ',' then throw .malformed
  else
    skipChar
    if (← start) = ']' then throw .malformed
    some <$> item

/-- The end of a list. -/
def endList : Reader Unit := do
  if (← start) = ']' then skipChar else throw .malformed

/-- The items that are left of a list, at most as many as the first argument says. -/
def itemsWith (item : Reader α) : Nat → Bool → Reader (List α)
  | 0, _ => throw .truncated
  | fuel + 1, first => do
      match ← nextItem first item with
      | none => return []
      | some a => return a :: (← itemsWith item fuel false)

/-- A list of items of one type. -/
def list (item : Reader α) : Reader (List α) := do
  match ← start with
  | '[' =>
      skipChar
      let items ← itemsWith item ((← get).length + 1) true
      endList
      return items
  | c => wrongType c

/-! ### Records -/

/-- What a member's value does to the state `S` of the record so far; refuses a repeated member. -/
abbrev Member (S : Type) := S → Except Defect (Reader S)

/-- A member that may be given once: `slot` is where its value goes. -/
def once (given : S → Option α) (item : Reader α) (store : α → S → S) : Member S := fun state =>
  match given state with
  | some _ => .error .mistyped
  | none => .ok (return store (← item) state)

/-- A member that the record does not know. -/
def unknownMember : Member S := fun state => .ok (do skipValue; return state)

/-- The members that are left of an object, whose closing brace stays. -/
def membersWith (member : String → Member S) : Nat → Bool → S → Reader S
  | 0, _, _ => throw .truncated
  | fuel + 1, first, state => do
      let c ← start
      if c = '\x7d' then return state
      if !first then
        if c ≠ ',' then throw .malformed
        skipChar
      if (← start) ≠ '"' then throw .malformed
      let key ← string
      match member key state with
      | .error defect => throw defect
      | .ok value =>
          if (← start) ≠ ':' then throw .malformed
          skipChar
          membersWith member fuel false (← value)

/-- A record, written as an object or as the list of its members in order; `finish` checks that
    nothing is missing. -/
def record (empty : S) (member : String → Member S) (inOrder : S → Reader S)
    (finish : S → Except Defect α) : Reader α := do
  let settle : S → Reader α := fun state =>
    match finish state with
    | .ok a => pure a
    | .error defect => throw defect
  match ← start with
  | '[' =>
      skipChar
      let a ← settle (← inOrder empty)
      endList
      return a
  | '\x7b' =>
      skipChar
      let a ← settle (← membersWith member ((← get).length + 1) true empty)
      skipChar
      return a
  | c => wrongType c

/-! ### Choices -/

/-- One alternative of a choice. -/
inductive Alternative (α : Type) where
  /-- The name alone, or as the only key of an object with the value `null`. -/
  | plain (a : α)
  /-- The name as the only key of an object that holds the content. -/
  | holding (content : Reader α)

/-- One of several alternatives, told apart by name. -/
def choice (alternative : String → Option (Alternative α)) : Reader α := do
  match ← start with
  | '"' =>
      match alternative (← string) with
      | some (.plain a) => return a
      | _ => throw .mistyped
  | '\x7b' =>
      skipChar
      if (← start) ≠ '"' then throw .malformed
      let some chosen := alternative (← string) | throw .mistyped
      if (← start) ≠ ':' then throw .malformed
      skipChar
      let a ← match chosen with
        | .plain a => do null; pure a
        | .holding content => content
      if (← start) = '\x7d' then skipChar else throw .malformed
      return a
  | _ => throw .malformed

/-! ### Documents -/

/-- The value of a whole text, with nothing but gaps around it. -/
def document (value : Reader α) (text : String) : Except Defect α :=
  match (do let a ← value; skipGap; pure a : Reader α).run text.toList with
  | .error defect => .error defect
  | .ok (a, []) => .ok a
  | .ok (_, _ :: _) => .error .malformed

end Reader

end Lineage.Json
