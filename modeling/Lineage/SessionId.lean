/-!
# Session identities

A session is identified by 128 bits, written as 32 hexadecimal digits in groups of eight, four, four,
four and twelve. Reading also takes the digits without hyphens, and the grouped form inside braces or
after `urn:uuid:`; letters may be of either case everywhere.
-/

namespace Lineage

structure SessionId where
  bits : BitVec 128
  deriving DecidableEq, Repr

namespace SessionId

/-- The value of a hexadecimal digit of either case. -/
def digit? (c : Char) : Option Nat :=
  if c.isDigit then some (c.toNat - '0'.toNat)
  else if 'a' ≤ c ∧ c ≤ 'f' then some (c.toNat - 'a'.toNat + 10)
  else if 'A' ≤ c ∧ c ≤ 'F' then some (c.toNat - 'A'.toNat + 10)
  else none

/-- The lengths of the groups of digits between the hyphens. -/
def groups : List Nat := [8, 4, 4, 4, 12]

/-- The 32 digits, most significant first. -/
def digits (id : SessionId) : List Char :=
  (List.range 32).reverse.map fun i => Nat.digitChar ((id.bits.toNat >>> (4 * i)) % 16)

/-- Cuts `cs` into pieces of the given lengths. -/
def cut : List Nat → List Char → List (List Char)
  | [], _ => []
  | n :: rest, cs => cs.take n :: cut rest (cs.drop n)

/-- The grouped form. -/
def grouped (id : SessionId) : String :=
  String.ofList (['-'].intercalate (cut groups id.digits))

def text (id : SessionId) : String := "session-" ++ id.grouped

/-- The identity written by 32 digits and nothing else. -/
def ofDigits? (cs : List Char) : Option SessionId := do
  if cs.length ≠ 32 then none
  let ds ← cs.mapM digit?
  return ⟨BitVec.ofNat 128 (ds.foldl (fun n d => 16 * n + d) 0)⟩

/-- The digits of the groups that the lengths announce, without the hyphens between them. -/
def ungroup : List Nat → List Char → Option (List Char)
  | [], cs => if cs.isEmpty then some [] else none
  | [n], cs => if cs.length = n then some cs else none
  | n :: rest, cs =>
      match cs.drop n with
      | '-' :: others => (ungroup rest others).map (cs.take n ++ ·)
      | _ => none

def ofGrouped? (cs : List Char) : Option SessionId := (ungroup groups cs).bind ofDigits?

/-- Reads any of the four forms. -/
def parse? (source : String) : Option SessionId :=
  let cs := source.toList
  let scheme := "urn:uuid:".toList
  if cs.length = 32 then ofDigits? cs
  else if scheme.isPrefixOf (cs.map Char.toLower) then ofGrouped? (cs.drop scheme.length)
  else match cs with
    | '\x7b' :: rest =>
        if rest.getLast? = some '\x7d' then ofGrouped? rest.dropLast else none
    | _ => ofGrouped? cs

end SessionId

end Lineage
