/-!
# JSON documents

A document as a tree and the text in which it is written: members in the order given, nothing between
the tokens, and in strings only what has to be escaped.
-/

namespace Lineage.Json

inductive Value where
  | null
  | bool (b : Bool)
  | natural (n : Nat)
  | text (s : String)
  | list (items : List Value)
  | object (members : List (String × Value))

/-- Two lowercase hexadecimal digits of a number below 256. -/
def hexPair (n : Nat) : List Char := [Nat.digitChar (n / 16), Nat.digitChar (n % 16)]

/-- One character of a string. -/
def escapeChar (c : Char) : List Char :=
  if c = '"' then ['\\', '"']
  else if c = '\\' then ['\\', '\\']
  else if c = '\x08' then ['\\', 'b']
  else if c = '\x0c' then ['\\', 'f']
  else if c = '\n' then ['\\', 'n']
  else if c = '\r' then ['\\', 'r']
  else if c = '\t' then ['\\', 't']
  else if c.toNat < 0x20 then ['\\', 'u', '0', '0'] ++ hexPair c.toNat
  else [c]

/-- A string with its quotes. -/
def writeText (s : String) : List Char := '"' :: (s.toList.flatMap escapeChar ++ ['"'])

/-- The parts with a comma between any two. -/
def separated (parts : List (List Char)) : List Char := [','].intercalate parts

mutual

/-- The text of a document. -/
def Value.write : Value → List Char
  | .null => ['n', 'u', 'l', 'l']
  | .bool true => ['t', 'r', 'u', 'e']
  | .bool false => ['f', 'a', 'l', 's', 'e']
  | .natural n => Nat.toDigits 10 n
  | .text s => writeText s
  | .list items => '[' :: (separated (writeItems items) ++ [']'])
  | .object members => '\x7b' :: (separated (writeMembers members) ++ ['\x7d'])

def writeItems : List Value → List (List Char)
  | [] => []
  | item :: rest => item.write :: writeItems rest

def writeMembers : List (String × Value) → List (List Char)
  | [] => []
  | (key, value) :: rest => (writeText key ++ ':' :: value.write) :: writeMembers rest

end

end Lineage.Json
