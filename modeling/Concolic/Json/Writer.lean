import Concolic.Json.Quoted
import Concolic.OrderedMap
import Concolic.Text.Decimal

/-! # Writing JSON values

Values are written over several lines: two spaces more for each container, one item or member to a
line, and empty containers on one line. -/

namespace Concolic
namespace Json

/-! ## Numbers -/

/-- A double with its shortest digits: positional where the point falls within sixteen digits, or
less than five zeros follow it, and in scientific notation otherwise. There is no text for what is
no finite number. -/
def floatText (x : Binary64) : List Char :=
  if x.isNaN || x.isInfinite then ['n', 'u', 'l', 'l']
  else
    let sign := if x.negative then ['-'] else []
    let (n, exponent) := x.shortest
    let digits := Decimal.ofNat n
    let point : Int := digits.length + exponent
    let body :=
      if n = 0 then ['0', '.', '0']
      else if 0 ≤ exponent ∧ point ≤ 16 then
        digits ++ List.replicate exponent.toNat '0' ++ ['.', '0']
      else if 0 < point ∧ point ≤ 16 then
        digits.take point.toNat ++ '.' :: digits.drop point.toNat
      else if -5 < point ∧ point ≤ 0 then
        ['0', '.'] ++ List.replicate (-point).toNat '0' ++ digits
      else if digits.length = 1 then digits ++ 'e' :: Decimal.ofInt (point - 1)
      else digits.take 1 ++ '.' :: digits.drop 1 ++ 'e' :: Decimal.ofInt (point - 1)
    sign ++ body

/-! ## Values -/

/-- A new line with its indentation at a `depth` of nesting. -/
def newLine (depth : Nat) : List Char := '\n' :: List.replicate (2 * depth) ' '

mutual

/-- A value as text at a `depth` of nesting. -/
def pretty (depth : Nat) : Json → List Char
  | .null => ['n', 'u', 'l', 'l']
  | .bool true => ['t', 'r', 'u', 'e']
  | .bool false => ['f', 'a', 'l', 's', 'e']
  | .int n => Decimal.ofInt n
  | .float x => floatText x
  | .string text => quote text.toList
  | .array [] => ['[', ']']
  | .array (v :: vs) =>
    '[' :: newLine (depth + 1) ++ pretty (depth + 1) v ++ prettyItems (depth + 1) vs
      ++ newLine depth ++ [']']
  | .object [] => ['\x7b', '\x7d']
  | .object ((key, v) :: members) =>
    '\x7b' :: newLine (depth + 1) ++ quote key.toList ++ ':' :: ' ' :: pretty (depth + 1) v
      ++ prettyMembers (depth + 1) members ++ newLine depth ++ ['\x7d']

/-- The items of an array behind its first. -/
def prettyItems (depth : Nat) : List Json → List Char
  | [] => []
  | v :: vs => ',' :: newLine depth ++ pretty depth v ++ prettyItems depth vs

/-- The members of an object behind its first. -/
def prettyMembers (depth : Nat) : List (String × Json) → List Char
  | [] => []
  | (key, v) :: members =>
    ',' :: newLine depth ++ quote key.toList ++ ':' :: ' ' :: pretty depth v
      ++ prettyMembers depth members

end

/-- A value as text. -/
def write (v : Json) : List Char := pretty 0 v

/-! ## Members in key order -/

/-- The members of an object in increasing order of the keys, the last one of each key. -/
def sortMembers (members : List (String × Json)) : List (String × Json) :=
  members.foldl (fun sorted m => OrderedMap.insertEntry m.1 m.2 sorted) []

mutual

/-- A value whose objects have their members in key order, at any depth. -/
def sorted : Json → Json
  | .null => .null
  | .bool b => .bool b
  | .int n => .int n
  | .float x => .float x
  | .string text => .string text
  | .array items => .array (sortedItems items)
  | .object members => .object (sortMembers (sortedValues members))

/-- Items whose objects have their members in key order. -/
def sortedItems : List Json → List Json
  | [] => []
  | v :: vs => sorted v :: sortedItems vs

/-- Members whose objects have their members in key order. -/
def sortedValues : List (String × Json) → List (String × Json)
  | [] => []
  | (key, v) :: members => (key, sorted v) :: sortedValues members

end

end Json
end Concolic
