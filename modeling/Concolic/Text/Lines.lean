/-! # Lines of a file

A line feed ends a line, and one carriage return before it belongs to the ending. The bytes behind
the last line feed are a line too, unless there are none. -/

namespace Concolic

/-- The byte that ends a line. -/
def lineFeed : UInt8 := 10

/-- The byte that may stand before the end of a line. -/
def carriageReturn : UInt8 := 13

/-- The bytes up to each line feed, and those behind the last one unless there are none, with
whether a line feed follows. -/
def splitLines : List UInt8 → List (List UInt8 × Bool)
  | [] => []
  | b :: bs =>
    if b = lineFeed then ([], true) :: splitLines bs
    else
      match splitLines bs with
      | [] => [([b], false)]
      | (line, ended) :: rest => (b :: line, ended) :: rest

/-- A line without the carriage return that belongs to its ending. -/
def trimEnding (line : List UInt8 × Bool) : List UInt8 :=
  if line.2 ∧ line.1.getLast? = some carriageReturn then line.1.dropLast else line.1

/-- The lines of a file. -/
def linesOf (bytes : List UInt8) : List (List UInt8) := (splitLines bytes).map trimEnding

end Concolic
