import FrontEnd.Character

/-!
# Positions and reports

An offset lies in a source by line and column; lines end at newlines only. A report tells what is
wrong with a source and where. Its text shows the line in question with the offending characters
underlined, or only an offset if the source is not at hand.
-/

namespace FrontEnd

/-- A line and a column, both counted from one, and the offset from zero. -/
structure Position where
  line : Nat
  column : Nat
  offset : Nat
deriving DecidableEq

/-- The position of an offset. Offsets outside the source count as its nearest end. -/
def positionAt (source : String) (offset : Int) : Position :=
  let before := source.toList.take offset.toNat
  { line := before.count '\n' + 1
    column := (before.reverse.takeWhile (· != '\n')).length + 1
    offset := before.length }

/-- The lines of a source without their newlines. -/
def linesOf (source : String) : List (List Char) := source.toList.splitOn '\n'

/-- A line without the carriage returns at its end. -/
def shorn (line : List Char) : List Char := trimEnd (· == '\r') line

/-- Whether the cutting into tokens failed or the reading of the tokens. -/
inductive Stage where
  | lexical
  | syntactic
deriving DecidableEq

/-- A failure at some characters of a source. The source is empty if it is not at hand. -/
structure Report where
  stage : Stage
  message : String
  offset : Int
  length : Int
  source : String
deriving DecidableEq

namespace Report

/-- Where the report points. -/
def position (r : Report) : Position := positionAt r.source r.offset

/-- The line that the report points into, without carriage returns at its end. -/
def shownLine (r : Report) : List Char :=
  shorn ((linesOf r.source).getD (r.position.line - 1) [])

/-- The number of carets: as many as the offending characters on the line, but at least one. -/
def underline (r : Report) : Nat :=
  (max 1 (min r.length (r.shownLine.length - r.position.column + 1))).toNat

def spaces (n : Nat) : String := String.ofList (List.replicate n ' ')

/-- The rows of a report that has its source: the message, the place, an empty row, the line and
the carets below it. Bars separate the line number from the line. -/
def rows (r : Report) (filename : String) : List String :=
  let number := toString r.position.line
  let column := toString r.position.column
  let gutter := spaces (number.length + 1)
  [ "error: " ++ r.message,
    gutter ++ "--> " ++ filename ++ ":" ++ number ++ ":" ++ column,
    gutter ++ "|",
    number ++ " | " ++ String.ofList r.shownLine,
    gutter ++ "| " ++ spaces (r.position.column - 1) ++
      String.ofList (List.replicate r.underline '^') ]

/-- The rows of a report that has no source: the message and the offset. -/
def shortRows (r : Report) (filename : String) : List String :=
  ["error: " ++ r.message, "  --> " ++ filename ++ ":@" ++ toString r.offset]

def text (r : Report) (filename : String) : String :=
  "\n".intercalate (if r.source.isEmpty then r.shortRows filename else r.rows filename)

end Report

/-- The name a source goes by if it has no other. -/
def defaultFilename : String := "input.plc"

end FrontEnd
