import FrontEnd.Number

/-!
# Outlines

An outline is a heading with outlines below it. It is written as rows, one for each heading,
indented by depth. Where an outline stands for something that has no heading the writing stops
there, and what was written before is kept.
-/

namespace FrontEnd

/-- Values that are no syntax trees. Absence is fine at an optional place, the others nowhere. -/
inductive Alien where
  | absence
  | truth
  | text
  | sequence
  | character
  | token
  | other (typeName : String)
deriving DecidableEq

/-- The names under which such values are reported. -/
def Alien.typeName : Alien → String
  | absence => "NoneType"
  | truth => "bool"
  | text => "str"
  | sequence => "tuple"
  | character => "Char"
  | token => "Token"
  | other typeName => typeName

/-- The wording for an alien in place of a syntax tree. -/
def Alien.message (a : Alien) : String := "not an AST node: " ++ a.typeName

/-- What stops the writing: an alien, or an integer of more digits than are printed. -/
inductive Obstacle where
  | alien (a : Alien)
  | overlong
deriving DecidableEq

def Obstacle.message : Obstacle → String
  | alien a => a.message
  | overlong => "Exceeds the limit (" ++ toString maxIntegerDigits ++
      " digits) for integer string conversion; use sys.set_int_max_str_digits() to increase the limit"

/-- A heading with outlines below it, or an obstacle. -/
inductive Outline where
  | entry (heading : String) (below : List Outline)
  | obstacle (o : Obstacle)

/-- A heading at its depth. -/
structure Row where
  depth : Nat
  heading : String
deriving DecidableEq

/-- The text of a row with its newline. -/
def Row.text (r : Row) : String :=
  String.ofList (List.replicate (2 * r.depth) ' ') ++ r.heading ++ "\n"

/-- Rows written, and the obstacle that stopped the writing if one did. -/
structure Listing where
  rows : List Row
  stop : Option Obstacle
deriving DecidableEq

namespace Listing

/-- Goes on with a second listing unless the first one has stopped. -/
def append (a b : Listing) : Listing :=
  match a.stop with
  | some _ => a
  | none => ⟨a.rows ++ b.rows, b.stop⟩

def text (l : Listing) : String := String.join (l.rows.map Row.text)

end Listing

namespace Outline

/-- An optional part whose absence leaves a mark. -/
def marked : Outline → Outline
  | obstacle (.alien .absence) => entry "-" []
  | o => o

/-- An optional part whose absence leaves nothing. -/
def ifPresent : Outline → List Outline
  | obstacle (.alien .absence) => []
  | o => [o]

/-- Outlines under a heading of their own, unless there are none. -/
def headed (heading : String) : List Outline → List Outline
  | [] => []
  | os => [entry heading os]

mutual

/-- Writes an outline at a depth. -/
def listing (depth : Nat) : Outline → Listing
  | entry heading below => Listing.append ⟨[⟨depth, heading⟩], none⟩ (listingAll (depth + 1) below)
  | obstacle o => ⟨[], some o⟩

def listingAll (depth : Nat) : List Outline → Listing
  | [] => ⟨[], none⟩
  | o :: os => Listing.append (listing depth o) (listingAll depth os)

end

end Outline

end FrontEnd
