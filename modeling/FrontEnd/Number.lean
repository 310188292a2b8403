import FrontEnd.Character.Digit

/-!
# Numbers

Integer numerals are `[+-]?[0-9]+(_[0-9]+)*` with any digits and spacing around them, within a limit
on the number of digits. Finite decimals keep the sign, the digits and the exponent they were
written with, so that `1.0` and `1.00` are two decimals of one value. Their printed form is the
plain one, with every fraction digit, unless the number is too small or was written with a positive
exponent. Infinities and results that are not a number have names, in any case when they are read.
-/

namespace FrontEnd

/-- The text without the characters of a class that it starts and ends with. -/
def trimEnds (p : Char → Bool) (cs : List Char) : List Char :=
  trimEnd p (cs.dropWhile p)

/-- An optional sign, and the text after it. -/
def splitSign : List Char → Bool × List Char
  | '-' :: cs => (true, cs)
  | '+' :: cs => (false, cs)
  | cs => (false, cs)

/-- The number that ASCII digits denote. -/
def digitsValue (digits : List Char) : Nat := Nat.ofDigitChars 10 digits 0

theorem dropWhile_eq_self {p : Char → Bool} {cs : List Char} (h : ∀ c ∈ cs.head?, p c = false) :
    cs.dropWhile p = cs := by
  cases cs with
  | nil => rfl
  | cons c cs => rw [List.dropWhile_cons_of_neg (by simp [h c rfl])]

theorem trimEnds_eq_self {p : Char → Bool} {cs : List Char} (first : ∀ c ∈ cs.head?, p c = false)
    (last : ∀ c ∈ cs.getLast?, p c = false) : trimEnds p cs = cs := by
  rw [trimEnds, dropWhile_eq_self first, trimEnd, dropWhile_eq_self (by simpa using last),
    List.reverse_reverse]

theorem map_asciiDigit_eq_self {cs : List Char} (h : ∀ c ∈ cs, c.toNat < 128) :
    cs.map asciiDigit = cs := by
  rw [List.map_congr_left fun c hc => asciiDigit_of_toNat_lt (h c hc), List.map_id']

/-- The longest integer numeral that is read; only its digits count. -/
def maxIntegerDigits : Nat := 4300

/-- Spacing that may surround an integer numeral. -/
def isIntegerMargin (c : Char) : Bool := isSpace c && !isInformationSeparator c

/-- The digits of a numeral in groups, with one underscore between each two groups. -/
def groupedDigits? (cs : List Char) : Option (List Char) :=
  let groups := cs.splitOn '_'
  if groups.all fun g => !g.isEmpty && g.all Char.isDigit then some groups.flatten else none

/-- The number that a numeral denotes, if it is one and not too long. -/
def readInteger? (text : String) : Option Int :=
  let (negative, body) := splitSign ((trimEnds isIntegerMargin text.toList).map asciiDigit)
  match groupedDigits? body with
  | none => none
  | some digits =>
    if maxIntegerDigits < digits.length then none
    else
      let value : Int := digitsValue digits
      some (if negative then -value else value)

/-- A decimal without its sign: `coefficient * 10 ^ exponent`, infinity, or not a number. The
last kind can be signaling, and carries a diagnostic number. -/
inductive Magnitude where
  | finite (coefficient : Nat) (exponent : Int)
  | infinite
  | nan (signaling : Bool) (diagnostic : Nat)
deriving DecidableEq

/-- A magnitude with a sign, which zero has too. -/
structure Decimal where
  negative : Bool
  magnitude : Magnitude
deriving DecidableEq

namespace Magnitude

/-- The greatest power of ten that the first digit of a numeral with an exponent can have. -/
def maxPower : Int := 999999999999999999

/-- The least exponent of a numeral with an exponent. -/
def minExponent : Int := -1999999999999999997

/-- The exponent part of a numeral: `e`, an optional sign and digits. -/
def readExponent? : List Char → Option Int
  | [] => none
  | e :: cs =>
    let (negative, digits) := splitSign cs
    if (e == 'e' || e == 'E') && !digits.isEmpty && digits.all Char.isDigit then
      let value : Int := digitsValue digits
      some (if negative then -value else value)
    else none

/-- The number of digits of a numeral without the zeros in front, at least one. -/
def significantDigits (digits : List Char) : Nat := max 1 (digits.dropWhile (· == '0')).length

/-- Digits with an optional point before, among or after them, and an optional exponent. An
exponent must keep the number in range; without one any number of digits is read. -/
def readFinite? (cs : List Char) : Option Magnitude :=
  let whole := cs.takeWhile Char.isDigit
  let afterWhole := cs.dropWhile Char.isDigit
  let (fraction, tail) :=
    match afterWhole with
    | '.' :: r => (r.takeWhile Char.isDigit, r.dropWhile Char.isDigit)
    | r => ([], r)
  let digits := whole ++ fraction
  if digits.isEmpty then none
  else if tail.isEmpty then some (.finite (digitsValue digits) (-fraction.length))
  else
    match readExponent? tail with
    | none => none
    | some e =>
      let exponent := e - fraction.length
      if minExponent ≤ exponent ∧ exponent + significantDigits digits - 1 ≤ maxPower then
        some (.finite (digitsValue digits) exponent)
      else none

/-- The names of the other magnitudes: `inf` or `infinity`, and `nan` or `snan` with an optional
diagnostic number, in any case. -/
def readName? (cs : List Char) : Option Magnitude :=
  let name := cs.map Char.toLower
  if name = "inf".toList ∨ name = "infinity".toList then some .infinite
  else
    let (signaling, rest) :=
      match name with
      | 's' :: r => (true, r)
      | r => (false, r)
    match rest with
    | 'n' :: 'a' :: 'n' :: digits =>
      if digits.all Char.isDigit then some (.nan signaling (digitsValue digits)) else none
    | _ => none

/-- The power of ten of the first digit. -/
def adjusted (coefficient : Nat) (exponent : Int) : Int :=
  exponent + (Nat.toDigits 10 coefficient).length - 1

/-- Plain notation is for numbers without a positive exponent whose first digit stands at most
six places after the point. -/
def isPlain (coefficient : Nat) (exponent : Int) : Bool :=
  exponent ≤ 0 && -6 ≤ adjusted coefficient exponent

/-- Digits with a point in front of the last `places` of them, and zeros before them where the
point would have no digit on its left. -/
def pointed (digits : List Char) (places : Nat) : List Char :=
  let padded := List.replicate (places + 1 - digits.length) '0' ++ digits
  let whole := padded.take (padded.length - places)
  let fraction := padded.drop (padded.length - places)
  if places = 0 then whole else whole ++ '.' :: fraction

/-- Digits with a point after the first one, and the power of ten with its sign. -/
def scientific (digits : List Char) (power : Int) : List Char :=
  let mantissa :=
    match digits with
    | d :: e :: r => d :: '.' :: e :: r
    | r => r
  let sign := if power < 0 then '-' else '+'
  mantissa ++ 'E' :: sign :: Nat.toDigits 10 power.natAbs

/-- The printed form of a magnitude. A diagnostic number of zero is not shown. -/
def text : Magnitude → List Char
  | finite coefficient exponent =>
    let digits := Nat.toDigits 10 coefficient
    if isPlain coefficient exponent then pointed digits (-exponent).toNat
    else scientific digits (adjusted coefficient exponent)
  | infinite => "Infinity".toList
  | nan signaling diagnostic =>
    let name := if signaling then "sNaN".toList else "NaN".toList
    if diagnostic = 0 then name else name ++ Nat.toDigits 10 diagnostic

end Magnitude

namespace Decimal

/-- Reads an optional sign and a magnitude, with spacing around them. Underscores are passed over
wherever they stand. -/
def read? (text : String) : Option Decimal :=
  let numeral := ((trimEnds isSpace text.toList).filter (· != '_')).map asciiDigit
  let (negative, cs) := splitSign numeral
  (Magnitude.readFinite? cs <|> Magnitude.readName? cs).map fun magnitude => ⟨negative, magnitude⟩

def text (d : Decimal) : String :=
  String.ofList (if d.negative then '-' :: d.magnitude.text else d.magnitude.text)

def ofInt (n : Int) : Decimal := ⟨n < 0, .finite n.natAbs 0⟩

/-- Equality of values. Two finite numbers have one value when the signed coefficients agree once
both have the smaller exponent, and two infinities when the signs agree. What is not a number has
the value of nothing, not even of itself. -/
def sameValue (a b : Decimal) : Bool :=
  match a, b with
  | ⟨s, .finite m e⟩, ⟨t, .finite n f⟩ =>
    let x : Int := if s then -m else m
    let y : Int := if t then -n else n
    x * Nat.pow 10 (e - f).toNat == y * Nat.pow 10 (f - e).toNat
  | ⟨s, .infinite⟩, ⟨t, .infinite⟩ => s == t
  | _, _ => false

end Decimal

end FrontEnd
