/-!
# Characters of the language

The classes that decide how source text is cut into tokens, and the escapes of character and
string literals. Names and numbers are ASCII only; every other character can stand in a literal
or form an operator of its own.
-/

namespace FrontEnd

/-- One of the ten ASCII digits. -/
def isDigit (c : Char) : Bool := c.isDigit

/-- An ASCII letter, a digit or an underscore. -/
def isWordChar (c : Char) : Bool := c.isAlphanum || c == '_'

/-- A name starts with a word character that is no digit. -/
def isIdentifierStart (c : Char) : Bool := isWordChar c && !isDigit c

/-- A name goes on with word characters and hyphens. -/
def isIdentifierChar (c : Char) : Bool := isWordChar c || c == '-'

/-- The four characters that may stand between two tokens. -/
def isBlank (c : Char) : Bool := c == ' ' || c == '\t' || c == '\n' || c == '\r'

/-- A sign in front of a number; alone it is an operator. -/
def isSign (c : Char) : Bool := c == '+' || c == '-'

/-- The character that a backslash and this letter stand for. -/
def escape? : Char → Option Char
  | 'b' => some '\x08'
  | 'n' => some '\n'
  | 'r' => some '\r'
  | 't' => some '\t'
  | '\'' => some '\''
  | '"' => some '"'
  | '\\' => some '\\'
  | _ => none

/-- A letter that may follow a backslash. -/
def isEscapeLetter (c : Char) : Bool := (escape? c).isSome

/-- Spacing characters of Unicode, together with the information separators. None of them can be
an operator. -/
def isSpace (c : Char) : Bool :=
  let n := c.toNat
  (0x09 ≤ n && n ≤ 0x0D) || (0x1C ≤ n && n ≤ 0x20) || n == 0x85 || n == 0xA0 || n == 0x1680 ||
    (0x2000 ≤ n && n ≤ 0x200A) || n == 0x2028 || n == 0x2029 || n == 0x202F || n == 0x205F ||
    n == 0x3000

/-- The four ASCII control characters that separate files, groups, records and units. -/
def isInformationSeparator (c : Char) : Bool := 0x1C ≤ c.toNat && c.toNat ≤ 0x1F

/-- The named classes of characters. -/
inductive CharacterClass where
  | digit
  | word
  | identifierStart
  | identifierChar
  | blank
  | escapeLetter
deriving DecidableEq

/-- The text without the characters of a class at its end. -/
def trimEnd (p : Char → Bool) (cs : List Char) : List Char := (cs.reverse.dropWhile p).reverse

namespace CharacterClass

def has : CharacterClass → Char → Bool
  | digit => isDigit
  | word => isWordChar
  | identifierStart => isIdentifierStart
  | identifierChar => isIdentifierChar
  | blank => isBlank
  | escapeLetter => isEscapeLetter

/-- The members of a class by code point. Every class is ASCII. -/
def members (k : CharacterClass) : List Char := ((List.range 128).map Char.ofNat).filter k.has

/-- A text is in a class when it is one character and that character is. -/
def hasText (k : CharacterClass) (text : String) : Bool :=
  match text.toList with
  | [c] => k.has c
  | _ => false

end CharacterClass

theorem isSpace_of_isBlank {c : Char} (h : isBlank c = true) : isSpace c = true := by
  simp only [isBlank, Bool.or_eq_true, beq_iff_eq] at h
  rcases h with ((rfl | rfl) | rfl) | rfl <;> decide

theorem isWordChar_of_isDigit {c : Char} (h : isDigit c = true) : isWordChar c = true := by
  have hd : c.isDigit = true := h
  unfold isWordChar
  delta Char.isAlphanum
  rw [hd, Bool.or_true, Bool.true_or]

theorem toNat_lt_of_isWordChar {c : Char} (h : isWordChar c = true) : c.toNat < 128 := by
  unfold isWordChar at h
  delta Char.isAlphanum Char.isAlpha Char.isUpper Char.isLower Char.isDigit at h
  simp only [Bool.or_eq_true, Bool.and_eq_true, decide_eq_true_eq, beq_iff_eq, ge_iff_le,
    UInt32.le_iff_toNat_le] at h
  have : c.toNat = c.val.toNat := rfl
  have : 'Z'.val.toNat = 90 := rfl
  have : 'z'.val.toNat = 122 := rfl
  have : '9'.val.toNat = 57 := rfl
  rcases h with h | rfl
  · omega
  · decide

namespace CharacterClass

theorem toNat_lt_of_has {k : CharacterClass} {c : Char} (h : k.has c = true) : c.toNat < 128 := by
  cases k with
  | digit => exact toNat_lt_of_isWordChar (isWordChar_of_isDigit h)
  | word => exact toNat_lt_of_isWordChar h
  | identifierStart => exact toNat_lt_of_isWordChar (by simp_all [has, isIdentifierStart])
  | identifierChar =>
    simp only [has, isIdentifierChar, Bool.or_eq_true, beq_iff_eq] at h
    rcases h with h | rfl
    · exact toNat_lt_of_isWordChar h
    · decide
  | blank =>
    simp only [has, isBlank, Bool.or_eq_true, beq_iff_eq] at h
    rcases h with ((rfl | rfl) | rfl) | rfl <;> decide
  | escapeLetter =>
    simp only [has, isEscapeLetter] at h
    unfold escape? at h
    split at h <;> first | decide | simp at h

theorem mem_members {k : CharacterClass} {c : Char} : c ∈ k.members ↔ k.has c = true := by
  simp only [members, List.mem_filter, List.mem_map, List.mem_range, and_iff_right_iff_imp]
  exact fun h => ⟨c.toNat, toNat_lt_of_has h, Char.ofNat_toNat c⟩

end CharacterClass

end FrontEnd
