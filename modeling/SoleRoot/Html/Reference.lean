import SoleRoot.Html.Reference.LowerNames
import SoleRoot.Html.Reference.UpperNames

/-!
# References in HTML

Decoding what stands behind an ampersand.

A reference is a number or a name. Numbers never fail once they have a digit:
those that no character has become the replacement character, and those of a
legacy code page become what that page meant. Of names the longest known one
counts. An ampersand that starts neither stands for itself, which is what
`none` means throughout.

In an attribute value, a name without its semicolon is no reference when a
letter, a digit or an equals sign follows, because such text is meant for the
query part of an address.

## Main definitions

* `Decoded`: The characters of a reference and what follows it.
* `readNumbered?`, `readNamed?`, `read?`: Reading a reference.
* `decodeValue`: An attribute value with its references decoded.

## Theorems

* `suffix_of_read?`: What follows a reference is the end of the text.
-/

namespace SoleRoot

namespace Html

namespace Reference

/-- A decoded reference. -/
structure Decoded where
  characters : List Char
  /-- Whether the reference has its semicolon. -/
  complete : Bool
  rest : List Char
  deriving DecidableEq, Repr

/-- The character that stands in for what no text may hold. -/
def replacement : Char := '\uFFFD'

/-- What the numbers from 128 to 159 mean: the characters that a legacy code
    page has there, where it has one. -/
def legacyPage : List Nat :=
  [0x20AC, 0x81, 0x201A, 0x192, 0x201E, 0x2026, 0x2020, 0x2021, 0x2C6, 0x2030, 0x160, 0x2039,
    0x152, 0x8D, 0x17D, 0x8F, 0x90, 0x2018, 0x2019, 0x201C, 0x201D, 0x2022, 0x2013, 0x2014,
    0x2DC, 0x2122, 0x161, 0x203A, 0x153, 0x9D, 0x17E, 0x178]

/-- The character of a number. -/
def numbered (n : Nat) : Char :=
  let n := if 128 ≤ n then legacyPage.getD (n - 128) n else n
  if n = 0 ∨ ¬ n.isValidChar then replacement else Char.ofNat n

/-- The value of a digit, in base sixteen or ten. -/
def digitValue? (hexadecimal : Bool) (c : Char) : Option Nat :=
  if '0' ≤ c ∧ c ≤ '9' then some (c.toNat - '0'.toNat)
  else if hexadecimal ∧ 'a' ≤ c ∧ c ≤ 'f' then some (c.toNat - 'a'.toNat + 10)
  else if hexadecimal ∧ 'A' ≤ c ∧ c ≤ 'F' then some (c.toNat - 'A'.toNat + 10)
  else none

/-- The number that digits stand for, in base sixteen or ten. -/
def numberOf (hexadecimal : Bool) (digits : List Char) : Nat :=
  digits.foldl
    (fun n c => n * (if hexadecimal then 16 else 10) + (digitValue? hexadecimal c).getD 0) 0

/-- A semicolon taken from the front of a text, if there is one. -/
def readSemicolon : List Char → Bool × List Char
  | ';' :: cs => (true, cs)
  | cs => (false, cs)

/-- The numbered reference whose digits start a text. -/
def readDigits? (hexadecimal : Bool) (cs : List Char) : Option Decoded :=
  let digits := cs.takeWhile fun c => (digitValue? hexadecimal c).isSome
  if digits.isEmpty then none
  else
    let (complete, rest) := readSemicolon (cs.drop digits.length)
    some ⟨[numbered (numberOf hexadecimal digits)], complete, rest⟩

/-- The numbered reference behind a number sign. -/
def readNumbered? : List Char → Option Decoded
  | [] => none
  | c :: cs => if c = 'x' ∨ c = 'X' then readDigits? true cs else readDigits? false (c :: cs)

/-- The known names that start with a letter. -/
def namesOf (c : Char) : List (String × List Nat) :=
  if c.isUpper then upperNames c else lowerNames c

/-- The longer of the best name so far and another. -/
def longer (best : Option (List Char × List Nat)) (name : List Char) (numbers : List Nat) :
    Option (List Char × List Nat) :=
  match best with
  | none => some (name, numbers)
  | some (other, _) => if other.length < name.length then some (name, numbers) else best

/-- The longest known name at the start of a text, and its characters' numbers. -/
def longestName? (cs : List Char) : Option (List Char × List Nat) :=
  match cs with
  | [] => none
  | c :: _ =>
    (namesOf c).foldl
      (fun best entry =>
        if entry.1.toList.isPrefixOf cs then longer best entry.1.toList entry.2 else best)
      none

/-- Whether a character behind a name without semicolon makes it plain text in
    an attribute value. -/
def continuesQuery (cs : List Char) : Bool :=
  match cs with
  | [] => false
  | c :: _ => c = '=' || c.isAlphanum

/-- The named reference at the start of a text. -/
def readNamed? (inAttribute : Bool) (cs : List Char) : Option Decoded :=
  match longestName? cs with
  | none => none
  | some (name, numbers) =>
    let rest := cs.drop name.length
    let complete := name.getLast? = some ';'
    if inAttribute && !complete && continuesQuery rest then none
    else some ⟨numbers.map Char.ofNat, complete, rest⟩

/-- The reference behind an ampersand, or nothing if the ampersand stands for
    itself. -/
def read? (inAttribute : Bool) (cs : List Char) : Option Decoded :=
  match cs with
  | [] => none
  | c :: rest => if c = '#' then readNumbered? rest else readNamed? inAttribute cs

theorem readSemicolon_suffix (cs : List Char) : (readSemicolon cs).2 <:+ cs := by
  unfold readSemicolon
  split
  · exact List.suffix_cons _ _
  · exact List.suffix_refl _

theorem suffix_of_readDigits? {hexadecimal : Bool} {cs : List Char} {d : Decoded}
    (h : readDigits? hexadecimal cs = some d) : d.rest <:+ cs := by
  simp only [readDigits?] at h
  split at h
  · simp at h
  · simp only [Option.some.injEq] at h
    rw [← h]
    exact (readSemicolon_suffix _).trans (List.drop_suffix _ _)

/-- What follows a reference is the end of the text. -/
theorem suffix_of_read? {inAttribute : Bool} {cs : List Char} {d : Decoded}
    (h : read? inAttribute cs = some d) : d.rest <:+ cs := by
  unfold read? at h
  split at h
  · simp at h
  · rename_i c rest
    split at h
    · unfold readNumbered? at h
      split at h
      · simp at h
      · rename_i c' rest'
        have hskip := List.suffix_cons c (c' :: rest')
        split at h
        · exact ((suffix_of_readDigits? h).trans (List.suffix_cons _ _)).trans hskip
        · exact (suffix_of_readDigits? h).trans hskip
    · unfold readNamed? at h
      split at h
      · simp at h
      · dsimp only at h
        split at h
        · simp at h
        · simp only [Option.some.injEq] at h
          rw [← h]
          exact List.drop_suffix _ _

/-- An attribute value with its references decoded, and the replacement
    character for each null character. -/
def decodeValue (cs : List Char) : List Char :=
  match cs with
  | [] => []
  | c :: cs =>
    if c = '&' then
      match h : read? true cs with
      | some d =>
        have := (suffix_of_read? h).length_le
        d.characters ++ decodeValue d.rest
      | none => c :: decodeValue cs
    else (if c = '\x00' then replacement else c) :: decodeValue cs
termination_by cs.length

end Reference

end Html

end SoleRoot
