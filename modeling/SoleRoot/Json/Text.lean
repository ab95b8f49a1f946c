import SoleRoot.Json.Cursor

/-!
# Reading Strings

Strings with their escapes.

A character that is not a control stands for itself. A backslash starts an
escape: a letter for one of a few characters, or four digits in base sixteen.
A character beyond the first plane takes two such numbers, a leading one and a
trailing one, and neither may stand alone.

A string whose value nobody asks for is only looked through. Then a number has
to have its four digits, and that is all.

## Main definitions

* `readEscape`: An escape, behind its backslash.
* `readText`: A string, behind its opening quote.
* `skipText`: The same, without its value.

## Theorems

* `length_rest_readEscape`, `length_rest_skipEscape`: An escape takes at least
  one character, so a string is read to an end.
-/

namespace SoleRoot

namespace Json

/-- The value of a digit in base sixteen. -/
def hexDigit? (c : Char) : Option Nat :=
  let n := c.toNat
  if '0'.toNat ≤ n ∧ n ≤ '9'.toNat then some (n - '0'.toNat)
  else if 'a'.toNat ≤ n ∧ n ≤ 'f'.toNat then some (n - 'a'.toNat + 10)
  else if 'A'.toNat ≤ n ∧ n ≤ 'F'.toNat then some (n - 'A'.toNat + 10)
  else none

/-- The value of four digits in base sixteen. -/
def hexValue? (cs : List Char) : Option Nat :=
  cs.foldlM (fun n c => (hexDigit? c).map (16 * n + ·)) 0

/-- Read four digits in base sixteen. Four bytes are looked at, whatever they
    are, as long as there are so many. -/
def readHex (c : Cursor) : Except Fault (Nat × Cursor) :=
  let digits := c.rest.take 4
  if Text.byteSize digits < 4 then
    .error ⟨.endOfString, c.offset + Text.byteSize digits⟩
  else
    match hexValue? digits with
    | some n => .ok (n, c.behind digits (c.rest.drop 4))
    | none => .error ⟨.invalidEscape, c.offset + 4⟩

/-- Whether a number is the first of two for one character. -/
def isLeading (n : Nat) : Bool :=
  0xD800 ≤ n && n ≤ 0xDBFF

/-- Whether a number is the second of two for one character. -/
def isTrailing (n : Nat) : Bool :=
  0xDC00 ≤ n && n ≤ 0xDFFF

/-- The character that two numbers stand for. -/
def pairChar (leading trailing : Nat) : Char :=
  Char.ofNat (0x10000 + (leading - 0xD800) * 0x400 + (trailing - 0xDC00))

/-- Read a character of an escape that has to come next. -/
def readEscapeMark (mark : Char) (c : Cursor) : Except Fault Cursor :=
  if c.peek? = some mark then .ok c.next else c.failAtNext .endOfString .endOfEscape

/-- Read a character by its number, behind the letter for that. -/
def readCodePoint (c : Cursor) : Except Fault (Char × Cursor) := do
  let (n, c) ← readHex c
  if isTrailing n then c.fail .loneSurrogate
  else if isLeading n then
    let c ← readEscapeMark '\\' c
    let c ← readEscapeMark 'u' c
    let (m, c) ← readHex c
    if isTrailing m then .ok (pairChar n m, c) else c.fail .loneSurrogate
  else .ok (Char.ofNat n, c)

/-- The character that a letter stands for behind a backslash. -/
def escaped? (c : Char) : Option Char :=
  if c = '"' || c = '\\' || c = '/' then some c
  else if c = 'b' then some '\x08'
  else if c = 'f' then some '\x0c'
  else if c = 'n' then some '\n'
  else if c = 'r' then some '\r'
  else if c = 't' then some '\t'
  else none

/-- Read an escape, behind its backslash. -/
def readEscape (c : Cursor) : Except Fault (Char × Cursor) :=
  match c.rest with
  | [] => c.fail .endOfString
  | x :: _ =>
    if x = 'u' then readCodePoint c.next
    else
      match escaped? x with
      | some y => .ok (y, c.next)
      | none => c.failAhead .invalidEscape

/-- Read an escape for its length only. -/
def skipEscape (c : Cursor) : Except Fault Cursor :=
  match c.rest with
  | [] => c.fail .endOfString
  | x :: _ =>
    if x = 'u' then (readHex c.next).map (·.2)
    else if (escaped? x).isSome then .ok c.next
    else c.failAhead .invalidEscape

theorem length_rest_readHex {c c' : Cursor} {n : Nat} (h : readHex c = .ok (n, c')) :
    c'.rest.length ≤ c.rest.length := by
  simp only [readHex] at h
  split at h
  · simp at h
  · split at h
    · simp only [Except.ok.injEq, Prod.mk.injEq] at h
      simp [← h.2, Cursor.behind]
    · simp at h

theorem length_rest_readEscapeMark {mark : Char} {c c' : Cursor}
    (h : readEscapeMark mark c = .ok c') : c'.rest.length ≤ c.rest.length := by
  simp only [readEscapeMark] at h
  split at h
  · simp only [Except.ok.injEq] at h
    rw [← h, Cursor.length_rest_next]
    omega
  · simp [Cursor.failAtNext, Cursor.failAhead] at h

theorem length_rest_readCodePoint {c c' : Cursor} {x : Char} (h : readCodePoint c = .ok (x, c')) :
    c'.rest.length ≤ c.rest.length := by
  simp only [readCodePoint, bind, Except.bind] at h
  split at h
  · simp at h
  rename_i p hp
  have hlen : p.2.rest.length ≤ c.rest.length := length_rest_readHex hp
  split at h
  · simp [Cursor.fail] at h
  split at h
  · split at h
    · simp at h
    rename_i c₁ h₁
    split at h
    · simp at h
    rename_i c₂ h₂
    split at h
    · simp at h
    rename_i q hq
    have hlen₁ := length_rest_readEscapeMark h₁
    have hlen₂ := length_rest_readEscapeMark h₂
    have hlen₃ : q.2.rest.length ≤ c₂.rest.length := length_rest_readHex hq
    split at h
    · simp only [Except.ok.injEq, Prod.mk.injEq] at h
      rw [← h.2]
      omega
    · simp [Cursor.fail] at h
  · simp only [Except.ok.injEq, Prod.mk.injEq] at h
    rw [← h.2]
    exact hlen

theorem length_rest_readEscape {c c' : Cursor} {x : Char} (h : readEscape c = .ok (x, c')) :
    c'.rest.length < c.rest.length := by
  unfold readEscape at h
  split at h
  · simp [Cursor.fail] at h
  rename_i y ys hc
  have hnext := Cursor.length_rest_next c
  rw [hc, List.length_cons] at hnext ⊢
  split at h
  · have := length_rest_readCodePoint h
    omega
  · split at h
    · simp only [Except.ok.injEq, Prod.mk.injEq] at h
      rw [← h.2]
      omega
    · simp [Cursor.failAhead] at h

theorem length_rest_skipEscape {c c' : Cursor} (h : skipEscape c = .ok c') :
    c'.rest.length < c.rest.length := by
  unfold skipEscape at h
  split at h
  · simp [Cursor.fail] at h
  rename_i y ys hc
  have hnext := Cursor.length_rest_next c
  rw [hc, List.length_cons] at hnext ⊢
  split at h
  · cases hr : readHex c.next with
    | error f => simp [hr, Except.map] at h
    | ok p =>
        have : p.2.rest.length ≤ c.next.rest.length := length_rest_readHex hr
        simp only [hr, Except.map, Except.ok.injEq] at h
        rw [← h]
        omega
  · split at h
    · simp only [Except.ok.injEq] at h
      rw [← h]
      omega
    · simp [Cursor.failAhead] at h

/-- Read a string, behind its opening quote. -/
def readText (c : Cursor) : Except Fault (List Char × Cursor) :=
  match _hc : c.rest with
  | [] => c.fail .endOfString
  | x :: xs =>
    let after := c.behind [x] xs
    if x = '"' then .ok ([], after)
    else if x = '\\' then
      match _he : readEscape after with
      | .error f => .error f
      | .ok (y, behind) => (readText behind).map fun (ys, c) => (y :: ys, c)
    else if x.toNat < 32 then c.failAhead .controlCharacter
    else (readText after).map fun (ys, c) => (x :: ys, c)
termination_by c.rest.length
decreasing_by
  · have h := length_rest_readEscape _he
    have ha : after.rest.length = xs.length := rfl
    rw [_hc, List.length_cons]
    omega
  · rw [_hc, List.length_cons]
    exact Nat.lt_succ_self xs.length

/-- Look through a string, behind its opening quote. -/
def skipText (c : Cursor) : Except Fault Cursor :=
  match _hc : c.rest with
  | [] => c.fail .endOfString
  | x :: xs =>
    let after := c.behind [x] xs
    if x = '"' then .ok after
    else if x = '\\' then
      match _he : skipEscape after with
      | .error f => .error f
      | .ok behind => skipText behind
    else if x.toNat < 32 then c.fail .controlCharacter
    else skipText after
termination_by c.rest.length
decreasing_by
  · have h := length_rest_skipEscape _he
    have ha : after.rest.length = xs.length := rfl
    rw [_hc, List.length_cons]
    omega
  · rw [_hc, List.length_cons]
    exact Nat.lt_succ_self xs.length

/-- Read a string, behind its opening quote, as a text. -/
def readQuoted (c : Cursor) : Except Fault (String × Cursor) :=
  (readText c).map fun (cs, c) => (String.ofList cs, c)

end Json

end SoleRoot
