import SoleRoot.Markup.Node
import SoleRoot.Faithful.Spelling
import SoleRoot.Faithful.Reference

/-!
# Attributes of a Start Tag

Two readings of what follows the name in a start tag.

`declarations` is the strict one. It accepts or refuses: keys must be followed
by an equals sign, values must be quoted, no key may come twice, and a value
may hold no opening angle bracket and only known references. White space is
that of strict markup.

`scan` is the one that keeps spelling. It runs only on text that the strict
reading has accepted and so never refuses, and it records the white space
around each part. Its white space is any blank character, which is why the two
readings are kept apart: a blank character that strict markup does not count as
white space belongs to a key for the one and ends it for the other.

## Main definitions

* `AttributeFault`: What can be wrong with an attribute.
* `Declaration`, `declarations`: The strict reading.
* `scan`: The reading that keeps spelling.

## Theorems

* `length_lt_of_nextDeclaration`: Each declaration uses up text.
* `length_scanOne_lt`: Each scanned attribute uses up text.
-/

namespace SoleRoot

namespace Faithful

/-- What can be wrong with an attribute. Positions count bytes from the start
    of the tag's name. -/
inductive AttributeFault where
  /-- No equals sign follows the key; something else stands at `position`. -/
  | noEquals (position : Nat)
  /-- The key at `position` was already declared at `first`. -/
  | repeated (position first : Nat)
  /-- The tag ends behind the equals sign. -/
  | noValue (position : Nat)
  /-- The value at `position` is not quoted. -/
  | unquoted (position : Nat)
  /-- The tag ends inside the value. -/
  | unclosed (position : Nat) (quote : Quote)
  /-- The value of `key` holds an opening angle bracket. -/
  | angleBracket (key : String)
  /-- The value of `key` holds a faulty reference. -/
  | reference (key : String) (fault : ReferenceFault)
  deriving DecidableEq, Repr

namespace AttributeFault

/-- The cause in words. -/
def message : AttributeFault → String
  | noEquals position =>
    s!"invalid attribute: position {position}: attribute key must be directly followed by " ++
      "`=` or space"
  | repeated position first =>
    s!"invalid attribute: position {position}: duplicated attribute, " ++
      s!"previous declaration at position {first}"
  | noValue position =>
    s!"invalid attribute: position {position}: `=` must be followed by an attribute value"
  | unquoted position =>
    s!"invalid attribute: position {position}: attribute value must be enclosed in " ++
      "`\"` or `'`"
  | unclosed position quote =>
    s!"invalid attribute: position {position}: missing closing quote " ++
      s!"`{quote.toChar}` in attribute value"
  | angleBracket key => s!"unescaped '<' in value of attribute '{key}'"
  | reference key fault => s!"invalid value of attribute '{key}': {fault.message}"

end AttributeFault

/-- An attribute as the strict reading finds it. -/
structure Declaration where
  key : List Char
  value : List Char
  quote : Quote
  /-- The byte at which the key starts. -/
  position : Nat
  deriving DecidableEq, Repr

namespace Declaration

/-- The check of a value: no opening angle bracket, and only known
    references. -/
def check (d : Declaration) : Except AttributeFault Unit :=
  if '<' ∈ d.value then .error (.angleBracket (String.ofList d.key))
  else (Faithful.check d.value).mapError (.reference (String.ofList d.key))

end Declaration

/-- Whether a character behind the first of a key belongs to it. The first may
    be any character but white space. -/
def isKeyChar (c : Char) : Bool :=
  c ≠ '=' && !Text.isXmlSpace c

/-- The value behind an equals sign, its quote, and what follows it. Text ends
    at byte `stop`. -/
def nextValue (stop : Nat) (cs : List Char) :
    Except AttributeFault (Quote × List Char × List Char) :=
  match cs.dropWhile Text.isXmlSpace with
  | [] => .error (.noValue stop)
  | c :: cs =>
    match Quote.ofChar? c with
    | none => .error (.unquoted (stop - Text.byteSize (c :: cs)))
    | some quote =>
      match cs.dropWhile (· ≠ c) with
      | [] => .error (.unclosed stop quote)
      | _ :: rest => .ok (quote, cs.takeWhile (· ≠ c), rest)

/-- The next declaration of a text that ends at byte `stop`, and what follows
    it; nothing if only white space is left. -/
def nextDeclaration (stop : Nat) (seen : List Declaration) (cs : List Char) :
    Except AttributeFault (Option (Declaration × List Char)) :=
  match cs.dropWhile Text.isXmlSpace with
  | [] => .ok none
  | c :: cs =>
    let position := stop - Text.byteSize (c :: cs)
    let key := c :: cs.takeWhile isKeyChar
    match (cs.dropWhile isKeyChar).dropWhile Text.isXmlSpace with
    | '=' :: rest =>
      match seen.find? (·.key = key) with
      | some first => .error (.repeated position first.position)
      | none => do
        let (quote, value, rest) ← nextValue stop rest
        .ok (some (⟨key, value, quote, position⟩, rest))
    | after => .error (.noEquals (stop - Text.byteSize after))

theorem length_lt_of_nextValue {stop : Nat} {cs value rest : List Char} {quote : Quote}
    (h : nextValue stop cs = .ok (quote, value, rest)) : rest.length < cs.length := by
  have hd := (List.dropWhile_suffix Text.isXmlSpace (l := cs)).length_le
  unfold nextValue at h
  split at h
  · simp at h
  · rename_i c cs' heq
    rw [heq] at hd
    split at h
    · simp at h
    · have hq := (List.dropWhile_suffix (· ≠ c) (l := cs')).length_le
      split at h
      · simp at h
      · rename_i d r heq'
        rw [heq'] at hq
        simp only [Except.ok.injEq, Prod.mk.injEq] at h
        obtain ⟨_, _, rfl⟩ := h
        simp only [List.length_cons] at hd hq
        omega

/-- A declaration takes at least its equals sign from the text. -/
theorem length_lt_of_nextDeclaration {stop : Nat} {seen : List Declaration}
    {cs rest : List Char} {d : Declaration}
    (h : nextDeclaration stop seen cs = .ok (some (d, rest))) : rest.length < cs.length := by
  have hd := (List.dropWhile_suffix Text.isXmlSpace (l := cs)).length_le
  unfold nextDeclaration at h
  split at h
  · simp at h
  · rename_i c cs' heq
    rw [heq] at hd
    have hk := (List.dropWhile_suffix isKeyChar (l := cs')).length_le
    have hs := (List.dropWhile_suffix Text.isXmlSpace
      (l := cs'.dropWhile isKeyChar)).length_le
    split at h
    · rename_i r heq'
      rw [heq'] at hs
      dsimp only at h
      split at h
      · simp at h
      · cases hv : nextValue stop r with
        | error e => simp [hv, bind, Except.bind] at h
        | ok p =>
            obtain ⟨q, v, r'⟩ := p
            simp only [hv, bind, Except.bind, Except.ok.injEq, Option.some.injEq,
              Prod.mk.injEq] at h
            obtain ⟨_, rfl⟩ := h
            have := length_lt_of_nextValue hv
            simp only [List.length_cons] at hs hd
            omega
    · simp at h

/-- The declarations of a text that ends at byte `stop`, each checked before
    the next is read. `seen` are those read before. -/
def declarationsFrom (stop : Nat) (seen : List Declaration) (cs : List Char) :
    Except AttributeFault (List Declaration) :=
  match h : nextDeclaration stop seen cs with
  | .error fault => .error fault
  | .ok none => .ok seen
  | .ok (some (d, rest)) =>
    have := length_lt_of_nextDeclaration h
    match d.check with
    | .error fault => .error fault
    | .ok () => declarationsFrom stop (seen ++ [d]) rest
termination_by cs.length

/-- The strict reading of a start tag: the declarations behind its name, or the
    first fault. `nameSize` is the number of bytes of the name. -/
def declarations (nameSize : Nat) (cs : List Char) : Except AttributeFault (List Declaration) :=
  declarationsFrom (nameSize + Text.byteSize cs) [] cs

/-- The text behind one equals sign, if the text starts with one. -/
def skipEquals : List Char → List Char
  | '=' :: cs => cs
  | cs => cs

/-- A value with its quote, and what follows it. A value that is not quoted
    runs to the next blank character. -/
def scanValue (cs : List Char) : Quote × List Char × List Char :=
  match cs with
  | [] => (.double, [], [])
  | c :: rest =>
    match Quote.ofChar? c with
    | some quote =>
      (quote, rest.takeWhile (· ≠ c), (rest.dropWhile (· ≠ c)).drop 1)
    | none =>
      (.double, (c :: rest).takeWhile (!Text.isBlank ·), (c :: rest).dropWhile (!Text.isBlank ·))

/-- Whether a character belongs to an attribute's name when spelling is kept. -/
def isNameChar (c : Char) : Bool :=
  c ≠ '=' && !Text.isBlank c

/-- The attribute at the start of a text, white space `leading` before it, and
    what follows it. -/
def scanOne (leading cs : List Char) : Attribute × List Char :=
  let afterName := cs.dropWhile isNameChar
  let beforeValue := (skipEquals (afterName.dropWhile Text.isBlank)).dropWhile Text.isBlank
  let separator := afterName.take (afterName.length - beforeValue.length)
  let scanned := scanValue beforeValue
  ({ name := String.ofList (cs.takeWhile isNameChar)
     value := String.ofList scanned.2.1
     quote := scanned.1
     leading := unusual? [' '] leading
     separator := unusual? ['='] separator }, scanned.2.2)

theorem length_skipEquals_le (cs : List Char) : (skipEquals cs).length ≤ cs.length := by
  unfold skipEquals
  split <;> simp

theorem length_scanValue_le (cs : List Char) : (scanValue cs).2.2.length ≤ cs.length := by
  unfold scanValue
  split
  · simp
  · rename_i c rest
    have hq := (List.dropWhile_suffix (· ≠ c) (l := rest)).length_le
    have hb := (List.dropWhile_suffix (!Text.isBlank ·) (l := c :: rest)).length_le
    split
    · simp only [List.length_drop, List.length_cons]
      omega
    · exact hb

/-- An attribute takes a character of its name or an equals sign. -/
theorem length_scanOne_lt (leading : List Char) {c : Char} (hc : Text.isBlank c = false)
    (cs : List Char) : (scanOne leading (c :: cs)).2.length < (c :: cs).length := by
  have hv := length_scanValue_le ((skipEquals (((c :: cs).dropWhile isNameChar).dropWhile
    Text.isBlank)).dropWhile Text.isBlank)
  have hb := (List.dropWhile_suffix Text.isBlank (l := skipEquals (((c :: cs).dropWhile
    isNameChar).dropWhile Text.isBlank))).length_le
  have he : (skipEquals (((c :: cs).dropWhile isNameChar).dropWhile Text.isBlank)).length <
      (c :: cs).length := by
    by_cases heq : c = '='
    · have : isNameChar c = false := by simp [isNameChar, heq]
      rw [List.dropWhile_cons_of_neg (by simp [this]), List.dropWhile_cons_of_neg (by simp [hc]),
        heq]
      simp [skipEquals]
    · have : isNameChar c = true := by simp [isNameChar, heq, hc]
      rw [List.dropWhile_cons_of_pos this]
      have h1 := (List.dropWhile_suffix isNameChar (l := cs)).length_le
      have h2 := (List.dropWhile_suffix Text.isBlank (l := cs.dropWhile isNameChar)).length_le
      have h3 := length_skipEquals_le ((cs.dropWhile isNameChar).dropWhile Text.isBlank)
      simp only [List.length_cons]
      omega
  exact Nat.lt_of_le_of_lt (Nat.le_trans hv hb) he

/-- The reading that keeps spelling: the attributes behind the name of a start
    tag, and the white space at the end. -/
def scan (cs : List Char) : List Attribute × Option String :=
  match h : cs.dropWhile Text.isBlank with
  | [] => ([], unusual? [] cs)
  | c :: rest =>
    let one := scanOne (cs.takeWhile Text.isBlank) (c :: rest)
    have hlt : one.2.length < cs.length := by
      have hc : Text.isBlank c = false := by
        have := List.head?_dropWhile_not Text.isBlank cs
        rw [h] at this
        simpa using this
      have h1 := length_scanOne_lt (cs.takeWhile Text.isBlank) hc rest
      have h2 := (List.dropWhile_suffix Text.isBlank (l := cs)).length_le
      rw [h] at h2
      exact Nat.lt_of_lt_of_le h1 h2
    let (attributes, trailing) := scan one.2
    (one.1 :: attributes, trailing)
termination_by cs.length

end Faithful

end SoleRoot
