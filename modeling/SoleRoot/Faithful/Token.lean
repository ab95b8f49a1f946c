import SoleRoot.Markup.Node
import SoleRoot.Text.Search

/-!
# Tokens of Strict Markup

Cutting a text into tags, texts, comments and the other constructs.

The cut looks only at delimiters. A text run goes up to the next opening angle
bracket, and the character or two behind the bracket decide what the construct
is and which mark ends it. Whether a token is good in itself, and whether tags
match, is not asked here, so every text has exactly one cut: a list of tokens
and, if the last construct does not end, the reason.

A token holds what stands between its delimiters, and `Token.raw` puts the
delimiters back. `eq_of_next` says that cutting loses nothing, and from it
comes that each step uses up text, which is why the cut ends.

## Main definitions

* `Token`, `Token.raw`: A construct and its text.
* `Unterminated`: The ways in which the last construct can fail to end.
* `next`: The first token of a text and what follows it.
* `cut`: All tokens of a text.

## Theorems

* `eq_of_next`: A token and what follows it make up the text.
* `raw_cut`: The tokens of a text that is cut to its end make up the text.
-/

namespace SoleRoot

namespace Faithful

/-- A construct of strict markup: what stands between its delimiters. -/
inductive Token where
  | text (content : List Char)
  | startTag (content : List Char)
  | selfClosingTag (content : List Char)
  | endTag (content : List Char)
  | comment (content : List Char)
  | cdata (content : List Char)
  /-- A document type declaration, its keyword included. -/
  | doctype (content : List Char)
  /-- A processing instruction or a declaration of the markup version. -/
  | instruction (content : List Char)
  deriving DecidableEq, Repr

namespace Token

/-- The text of a token. -/
def raw : Token → List Char
  | text content => content
  | startTag content => '<' :: content ++ ['>']
  | selfClosingTag content => '<' :: content ++ ['/', '>']
  | endTag content => '<' :: '/' :: content ++ ['>']
  | comment content => ['<', '!', '-', '-'] ++ content ++ ['-', '-', '>']
  | cdata content => ['<', '!', '[', 'C', 'D', 'A', 'T', 'A', '['] ++ content ++ [']', ']', '>']
  | doctype content => '<' :: '!' :: content ++ ['>']
  | instruction content => '<' :: '?' :: content ++ ['?', '>']

end Token

/-- The ways in which the last construct of a text can fail to end. -/
inductive Unterminated where
  | tag
  /-- An exclamation mark that starts no known construct. -/
  | markup
  | cdata
  | comment
  | doctype
  | instruction
  deriving DecidableEq, Repr

namespace Unterminated

/-- The cause in words. -/
def message : Unterminated → String
  | tag => "syntax error: tag not closed: `>` not found before end of input"
  | markup => "syntax error: unknown or missed symbol in markup"
  | cdata => "syntax error: CDATA not closed: `]]>` not found before end of input"
  | comment => "syntax error: comment not closed: `-->` not found before end of input"
  | doctype => "syntax error: DOCTYPE not closed: `>` not found before end of input"
  | instruction =>
    "syntax error: processing instruction or xml declaration not closed: " ++
      "`?>` not found before end of input"

end Unterminated

/-- The content of a tag and what follows it. A tag ends at the first closing
    angle bracket outside quotes; `quote` is the quote that is open. -/
def breakTag? : (quote : Option Quote) → List Char → Option (List Char × List Char)
  | _, [] => none
  | none, c :: cs =>
    if c = '>' then some ([], cs)
    else (breakTag? (Quote.ofChar? c) cs).map fun (content, rest) => (c :: content, rest)
  | some quote, c :: cs =>
    (breakTag? (if c = quote.toChar then none else some quote) cs).map
      fun (content, rest) => (c :: content, rest)

/-- The content of a document type and what follows it. It ends at the first
    closing angle bracket that no earlier opening one, of which `depth` are
    open, has claimed. -/
def breakDoctype? : (depth : Nat) → List Char → Option (List Char × List Char)
  | _, [] => none
  | depth, c :: cs =>
    if c = '>' then
      match depth with
      | 0 => some ([], cs)
      | depth + 1 => (breakDoctype? depth cs).map fun (content, rest) => (c :: content, rest)
    else
      (breakDoctype? (if c = '<' then depth + 1 else depth) cs).map
        fun (content, rest) => (c :: content, rest)

/-- Whether a text starts with the word `DOCTYPE`, in any letter case. -/
def startsWithDoctype (cs : List Char) : Bool :=
  (cs.take 7).map Char.toUpper == ['D', 'O', 'C', 'T', 'Y', 'P', 'E']

/-- A start tag, or a self-closing one if its content ends with a slash. -/
def tagOf (content : List Char) : Token :=
  match content.reverse with
  | '/' :: rest => .selfClosingTag rest.reverse
  | _ => .startTag content

/-- A construct between an opening and a closing mark. -/
def nextBetween (opening closing : List Char) (make : List Char → Token)
    (failure : Unterminated) (cs : List Char) : Except Unterminated (Token × List Char) :=
  match (Text.strip? opening cs).bind (Text.breakOn? closing) with
  | some (content, rest) => .ok (make content, rest)
  | none => .error failure

/-- A document type; `cs` starts with the letter of its keyword. -/
def nextDoctype (cs : List Char) : Except Unterminated (Token × List Char) :=
  match if startsWithDoctype cs then breakDoctype? 0 cs else none with
  | some (content, rest) => .ok (.doctype content, rest)
  | none => .error .doctype

/-- The construct behind an opening angle bracket and an exclamation mark. Its
    first character decides which it has to be. -/
def nextBang (cs : List Char) : Except Unterminated (Token × List Char) :=
  if cs.head? = some '-' then nextBetween ['-', '-'] ['-', '-', '>'] .comment .comment cs
  else if cs.head? = some '[' then
    nextBetween ['[', 'C', 'D', 'A', 'T', 'A', '['] [']', ']', '>'] .cdata .cdata cs
  else if cs.head? = some 'D' ∨ cs.head? = some 'd' then nextDoctype cs
  else .error .markup

/-- A processing instruction. One that would end at once does not end at all:
    its opening and its closing question mark are two. -/
def nextInstruction (cs : List Char) : Except Unterminated (Token × List Char) :=
  if cs.head? = some '>' then .error .instruction
  else nextBetween [] ['?', '>'] .instruction .instruction cs

/-- A tag, given what to make of its content. -/
def nextTag (make : List Char → Token) (cs : List Char) :
    Except Unterminated (Token × List Char) :=
  match breakTag? none cs with
  | some (content, rest) => .ok (make content, rest)
  | none => .error .tag

/-- The construct behind an opening angle bracket. -/
def nextMarkup (cs : List Char) : Except Unterminated (Token × List Char) :=
  match cs with
  | [] => .error .tag
  | c :: rest =>
    if c = '!' then nextBang rest
    else if c = '?' then nextInstruction rest
    else if c = '/' then nextTag .endTag rest
    else nextTag tagOf cs

/-- The first token of a text and what follows it. -/
def next (cs : List Char) : Except Unterminated (Token × List Char) :=
  match Text.strip? ['<'] cs with
  | some rest => nextMarkup rest
  | none => .ok (.text (cs.takeWhile (· ≠ '<')), cs.dropWhile (· ≠ '<'))

theorem eq_of_breakTag? {quote : Option Quote} {cs content rest : List Char}
    (h : breakTag? quote cs = some (content, rest)) : cs = content ++ '>' :: rest := by
  induction cs generalizing quote content with
  | nil => cases quote <;> simp [breakTag?] at h
  | cons c cs ih =>
      cases quote with
      | none =>
          simp only [breakTag?] at h
          split at h
          · simp_all
          · obtain ⟨⟨a, b⟩, hab, heq⟩ := Option.map_eq_some_iff.1 h
            simp only [Prod.mk.injEq] at heq
            obtain ⟨rfl, rfl⟩ := heq
            rw [ih hab, List.cons_append]
      | some quote =>
          obtain ⟨⟨a, b⟩, hab, heq⟩ := Option.map_eq_some_iff.1 h
          simp only [Prod.mk.injEq] at heq
          obtain ⟨rfl, rfl⟩ := heq
          rw [ih hab, List.cons_append]

theorem eq_of_breakDoctype? {depth : Nat} {cs content rest : List Char}
    (h : breakDoctype? depth cs = some (content, rest)) : cs = content ++ '>' :: rest := by
  induction cs generalizing depth content with
  | nil => simp [breakDoctype?] at h
  | cons c cs ih =>
      simp only [breakDoctype?] at h
      split at h
      · cases depth with
        | zero => simp_all
        | succ depth =>
            obtain ⟨⟨a, b⟩, hab, heq⟩ := Option.map_eq_some_iff.1 h
            simp only [Prod.mk.injEq] at heq
            obtain ⟨rfl, rfl⟩ := heq
            rw [ih hab, List.cons_append]
      · obtain ⟨⟨a, b⟩, hab, heq⟩ := Option.map_eq_some_iff.1 h
        simp only [Prod.mk.injEq] at heq
        obtain ⟨rfl, rfl⟩ := heq
        rw [ih hab, List.cons_append]

theorem raw_tagOf (content : List Char) : (tagOf content).raw = '<' :: content ++ ['>'] := by
  unfold tagOf
  split
  · rename_i rest h
    have : content = rest.reverse ++ ['/'] := by
      rw [← List.reverse_reverse content, h, List.reverse_cons]
    rw [this]
    simp [Token.raw]
  · rfl

theorem eq_of_nextBetween {opening closing cs rest : List Char} {make : List Char → Token}
    {failure : Unterminated} {t : Token}
    (h : nextBetween opening closing make failure cs = .ok (t, rest)) :
    ∃ content, t = make content ∧ cs = opening ++ (content ++ closing ++ rest) := by
  unfold nextBetween at h
  split at h
  · rename_i content after heq
    simp only [Except.ok.injEq, Prod.mk.injEq] at h
    obtain ⟨rfl, rfl⟩ := h
    obtain ⟨body, hbody, hbreak⟩ := Option.bind_eq_some_iff.1 heq
    exact ⟨content, rfl, by rw [Text.strip?_eq_some_iff.1 hbody, Text.eq_of_breakOn? hbreak]⟩
  · simp at h

theorem eq_of_nextTag {cs rest : List Char} {make : List Char → Token} {t : Token}
    (h : nextTag make cs = .ok (t, rest)) :
    ∃ content, t = make content ∧ cs = content ++ '>' :: rest := by
  unfold nextTag at h
  split at h
  · rename_i content after heq
    simp only [Except.ok.injEq, Prod.mk.injEq] at h
    obtain ⟨rfl, rfl⟩ := h
    exact ⟨content, rfl, eq_of_breakTag? heq⟩
  · simp at h

theorem eq_of_nextDoctype {cs rest : List Char} {t : Token}
    (h : nextDoctype cs = .ok (t, rest)) :
    ∃ content, t = .doctype content ∧ cs = content ++ '>' :: rest := by
  unfold nextDoctype at h
  split at h
  · rename_i content after heq
    simp only [Except.ok.injEq, Prod.mk.injEq] at h
    obtain ⟨rfl, rfl⟩ := h
    split at heq
    · exact ⟨content, rfl, eq_of_breakDoctype? heq⟩
    · simp at heq
  · simp at h

theorem eq_of_nextBang {cs rest : List Char} {t : Token} (h : nextBang cs = .ok (t, rest)) :
    '<' :: '!' :: cs = t.raw ++ rest := by
  unfold nextBang at h
  split at h
  · obtain ⟨content, rfl, rfl⟩ := eq_of_nextBetween h
    simp [Token.raw]
  split at h
  · obtain ⟨content, rfl, rfl⟩ := eq_of_nextBetween h
    simp [Token.raw]
  split at h
  · obtain ⟨content, rfl, rfl⟩ := eq_of_nextDoctype h
    simp [Token.raw]
  · simp at h

theorem eq_of_nextMarkup {cs rest : List Char} {t : Token} (h : nextMarkup cs = .ok (t, rest)) :
    '<' :: cs = t.raw ++ rest := by
  unfold nextMarkup at h
  split at h
  · simp at h
  split at h
  · rename_i hc
    rw [hc]
    exact eq_of_nextBang h
  split at h
  · rename_i hc
    unfold nextInstruction at h
    split at h
    · simp at h
    · obtain ⟨content, rfl, rfl⟩ := eq_of_nextBetween h
      simp [Token.raw, hc]
  split at h
  · rename_i hc
    obtain ⟨content, rfl, rfl⟩ := eq_of_nextTag h
    simp [Token.raw, hc]
  · obtain ⟨content, rfl, heq⟩ := eq_of_nextTag h
    rw [raw_tagOf, heq]
    simp

/-- A token and what follows it make up the text. -/
theorem eq_of_next {cs rest : List Char} {t : Token} (h : next cs = .ok (t, rest)) :
    cs = t.raw ++ rest := by
  unfold next at h
  split at h
  · rename_i after heq
    rw [Text.strip?_eq_some_iff.1 heq]
    exact eq_of_nextMarkup h
  · simp only [Except.ok.injEq, Prod.mk.injEq] at h
    obtain ⟨rfl, rfl⟩ := h
    simp [Token.raw]

/-- A construct that an opening angle bracket starts is no text. -/
theorem raw_ne_nil_of_nextMarkup {cs rest : List Char} {t : Token}
    (h : nextMarkup cs = .ok (t, rest)) : t.raw ≠ [] := by
  unfold nextMarkup at h
  split at h
  · simp at h
  split at h
  · unfold nextBang at h
    split at h
    · obtain ⟨content, rfl, _⟩ := eq_of_nextBetween h
      simp [Token.raw]
    split at h
    · obtain ⟨content, rfl, _⟩ := eq_of_nextBetween h
      simp [Token.raw]
    split at h
    · obtain ⟨content, rfl, _⟩ := eq_of_nextDoctype h
      simp [Token.raw]
    · simp at h
  split at h
  · unfold nextInstruction at h
    split at h
    · simp at h
    · obtain ⟨content, rfl, _⟩ := eq_of_nextBetween h
      simp [Token.raw]
  split at h
  · obtain ⟨content, rfl, _⟩ := eq_of_nextTag h
    simp [Token.raw]
  · obtain ⟨content, rfl, _⟩ := eq_of_nextTag h
    rw [raw_tagOf]
    simp

/-- A token of a text that is not empty has characters of its own. -/
theorem raw_ne_nil_of_next {cs rest : List Char} {t : Token} (h : next cs = .ok (t, rest))
    (hcs : cs ≠ []) : t.raw ≠ [] := by
  unfold next at h
  split at h
  · exact raw_ne_nil_of_nextMarkup h
  · rename_i hstrip
    simp only [Except.ok.injEq, Prod.mk.injEq] at h
    obtain ⟨rfl, rfl⟩ := h
    cases cs with
    | nil => exact absurd rfl hcs
    | cons c cs =>
        have hc : c ≠ '<' := by
          rintro rfl
          simp [Text.strip?] at hstrip
        simp [Token.raw, hc]

theorem length_lt_of_next {cs rest : List Char} {t : Token} (h : next cs = .ok (t, rest))
    (hcs : cs ≠ []) : rest.length < cs.length := by
  have h1 := congrArg List.length (eq_of_next h)
  have h2 := List.length_pos_iff.2 (raw_ne_nil_of_next h hcs)
  rw [List.length_append] at h1
  omega

/-- The tokens of a text, and why the last construct does not end, if it does
    not. -/
structure Cut where
  tokens : List Token
  failure : Option Unterminated
  deriving DecidableEq, Repr

/-- All tokens of a text. -/
def cut (cs : List Char) : Cut :=
  if hcs : cs = [] then ⟨[], none⟩
  else
    match h : next cs with
    | .error failure => ⟨[], some failure⟩
    | .ok (t, rest) =>
      have := length_lt_of_next h hcs
      let after := cut rest
      ⟨t :: after.tokens, after.failure⟩
termination_by cs.length

/-- The tokens of a text that is cut to its end make up the text. -/
theorem raw_cut {cs : List Char} (h : (cut cs).failure = none) :
    (cut cs).tokens.flatMap Token.raw = cs := by
  fun_induction cut cs with
  | case1 => rfl
  | case2 cs hcs failure hn => simp at h
  | case3 cs hcs t rest hn hlt after ih =>
      rw [List.flatMap_cons, ih h]
      exact (eq_of_next hn).symm

end Faithful

end SoleRoot
