import SoleRoot.Json.Printer
import SoleRoot.Json.Reader
import SoleRoot.Proofs.Outcome
import SoleRoot.Proofs.Text.Runs

/-!
# The Spelling of Strings

Which texts stand for a string, and that the reader takes exactly those.

`Spells` is the grammar of what stands between the quotes. It is a relation between a
text, the characters that it stands for, and the rest behind the closing quote; a
rest is carried along because only the closing quote says where a string ends. A
character may stand for itself or be written as an `Escape`, so a string has many
spellings. The printer's is one of them.

A reader also carries an offset for its messages, which has no part in what it
reads. `Takes` says that a reader gives a value and leaves a rest wherever its text
stands in a source.

## Main definitions

* `Takes`: A reader gives a value and leaves a rest.
* `Escape`, `Spells`: The grammar of strings.

## Theorems

* `Takes.bind`: Readers one behind the other.
* `takes_readText`, `spells_of_readText`: A reader of strings takes the spellings
  of a string, and nothing else.
* `spells_flatMap_writeChar`: What is written of a string is a spelling of it.
-/

namespace SoleRoot

namespace Json

/-- Whether a reader gives a value and leaves a rest, wherever its text stands. -/
def Takes {α : Type} (read : Reader α) (text : List Char) (a : α) (rest : List Char) : Prop :=
  ∀ k, ∃ k', read ⟨k, text⟩ = .ok (a, ⟨k', rest⟩)

/-- Whether a text behind a backslash stands for a character, before a rest. -/
inductive Escape : List Char → Char → List Char → Prop where
  | letter {x y : Char} {rest : List Char} (h : escaped? x = some y) : Escape (x :: rest) y rest
  | number {digits rest : List Char} {n : Nat} (hlength : digits.length = 4)
    (hvalue : hexValue? digits = some n) (htrailing : isTrailing n = false)
    (hleading : isLeading n = false) : Escape ('u' :: (digits ++ rest)) (Char.ofNat n) rest
  | pair {digits digits' rest : List Char} {n m : Nat} (hlength : digits.length = 4)
    (hvalue : hexValue? digits = some n) (hleading : isLeading n = true)
    (hlength' : digits'.length = 4) (hvalue' : hexValue? digits' = some m)
    (htrailing : isTrailing m = true) :
    Escape ('u' :: (digits ++ '\\' :: 'u' :: (digits' ++ rest))) (pairChar n m) rest

/-- Whether a text behind an opening quote stands for characters, before a rest that
    comes behind the closing quote. -/
inductive Spells : List Char → List Char → List Char → Prop where
  | quote {rest : List Char} : Spells ('"' :: rest) [] rest
  | plain {c : Char} {text cs rest : List Char} (hquote : c ≠ '"') (hslash : c ≠ '\\')
    (hcontrol : ¬ c.toNat < 32) (h : Spells text cs rest) : Spells (c :: text) (c :: cs) rest
  | escape {c : Char} {text text' cs rest : List Char} (hescape : Escape text c text')
    (h : Spells text' cs rest) : Spells ('\\' :: text) (c :: cs) rest

section Sequences

variable {α β : Type} {read : Reader α} {next : α → Reader β} {text middle rest : List Char} {a : α}
  {b : β}

/-- A reader goes on with what another one leaves. -/
theorem Takes.bind (h : Takes read text a middle) (hnext : Takes (next a) middle b rest) :
    Takes (fun c => (read c).bind fun p => next p.1 p.2) text b rest := by
  intro k
  rcases h k with ⟨k₁, hread⟩
  rcases hnext k₁ with ⟨k₂, hread'⟩
  refine ⟨k₂, ?_⟩
  simp only [hread, Except.bind, hread']

end Sequences

section Digits

theorem utf8Size_of_hexDigit? {c : Char} {n : Nat} (h : hexDigit? c = some n) :
    c.utf8Size = 1 := by
  rw [Char.utf8Size_eq_one_iff, UInt32.le_iff_toNat_le]
  -- No digit comes behind the last letter of the small ones.
  have hle : c.toNat ≤ 'f'.toNat := by
    simp only [hexDigit?] at h
    have h9 : '9'.toNat ≤ 'f'.toNat := by decide
    have hF : 'F'.toNat ≤ 'f'.toNat := by decide
    split at h
    · omega
    split at h
    · omega
    split at h
    · omega
    · simp at h
  exact Nat.le_trans hle (by decide)

/-- Digits are a byte each. -/
theorem byteSize_of_hexValue? {digits : List Char} {n : Nat} (h : hexValue? digits = some n) :
    Text.byteSize digits = digits.length := by
  unfold hexValue? at h
  generalize 0 = start at h
  induction digits generalizing start with
  | nil => rfl
  | cons c digits ih =>
      simp only [List.foldlM_cons, Option.bind_eq_bind, Option.bind_eq_some_iff,
        Option.map_eq_some_iff] at h
      rcases h with ⟨_, ⟨d, hd, _⟩, hrest⟩
      rw [Text.byteSize_cons, utf8Size_of_hexDigit? hd, ih _ hrest, List.length_cons, Nat.add_comm]

theorem takes_readHex {digits : List Char} {n : Nat} (hlength : digits.length = 4)
    (hvalue : hexValue? digits = some n) (rest : List Char) :
    Takes readHex (digits ++ rest) n rest := by
  intro k
  have htake : (digits ++ rest).take 4 = digits := List.take_left' hlength
  have hdrop : (digits ++ rest).drop 4 = rest := List.drop_left' hlength
  refine ⟨k + Text.byteSize digits, ?_⟩
  simp only [readHex, htake, hdrop, hvalue]
  rw [if_neg (by rw [byteSize_of_hexValue? hvalue, hlength]; omega)]
  rfl

theorem of_readHex {c c' : Cursor} {n : Nat} (h : readHex c = .ok (n, c')) :
    ∃ digits, digits.length = 4 ∧ hexValue? digits = some n ∧ c.rest = digits ++ c'.rest := by
  simp only [readHex] at h
  split at h
  · simp at h
  rename_i hsize
  split at h
  · rename_i m hvalue
    simp only [Except.ok.injEq, Prod.mk.injEq] at h
    rcases h with ⟨rfl, rfl⟩
    refine ⟨c.rest.take 4, ?_, hvalue, (List.take_append_drop 4 c.rest).symm⟩
    -- Four bytes of digits are four digits.
    rw [byteSize_of_hexValue? hvalue] at hsize
    have hle := List.length_take_le 4 c.rest
    omega
  · simp at h

end Digits

section Escapes

theorem takes_readEscapeMark (mark : Char) (rest : List Char) (k : Nat) :
    readEscapeMark mark ⟨k, mark :: rest⟩ = .ok ⟨k + mark.utf8Size, rest⟩ :=
  if_pos rfl

theorem of_readEscapeMark {mark : Char} {c c' : Cursor} (h : readEscapeMark mark c = .ok c') :
    c.rest = mark :: c'.rest := by
  unfold readEscapeMark at h
  split at h
  · rename_i hpeek
    rcases Except.ok.inj h with rfl
    cases hc : c.rest with
    | nil => simp [Cursor.peek?, hc] at hpeek
    | cons x xs =>
        simp only [Cursor.peek?, hc, List.head?_cons, Option.some.injEq] at hpeek
        simp [Cursor.next, hc, hpeek]
  · simp [Cursor.failAtNext, Cursor.failAhead] at h

/-- The letter of a number is not one of those that stand for a character. -/
theorem ne_of_escaped? {x y : Char} (h : escaped? x = some y) : x ≠ 'u' := by
  rintro rfl
  simp [escaped?] at h

theorem takes_readEscape {text rest : List Char} {x : Char} (h : Escape text x rest) :
    Takes readEscape text x rest := by
  intro k
  cases h with
  | @letter y x rest h =>
      refine ⟨k + y.utf8Size, ?_⟩
      simp only [readEscape, if_neg (ne_of_escaped? h), h]
      rfl
  | @number digits rest n hlength hvalue htrailing hleading =>
      rcases takes_readHex hlength hvalue rest (k + 'u'.utf8Size) with ⟨k', hhex⟩
      refine ⟨k', ?_⟩
      simp only [readEscape, if_true, Cursor.next, readCodePoint, hhex, bind, Except.bind,
        htrailing, hleading, Bool.false_eq_true, if_false]
  | @pair digits digits' rest n m hlength hvalue hleading hlength' hvalue' htrailing =>
      rcases takes_readHex hlength hvalue ('\\' :: 'u' :: (digits' ++ rest)) (k + 'u'.utf8Size)
        with ⟨k', hhex⟩
      rcases takes_readHex hlength' hvalue' rest (k' + '\\'.utf8Size + 'u'.utf8Size)
        with ⟨k'', hhex'⟩
      -- A leading number is not a trailing one.
      have hfirst : isTrailing n = false := by
        simp only [isLeading, isTrailing, Bool.and_eq_true, decide_eq_true_eq,
          Bool.and_eq_false_iff, decide_eq_false_iff_not] at hleading ⊢
        omega
      refine ⟨k'', ?_⟩
      simp only [readEscape, if_true, Cursor.next, readCodePoint, hhex, bind, Except.bind, hfirst,
        hleading, Bool.false_eq_true, if_false, takes_readEscapeMark, hhex', htrailing]

theorem escape_of_readEscape {c c' : Cursor} {x : Char} (h : readEscape c = .ok (x, c')) :
    Escape c.rest x c'.rest := by
  unfold readEscape at h
  split at h
  · simp [Cursor.fail] at h
  rename_i y ys hc
  have hnext : c.next.rest = ys := by simp [Cursor.next, hc]
  rw [hc]
  split at h
  · rename_i hy
    subst hy
    simp only [readCodePoint, bind_eq_ok_iff] at h
    rcases h with ⟨⟨n, c₁⟩, hhex, h⟩
    rcases of_readHex hhex with ⟨digits, hlength, hvalue, hdigits⟩
    rw [hnext] at hdigits
    split at h
    · simp [Cursor.fail] at h
    rename_i htrailing
    split at h
    · -- The second number has to be a trailing one.
      rename_i hleading
      simp only [bind_eq_ok_iff] at h
      rcases h with ⟨c₂, hslash, c₃, hletter, ⟨m, c₄⟩, hhex', h⟩
      rcases of_readHex hhex' with ⟨digits', hlength', hvalue', hdigits'⟩
      split at h
      · rename_i htrailing'
        simp only [Except.ok.injEq, Prod.mk.injEq] at h
        rcases h with ⟨rfl, rfl⟩
        have hys : ys = digits ++ '\\' :: 'u' :: (digits' ++ c₄.rest) := by
          rw [hdigits, of_readEscapeMark hslash, of_readEscapeMark hletter, hdigits']
        rw [hys]
        exact .pair hlength hvalue hleading hlength' hvalue' htrailing'
      · simp [Cursor.fail] at h
    · rename_i hleading
      simp only [Except.ok.injEq, Prod.mk.injEq] at h
      rcases h with ⟨rfl, rfl⟩
      rw [hdigits]
      exact .number hlength hvalue (Bool.eq_false_iff.2 htrailing) (Bool.eq_false_iff.2 hleading)
  · split at h
    · rename_i z hz
      simp only [Except.ok.injEq, Prod.mk.injEq] at h
      rcases h with ⟨rfl, rfl⟩
      rw [hnext]
      exact .letter hz
    · simp [Cursor.failAhead] at h

end Escapes

section Strings

theorem takes_readText {text cs rest : List Char} (h : Spells text cs rest) :
    Takes readText text cs rest := by
  induction h with
  | @quote rest =>
      intro k
      refine ⟨k + Text.byteSize ['"'], ?_⟩
      rw [readText]
      rfl
  | @plain c text cs rest hquote hslash hcontrol _ ih =>
      intro k
      rcases ih (k + Text.byteSize [c]) with ⟨k', hk⟩
      refine ⟨k', ?_⟩
      rw [readText]
      simp only [Cursor.behind, if_neg hquote, if_neg hslash, if_neg hcontrol, hk]
      rfl
  -- The escape is read first, and the string goes on behind it.
  | @escape c text text' cs rest hescape _ ih =>
      intro k
      rcases takes_readEscape hescape (k + Text.byteSize ['\\']) with ⟨k₁, hread⟩
      rcases ih k₁ with ⟨k', hk⟩
      refine ⟨k', ?_⟩
      have hne : ('\\' : Char) ≠ '"' := by decide
      rw [readText]
      simp only [Cursor.behind, if_neg hne, if_true]
      split
      · rename_i f hf
        rw [hread] at hf
        simp at hf
      · rename_i y behind hy
        rw [hread] at hy
        simp only [Except.ok.injEq, Prod.mk.injEq] at hy
        rcases hy with ⟨rfl, rfl⟩
        rw [hk]
        rfl

theorem spells_of_readText {c c' : Cursor} {cs : List Char} (h : readText c = .ok (cs, c')) :
    Spells c.rest cs c'.rest := by
  -- Each way in which the reader goes on is a rule of the grammar.
  fun_induction readText c generalizing cs c' with
  | case1 c hc => simp [Cursor.fail] at h
  | case2 c xs hc =>
      simp only [Except.ok.injEq, Prod.mk.injEq] at h
      rcases h with ⟨rfl, rfl⟩
      rw [hc]
      exact .quote
  | case3 c xs f hc => simp at h
  | case4 c xs y behind hc =>
      rename_i after _ hescape ih
      rcases map_eq_ok_iff.1 h with ⟨⟨ys, c₁⟩, hread, heq⟩
      simp only [Prod.mk.injEq] at heq
      rcases heq with ⟨rfl, rfl⟩
      rw [hc]
      exact .escape (escape_of_readEscape hescape) (ih hread)
  | case5 c x xs hc => simp [Cursor.failAhead] at h
  | case6 c x xs hc =>
      rename_i after hquote hslash hcontrol ih
      rcases map_eq_ok_iff.1 h with ⟨⟨ys, c₁⟩, hread, heq⟩
      simp only [Prod.mk.injEq] at heq
      rcases heq with ⟨rfl, rfl⟩
      rw [hc]
      exact .plain hquote hslash hcontrol (ih hread)

/-- How a character is written: by a letter, by its number, or as it is. -/
theorem writeChar_cases (c : Char) :
    (∃ x, writeChar c = ['\\', x] ∧ escaped? x = some c) ∨
      (c.toNat < 32 ∧ writeChar c = writeControl c) ∨
      (c ≠ '"' ∧ c ≠ '\\' ∧ ¬ c.toNat < 32 ∧ writeChar c = [c]) := by
  unfold writeChar
  split
  · rename_i h
    exact .inl ⟨'"', rfl, h.symm ▸ rfl⟩
  rename_i hquote
  split
  · rename_i h
    exact .inl ⟨'\\', rfl, h.symm ▸ rfl⟩
  rename_i hslash
  split
  · rename_i h
    exact .inl ⟨'b', rfl, h.symm ▸ rfl⟩
  split
  · rename_i h
    exact .inl ⟨'f', rfl, h.symm ▸ rfl⟩
  split
  · rename_i h
    exact .inl ⟨'n', rfl, h.symm ▸ rfl⟩
  split
  · rename_i h
    exact .inl ⟨'r', rfl, h.symm ▸ rfl⟩
  split
  · rename_i h
    exact .inl ⟨'t', rfl, h.symm ▸ rfl⟩
  split
  · rename_i hcontrol
    exact .inr (.inl ⟨hcontrol, rfl⟩)
  · rename_i hcontrol
    exact .inr (.inr ⟨hquote, hslash, hcontrol, rfl⟩)

/-- A control is written by four digits, which are its number. -/
theorem escape_writeControl {c : Char} (h : c.toNat < 32) (rest : List Char) :
    ∃ text, writeControl c ++ rest = '\\' :: text ∧ Escape text c rest := by
  -- There are few enough controls to try them all.
  have hall : ∀ n < 32, hexValue? ['0', '0', Nat.digitChar (n / 16), Nat.digitChar (n % 16)] =
      some n := by decide
  have hescape : Escape _ (Char.ofNat c.toNat) rest := .number rfl (hall c.toNat h)
    (by simp only [isTrailing, Bool.and_eq_false_iff, decide_eq_false_iff_not]; omega)
    (by simp only [isLeading, Bool.and_eq_false_iff, decide_eq_false_iff_not]; omega)
  rw [Char.ofNat_toNat] at hescape
  exact ⟨_, rfl, hescape⟩

/-- What is written of a string is a spelling of it. -/
theorem spells_flatMap_writeChar (cs rest : List Char) :
    Spells (cs.flatMap writeChar ++ '"' :: rest) cs rest := by
  induction cs with
  | nil => exact .quote
  | cons c cs ih =>
      rw [List.flatMap_cons, List.append_assoc]
      -- Each way to write a character is a rule, too.
      rcases writeChar_cases c with ⟨x, hx, hescaped⟩ | ⟨hcontrol, hc⟩ |
        ⟨hquote, hslash, hcontrol, hc⟩
      · rw [hx]
        exact .escape (.letter hescaped) ih
      · rcases escape_writeControl hcontrol (cs.flatMap writeChar ++ '"' :: rest) with
          ⟨text, htext, hescape⟩
        rw [hc, htext]
        exact .escape hescape ih
      · rw [hc]
        exact .plain hquote hslash hcontrol ih

end Strings

end Json

end SoleRoot
