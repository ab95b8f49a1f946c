import SoleRoot.Proofs.Html.Rereading

/-!
# Text Without Escapes

What a reader of HTML makes of a text that was written as it is, where everything
counts as markup.

An opening bracket in such a text begins a tag or a comment, or stands for itself.
Which of these it does depends on the next character only, and `Quiet` says that all
brackets of a text stand for themselves. What is then read is the text with its
references decoded.

A reference at the end of the text might go on behind it. But what stands behind is
a tag, and no known name has a bracket in it, nor does a number. So the references
of the text are the same with and without what follows, and `decodeText` looks at the
text alone.

## Main definitions

* `Reference.decodeText`: A text with its references decoded.
* `Reference.hasReference`: Whether there are any.
* `Quiet`: No bracket of a text begins a tag or a comment.

## Theorems

* `Reference.read?_append`: A reference does not go on behind a bracket.
* `Reference.decodeText_eq_self_iff`: A text without references decodes to itself.
* `Receptive.grow_quiet`: A quiet text is read as the text that it decodes to.
-/

namespace SoleRoot

namespace Html

namespace Reference

/-- A text with its references decoded. -/
def decodeText (cs : List Char) : List Char :=
  match cs with
  | [] => []
  | c :: cs =>
    if c = '&' then
      match h : read? false cs with
      | some d =>
        have := (suffix_of_read? h).length_le
        d.characters ++ decodeText d.rest
      | none => c :: decodeText cs
    else c :: decodeText cs
termination_by cs.length

/-- The same reference in front of a longer text. -/
def Decoded.before (d : Decoded) (rest : List Char) : Decoded :=
  { d with rest := d.rest ++ rest }

/-- Whether a `&` that is the start of a reference stands somewhere in a text. -/
def hasReference : List Char → Bool
  | [] => false
  | c :: cs => (c = '&' && (read? false cs).isSome) || hasReference cs

/-- What is true of any known name and the characters that it stands for. -/
structure Known (name characters : List Char) : Prop where
  bracketless : '<' ∉ name
  name_ne : name ≠ []
  ne : characters ≠ []
  length_le : characters.length ≤ 2
  ampersand : characters.head? = some '&' → characters = ['&']

section Table

/-- Whether an entry of the table of names is as entries are. The bytes of the name are
    looked at, not its characters. -/
def isOrdinary (entry : String × List Nat) : Bool :=
  !entry.1.toByteArray.data.toList.contains 60 && !entry.1.toByteArray.data.toList.isEmpty &&
    match entry.2.map Char.ofNat with
    | [] => false
    | [_] => true
    | [c, _] => c ≠ '&'
    | _ => false

/-- All entries are looked at, letter by letter. -/
theorem all_lowerNames (c : Char) : (lowerNames c).all isOrdinary = true := by
  unfold lowerNames
  split
  -- There is one table for each letter, so that none of them is long.
  all_goals decide +kernel

theorem all_upperNames (c : Char) : (upperNames c).all isOrdinary = true := by
  unfold upperNames
  split
  all_goals decide +kernel

/-- A character of one byte shows among the bytes. -/
theorem not_mem_toList {s : String} (h : s.toByteArray.data.toList.contains 60 = false) :
    '<' ∉ s.toList := by
  intro hmem
  have hbyte : (60 : UInt8) ∈ s.toByteArray.data.toList := by
    rw [← String.utf8Encode_toList, List.utf8Encode, List.data_toByteArray]
    exact List.mem_flatMap.2 ⟨_, hmem, by decide⟩
  rw [List.contains_eq_mem] at h
  exact absurd hbyte (of_decide_eq_false h)

/-- A name has characters if it has bytes. -/
theorem toList_ne_nil {s : String} (h : s.toByteArray.data.toList.isEmpty = false) :
    s.toList ≠ [] := by
  intro hnil
  rw [← String.utf8Encode_toList, hnil] at h
  exact Bool.noConfusion h

/-- The entries of the table are as entries are. -/
theorem known_of_mem {c : Char} {entry : String × List Nat} (h : entry ∈ namesOf c) :
    Known entry.1.toList (entry.2.map Char.ofNat) := by
  have hall : (namesOf c).all isOrdinary = true := by
    rw [namesOf]
    split
    · exact all_upperNames c
    · exact all_lowerNames c
  have hentry := List.all_eq_true.1 hall entry h
  rw [isOrdinary, Bool.and_eq_true, Bool.and_eq_true, Bool.not_eq_true', Bool.not_eq_true']
    at hentry
  rcases hentry with ⟨⟨hbracket, hempty⟩, hcharacters⟩
  have hname := not_mem_toList hbracket
  have hne := toList_ne_nil hempty
  split at hcharacters
  · exact Bool.noConfusion hcharacters
  · rename_i d heq
    rw [heq]
    exact ⟨hname, hne, by simp, by simp, by simp⟩
  · rename_i d e heq
    rw [heq]
    rw [decide_eq_true_eq] at hcharacters
    exact ⟨hname, hne, by simp, by simp,
      fun hhead => absurd (Option.some.inj hhead) hcharacters⟩
  · exact Bool.noConfusion hcharacters

end Table

section Reading

variable {cs : List Char} {d : Decoded}

/-- The longer of two names is one of them. -/
theorem longer_cases (best : Option (List Char × List Nat)) (name : List Char)
    (numbers : List Nat) :
    longer best name numbers = some (name, numbers) ∨ longer best name numbers = best := by
  unfold longer
  split
  · exact .inl rfl
  · split
    · exact .inl rfl
    · exact .inr rfl

/-- The longest name stands at the start of the text. -/
theorem prefix_of_longestName? {name : List Char} {numbers : List Nat}
    (h : longestName? cs = some (name, numbers)) :
    name <+: cs ∧ Known name (numbers.map Char.ofNat) := by
  cases cs with
  | nil => simp [longestName?] at h
  | cons c cs =>
      -- This is so of the best name so far, whatever names have been looked at.
      refine List.foldlRecOn (motive := fun best : Option (List Char × List Nat) =>
        ∀ found ∈ best, found.1 <+: c :: cs ∧ Known found.1 (found.2.map Char.ofNat))
        (namesOf c) _ (by simp) ?_ (name, numbers) h
      intro best hbest entry hentry found hfound
      split at hfound
      · rename_i hfront
        rcases longer_cases best entry.1.toList entry.2 with heq | heq
        · rw [heq] at hfound
          rcases Option.some.inj hfound with rfl
          exact ⟨List.isPrefixOf_iff_prefix.1 hfront, known_of_mem hentry⟩
        · rw [heq] at hfound
          exact hbest found hfound
      · exact hbest found hfound

/-- No name goes on behind an opening bracket. -/
theorem longestName?_append_less (c : Char) (cs rest : List Char) :
    longestName? (c :: cs ++ '<' :: rest) = longestName? (c :: cs) := by
  rw [List.cons_append, longestName?, longestName?]
  refine List.foldl_ext _ _ _ fun best entry hentry => ?_
  have hsame : entry.1.toList.isPrefixOf (c :: (cs ++ '<' :: rest)) =
      entry.1.toList.isPrefixOf (c :: cs) := by
    rw [Bool.eq_iff_iff, List.isPrefixOf_iff_prefix, List.isPrefixOf_iff_prefix,
      ← List.cons_append, Text.prefix_append_cons (known_of_mem hentry).bracketless]
  rw [hsame]

/-- Nor does the semicolon of a number. -/
theorem readSemicolon_append (cs rest : List Char) :
    readSemicolon (cs ++ '<' :: rest) =
      ((readSemicolon cs).1, (readSemicolon cs).2 ++ '<' :: rest) := by
  cases cs with
  | nil => rfl
  | cons c cs =>
      by_cases hc : c = ';'
      · rw [hc]
        rfl
      · simp [readSemicolon, hc]

/-- Nor do the digits. -/
theorem readDigits?_append (hexadecimal : Bool) (cs rest : List Char) :
    readDigits? hexadecimal (cs ++ '<' :: rest) =
      (readDigits? hexadecimal cs).map (·.before ('<' :: rest)) := by
  have hless : (digitValue? hexadecimal '<').isSome = false := by
    cases hexadecimal with
    | true => decide
    | false => decide
  have htake := Text.takeWhile_append_cons (p := fun c => (digitValue? hexadecimal c).isSome)
    hless cs rest
  have hlength := (List.takeWhile_prefix (fun c => (digitValue? hexadecimal c).isSome)
    (l := cs)).length_le
  simp only [readDigits?, htake, List.drop_append_of_le_length hlength, readSemicolon_append]
  split
  · rfl
  · rfl

/-- A reference does not go on behind an opening bracket. -/
theorem read?_append (cs rest : List Char) :
    read? false (cs ++ '<' :: rest) = (read? false cs).map (·.before ('<' :: rest)) := by
  cases cs with
  | nil => rfl
  | cons c cs =>
      rw [List.cons_append, read?, read?]
      -- The digits of a number end at the bracket, and a name ends before it.
      split
      · cases cs with
        | nil => rfl
        | cons d cs =>
            rw [List.cons_append, readNumbered?, readNumbered?, readDigits?_append,
              ← List.cons_append, readDigits?_append]
            split
            · rfl
            · rfl
      · have hlongest := longestName?_append_less c cs rest
        rw [List.cons_append] at hlongest
        rw [readNamed?, readNamed?, hlongest]
        cases hname : longestName? (c :: cs) with
        | none => rfl
        | some found =>
            have hlength := (prefix_of_longestName? hname).1.length_le
            simp only [Bool.false_and, Bool.false_eq_true, if_false, Option.map_some,
              Decoded.before, ← List.cons_append, List.drop_append_of_le_length hlength]

/-- What is true of a reference that was read at the start of a text. -/
structure ReadFrom (cs : List Char) (d : Decoded) : Prop where
  ne : d.characters ≠ []
  suffix : d.rest <:+ cs
  rest_lt : d.rest.length < cs.length
  length_le : d.characters.length + d.rest.length ≤ cs.length + 1
  ampersand : d.characters.head? = some '&' → d.characters = ['&']

/-- A reference may have begun a character earlier. -/
theorem ReadFrom.cons (h : ReadFrom cs d) (c : Char) : ReadFrom (c :: cs) d where
  ne := h.ne
  suffix := h.suffix.trans (List.suffix_cons c cs)
  rest_lt := Nat.lt_succ_of_lt h.rest_lt
  length_le := Nat.le_succ_of_le h.length_le
  ampersand := h.ampersand

/-- A number stands for one character, and has one digit at least. -/
theorem readFrom_of_readDigits? {hexadecimal : Bool} (h : readDigits? hexadecimal cs = some d) :
    ReadFrom cs d := by
  simp only [readDigits?] at h
  split at h
  · simp at h
  · rename_i hdigits
    rcases Option.some.inj h with rfl
    have hsuffix := (readSemicolon_suffix (cs.drop
      (cs.takeWhile fun c => (digitValue? hexadecimal c).isSome).length))
    have hlength := hsuffix.length_le
    have hpos := List.length_pos_iff.2
      (List.isEmpty_eq_false_iff.1 (Bool.not_eq_true _ ▸ hdigits))
    have hle := (List.takeWhile_prefix (fun c => (digitValue? hexadecimal c).isSome)
      (l := cs)).length_le
    rw [List.length_drop] at hlength
    refine ⟨List.cons_ne_nil _ _, hsuffix.trans (List.drop_suffix _ _), ?_, ?_, by simp⟩
    · dsimp only
      omega
    · rw [List.length_singleton]
      dsimp only
      omega

/-- A reference stands for some characters, and is followed by the end of the text. It is
    not shorter than its characters. -/
theorem readFrom_of_read? (h : read? false cs = some d) : ReadFrom cs d := by
  unfold read? at h
  split at h
  · simp at h
  · rename_i c rest
    split at h
    · unfold readNumbered? at h
      split at h
      · simp at h
      · split at h
        · exact ((readFrom_of_readDigits? h).cons _).cons _
        · exact (readFrom_of_readDigits? h).cons _
    · unfold readNamed? at h
      split at h
      · simp at h
      · rename_i name numbers hname
        simp only [Bool.false_and, Bool.false_eq_true, if_false, Option.some.injEq] at h
        rcases h with rfl
        rcases prefix_of_longestName? hname with ⟨hfront, hknown⟩
        have hlength := hfront.length_le
        have hpos := List.length_pos_iff.2 hknown.name_ne
        -- A name of at least one character stands for two at most.
        have hle := hknown.length_le
        refine ⟨hknown.ne, List.drop_suffix _ _, ?_, ?_, hknown.ampersand⟩
        · rw [List.length_drop]
          omega
        · dsimp only
          rw [List.length_drop]
          omega

/-- A reference is decoded to its characters. -/
theorem decodeText_reference (h : read? false cs = some d) :
    decodeText ('&' :: cs) = d.characters ++ decodeText d.rest := by
  rw [decodeText, if_pos rfl]
  split
  · rename_i found hfound
    rcases Option.some.inj (h.symm.trans hfound) with rfl
    rfl
  · rename_i hfound
    rw [h] at hfound
    simp at hfound

/-- Every other character is decoded to itself. -/
theorem decodeText_plain {c : Char} (h : c = '&' → read? false cs = none) :
    decodeText (c :: cs) = c :: decodeText cs := by
  rw [decodeText]
  split
  · rename_i hc
    split
    · rename_i found hfound
      rw [h hc] at hfound
      simp at hfound
    · rfl
  · rfl

/-- Decoding makes no text longer. -/
theorem length_decodeText_le (cs : List Char) : (decodeText cs).length ≤ cs.length := by
  induction cs using decodeText.induct with
  | case1 => rw [decodeText]
  | case2 cs d hread hle ih =>
      -- The ampersand counts for the one character by which a reference may be longer.
      have hlength := (readFrom_of_read? hread).length_le
      rw [decodeText_reference hread, List.length_append, List.length_cons]
      omega
  | case3 cs hread ih =>
      rw [decodeText_plain fun _ => hread, List.length_cons, List.length_cons]
      exact Nat.succ_le_succ ih
  | case4 c cs hampersand ih =>
      rw [decodeText_plain fun hc => absurd hc hampersand, List.length_cons, List.length_cons]
      exact Nat.succ_le_succ ih

/-- A text decodes to itself exactly if there is no reference in it. -/
theorem decodeText_eq_self_iff (cs : List Char) :
    decodeText cs = cs ↔ hasReference cs = false := by
  induction cs using decodeText.induct with
  | case1 => rw [decodeText, hasReference, eq_self, eq_self]
  | case2 cs d hread hle ih =>
      have hd := readFrom_of_read? hread
      have hhas : hasReference ('&' :: cs) = true := by simp [hasReference, hread]
      rw [hhas, decodeText_reference hread]
      refine iff_of_false (fun hsame => ?_) Bool.noConfusion
      -- Only a reference to the ampersand would do, and it is too short without its name.
      have hhead : d.characters.head? = some '&' := by
        cases hcharacters : d.characters with
        | nil => exact absurd hcharacters hd.ne
        | cons c ds =>
            rw [hcharacters, List.cons_append] at hsame
            rw [(List.cons.inj hsame).1]
            rfl
      rw [hd.ampersand hhead, List.singleton_append] at hsame
      have hlength := congrArg List.length (List.cons.inj hsame).2
      have hle := length_decodeText_le d.rest
      have hlt := hd.rest_lt
      omega
  | case3 cs hread ih =>
      have hhas : hasReference ('&' :: cs) = hasReference cs := by simp [hasReference, hread]
      rw [decodeText_plain fun _ => hread, hhas, ← ih, List.cons.injEq, and_iff_right rfl]
  | case4 c cs hampersand ih =>
      have hhas : hasReference (c :: cs) = hasReference cs := by
        simp [hasReference, hampersand]
      rw [decodeText_plain fun hc => absurd hc hampersand, hhas, ← ih, List.cons.injEq,
        and_iff_right rfl]

end Reading

end Reference

open Reference

/-- Whether a character behind an opening bracket makes it the start of a tag or of a
    comment. -/
def opensMarkup (c : Char) : Bool :=
  c.isAlpha || c = '/' || c = '!' || c = '?'

/-- Whether no opening bracket of a text is the start of a tag or of a comment. -/
def Quiet (cs : List Char) : Prop :=
  cs.IsChain fun c d => c = '<' → opensMarkup d = false

instance (cs : List Char) : Decidable (Quiet cs) :=
  inferInstanceAs (Decidable (List.IsChain _ cs))

/-- The rest of a quiet text is quiet. -/
theorem Quiet.suffix {cs ds : List Char} (h : Quiet cs) (hsuffix : ds <:+ cs) : Quiet ds :=
  List.IsChain.suffix h hsuffix

section Pieces

variable {names : List Name} {b : Builder} {cs : List Char}

/-- An opening bracket that is the start of nothing is a piece. -/
theorem next_less {d : Char} (hd : opensMarkup d = false) (foreign : Bool) (rest : List Char) :
    next .data foreign '<' (d :: rest) = ⟨[.text ['<']], d :: rest, false⟩ := by
  simp only [opensMarkup, Bool.or_eq_false_iff, decide_eq_false_iff_not] at hd
  rcases hd with ⟨⟨⟨halpha, hslash⟩, hbang⟩, hquestion⟩
  simp only [next, nextData, readMarkup, if_true, if_neg hbang, if_neg hslash, halpha,
    Bool.false_eq_true, if_false, if_neg hquestion]

/-- What stands behind an ampersand decides what it is. -/
theorem next_ampersand (foreign : Bool) (rest : List Char) :
    next .data foreign '&' rest = readReference rest := by
  have hless : ('&' : Char) ≠ '<' := by decide
  simp only [next, nextData, if_neg hless, if_true]

/-- A reference is taken for its characters, with or without its semicolon. -/
theorem Receptive.grow_reference (h : Receptive names b) {d : Decoded}
    (hread : read? false cs = some d) (hne : d.characters ≠ []) :
    grow b ('&' :: cs) =
      grow (b.filled [.text (String.ofList d.characters)] b.nextId b.formatting) d.rest := by
  have hsame : { b with skipsLineFeed := false } = b := by rw [← h.skipsLineFeed]
  have hpiece : next b.reading b.currentIsForeign '&' cs =
      ⟨[.text d.characters], d.rest, !d.complete⟩ := by
    rw [h.reading, next_ampersand, readReference, hread]
  rw [grow]
  simp only [hpiece, Builder.take, hsame, ite_self, List.foldl_cons, List.foldl_nil,
    h.accept_text hne]

/-- An ampersand that is the start of nothing stands for itself. -/
theorem Receptive.grow_ampersand (h : Receptive names b) (hread : read? false cs = none) :
    grow b ('&' :: cs) =
      grow (b.filled [.text (String.ofList ['&'])] b.nextId b.formatting) cs := by
  have hpiece : next .data b.currentIsForeign '&' cs = ⟨[.text ['&']], cs, false⟩ := by
    rw [next_ampersand, readReference, hread]
  rw [h.grow_piece hpiece, h.accept_text (List.cons_ne_nil _ _)]

/-- Characters that are read behind a text join it. -/
theorem Receptive.grow_behind (h : Receptive names b) {ds es : List Char} {rest : List Char}
    (hgrow : ∀ b, Receptive names b → cs ≠ [] → grow b (cs ++ rest) =
      grow (b.filled [.text (String.ofList es)] b.nextId b.formatting) rest)
    (hnil : cs = [] → es = []) :
    grow (b.filled [.text (String.ofList ds)] b.nextId b.formatting) (cs ++ rest) =
      grow (b.filled [.text (String.ofList (ds ++ es))] b.nextId b.formatting) rest := by
  by_cases hcs : cs = []
  · rw [hcs, hnil hcs, List.nil_append, List.append_nil]
  · rw [hgrow _ (h.filled_text ds) hcs, filled_filled_text]
    rfl

/-- A quiet text in front of a tag is read as the text that it decodes to. -/
theorem Receptive.grow_quiet (h : Receptive names b) (hquiet : Quiet cs) (hnull : '\x00' ∉ cs)
    (hne : cs ≠ []) (rest : List Char) :
    grow b (cs ++ '<' :: rest) =
      grow (b.filled [.text (String.ofList (decodeText cs))] b.nextId b.formatting)
        ('<' :: rest) := by
  -- The induction follows the decoding. What is read first is a text, and what is read
  -- behind it joins it, so the state in between takes texts again.
  induction cs using decodeText.induct generalizing b with
  | case1 => exact absurd rfl hne
  | case2 cs d hread hle ih =>
      have hd := readFrom_of_read? hread
      have hbehind : read? false (cs ++ '<' :: rest) = some (d.before ('<' :: rest)) := by
        rw [read?_append, hread, Option.map_some]
      have hsuffix := hd.suffix.trans (List.suffix_cons '&' cs)
      rw [List.cons_append, h.grow_reference hbehind hd.ne, decodeText_reference hread]
      exact h.grow_behind (fun b hb => ih hb (hquiet.suffix hsuffix)
        fun hmem => hnull (hsuffix.subset hmem)) fun hnil => by rw [hnil, decodeText]
  | case3 cs hread ih =>
      have hbehind : read? false (cs ++ '<' :: rest) = none := by
        rw [read?_append, hread, Option.map_none]
      have hsuffix := List.suffix_cons '&' cs
      rw [List.cons_append, h.grow_ampersand hbehind, decodeText_plain fun _ => hread]
      exact h.grow_behind (fun b hb => ih hb (hquiet.suffix hsuffix)
        fun hmem => hnull (hsuffix.subset hmem)) fun hnil => by rw [hnil, decodeText]
  | case4 c cs hampersand ih =>
      have hsuffix := List.suffix_cons c cs
      have hcontinue (ds : List Char) :
          grow (b.filled [.text (String.ofList ds)] b.nextId b.formatting) (cs ++ '<' :: rest) =
            grow (b.filled [.text (String.ofList (ds ++ decodeText cs))] b.nextId b.formatting)
              ('<' :: rest) :=
        h.grow_behind (fun b hb => ih hb (hquiet.suffix hsuffix)
          fun hmem => hnull (hsuffix.subset hmem)) fun hnil => by rw [hnil, decodeText]
      rw [decodeText_plain fun hc => absurd hc hampersand]
      by_cases hless : c = '<'
      · -- Behind the bracket stands a character of the text or else that of the tag.
        have hhead : ∃ d ds, cs ++ '<' :: rest = d :: ds ∧ opensMarkup d = false := by
          cases cs with
          | nil => exact ⟨'<', rest, rfl, by decide⟩
          | cons d cs => exact ⟨d, _, rfl, (List.isChain_cons_cons.1 hquiet).1 hless⟩
        rcases hhead with ⟨d, ds, hds, hd⟩
        rw [hless, List.cons_append, hds, h.grow_piece (next_less hd _ ds),
          h.accept_text (List.cons_ne_nil _ _), ← hds]
        exact hcontinue ['<']
      · have hrun : isRunChar c = true := by
          have hc : c ≠ '\x00' := fun hc => hnull (hc ▸ List.mem_cons_self)
          simp [isRunChar, hless, hampersand, hc]
        rw [List.cons_append, h.grow_run hrun]
        exact hcontinue [c]

end Pieces

end Html

end SoleRoot
