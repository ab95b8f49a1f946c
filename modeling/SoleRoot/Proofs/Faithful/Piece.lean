import SoleRoot.Faithful.Printer
import SoleRoot.Proofs.Faithful.Clause
import Mathlib.Data.List.DropRight

/-!
# Spelled Pieces

What the reading that keeps spelling makes of an attribute section, and when
writing gives the section back.

A `Piece` is one attribute as this reading divides it: blank characters, a
name, a separator, and a value between quotes. It is not the grammar of the
strict reading. White space is any blank character here, a name ends at any
equals sign, the first character included, and the separator may lack the
equals sign altogether.

The reading takes anything, and where it meets a value without quotes it makes
one up. What is written then has quotes that the section does not have, so it is
longer. `respell_eq_iff` draws the consequence: what is written is the section
exactly if the section is `Quoted`, a row of pieces and blank characters behind
them. Since what is written is never shorter, a loss in one section cannot be
made up for in another.

A clause of the strict grammar is a piece if its key has no blank character and
does not start with an equals sign. This is the place where the two readings
meet, and the only place where they can part.

## Main definitions

* `Piece`, `Piece.text`, `Piece.toAttribute`: An attribute, its value in quotes.
* `Quoted`: A section in which every value stands in quotes.
* `respell`: What is written for a section that was read.
* `Clause.Plain`, `Clauses.Plain`: Clauses that both readings divide alike.
* `Clause.toAttribute`: What is recorded of such a clause.

## Theorems

* `scan_text`: Pieces are read one for one.
* `quoted_or_length_lt`: A section is written as it stands or written longer.
* `filter_respell`: What is written differs from the section in quotes only.
* `respell_eq_iff`: It is the section exactly if every value stands in quotes.
* `Clauses.scan_text`: Plain clauses are read one for one.
-/

namespace SoleRoot

namespace Faithful

/-- An attribute as the reading that keeps spelling divides it, if its value
    stands in quotes. -/
structure Piece where
  /-- The blank characters before the name. -/
  lead : List Char
  name : List Char
  /-- The blank characters behind the name. -/
  before : List Char
  /-- The blank characters behind the equals sign, if there is one. -/
  after? : Option (List Char)
  quote : Quote
  value : List Char
  lead_blank : ∀ c ∈ lead, Text.isBlank c = true
  name_char : ∀ c ∈ name, isNameChar c = true
  before_blank : ∀ c ∈ before, Text.isBlank c = true
  after_blank : ∀ after ∈ after?, ∀ c ∈ after, Text.isBlank c = true
  /-- Blank characters before a name that is missing stand before the piece. -/
  nameless : name = [] → before = []
  /-- Something has to stand between name and value. -/
  bare : after? = none → before ≠ []
  quote_free : quote.toChar ∉ value

namespace Piece

/-- What stands between name and value. -/
def separator (p : Piece) : List Char :=
  p.before ++ (p.after?.map ('=' :: ·)).getD []

/-- The piece behind its leading blank characters. -/
def body (p : Piece) : List Char :=
  p.name ++ p.separator ++ p.quote.toChar :: p.value ++ [p.quote.toChar]

/-- The characters of a piece. -/
def text (p : Piece) : List Char :=
  p.lead ++ p.body

/-- What is recorded of a piece. -/
def toAttribute (p : Piece) : Attribute where
  name := String.ofList p.name
  value := String.ofList p.value
  quote := p.quote
  leading := unusual? [' '] p.lead
  separator := unusual? ['='] p.separator

@[simp] theorem writeAttribute_toAttribute (p : Piece) : writeAttribute p.toAttribute = p.text := by
  simp [writeAttribute, toAttribute, text, body]

end Piece

theorem isBlank_toChar (q : Quote) : Text.isBlank q.toChar = false := by
  cases q <;> rfl

theorem isNameChar_of_isBlank {c : Char} (h : Text.isBlank c = true) : isNameChar c = false := by
  rw [isNameChar, h, Bool.not_true, Bool.and_false]

/-- A character that neither belongs to a name nor is blank is an equals
    sign. -/
theorem eq_equals_of_not_isNameChar {c : Char} (h : isNameChar c = false)
    (hc : Text.isBlank c = false) : c = '=' := by
  simpa [isNameChar, hc] using h

/-- A value in quotes is read up to its closing quote. -/
theorem scanValue_quoted {q : Quote} {value : List Char} (h : q.toChar ∉ value)
    (rest : List Char) :
    scanValue (q.toChar :: (value ++ q.toChar :: rest)) = (q, value, rest) := by
  rw [scanValue]
  simp only [Quote.ofChar?_toChar, Text.takeWhile_ne_append h, Text.dropWhile_ne_append h,
    List.drop_succ_cons, List.drop_zero]

/-- The three ways a value is read. Only in the first is it written as it
    stands. -/
theorem scanValue_cases {cs value rest : List Char} {q : Quote}
    (h : scanValue cs = (q, value, rest)) :
    (q.toChar ∉ value ∧ cs = q.toChar :: (value ++ q.toChar :: rest)) ∨
      (cs = q.toChar :: value ∧ rest = []) ∨
      cs = value ++ rest := by
  unfold scanValue at h
  split at h
  · simp only [Prod.mk.injEq] at h
    rcases h with ⟨rfl, rfl, rfl⟩
    exact .inr (.inr rfl)
  · rename_i c behind
    split at h
    · rename_i quote hquote
      simp only [Prod.mk.injEq] at h
      rcases h with ⟨rfl, rfl, rfl⟩
      rw [Quote.toChar_of_ofChar? hquote]
      -- The quote may have no partner, and then the value takes all that is left.
      cases hd : behind.dropWhile (· ≠ c) with
      | nil =>
          have htake := List.takeWhile_append_dropWhile (p := (· ≠ c)) (l := behind)
          rw [hd, List.append_nil] at htake
          exact .inr (.inl ⟨by rw [htake], rfl⟩)
      | cons d rest' =>
          refine .inl ⟨Text.not_mem_takeWhile_ne c behind, ?_⟩
          rw [List.drop_succ_cons, List.drop_zero, ← Text.eq_of_dropWhile_ne hd]
    · simp only [Prod.mk.injEq] at h
      rcases h with ⟨rfl, rfl, rfl⟩
      exact .inr (.inr List.takeWhile_append_dropWhile.symm)

/-- What follows the separator of a piece is its value. -/
theorem Piece.dropWhile_separator (p : Piece) (rest : List Char) :
    (skipEquals ((p.separator ++ p.quote.toChar :: rest).dropWhile Text.isBlank)).dropWhile
      Text.isBlank = p.quote.toChar :: rest := by
  have hquote : ∀ c ∈ (p.quote.toChar :: rest).head?, Text.isBlank c = false :=
    Text.forall_mem_head?_cons.2 (isBlank_toChar p.quote)
  rw [Piece.separator, List.append_assoc]
  cases ha : p.after? with
  | none =>
      have hskip : skipEquals (p.quote.toChar :: rest) = p.quote.toChar :: rest := by
        cases p.quote <;> rfl
      rw [Option.map_none, Option.getD_none, List.nil_append,
        Text.dropWhile_append_stop p.before_blank hquote, hskip,
        List.dropWhile_cons_of_neg (by simp [isBlank_toChar])]
  | some after =>
      have hequals : ∀ c ∈ ('=' :: (after ++ p.quote.toChar :: rest)).head?,
          Text.isBlank c = false :=
        Text.forall_mem_head?_cons.2 rfl
      rw [Option.map_some, Option.getD_some, List.cons_append,
        Text.dropWhile_append_stop p.before_blank hequals, skipEquals,
        Text.dropWhile_append_stop (p.after_blank after ha) hquote]

/-- A name ends at its separator. -/
theorem Piece.not_isNameChar_head (p : Piece) (rest : List Char) :
    ∀ c ∈ (p.separator ++ rest).head?, isNameChar c = false := by
  rw [Piece.separator]
  cases hb : p.before with
  | cons d ds =>
      have hd : d ∈ p.before := by rw [hb]; exact List.mem_cons_self
      exact Text.forall_mem_head?_cons.2 (isNameChar_of_isBlank (p.before_blank d hd))
  | nil =>
      -- Only an equals sign can stand next to the name.
      cases ha : p.after? with
      | none => exact absurd hb (p.bare ha)
      | some after => exact Text.forall_mem_head?_cons.2 rfl

theorem scanOne_body (p : Piece) (rest : List Char) :
    scanOne p.lead (p.body ++ rest) = (p.toAttribute, rest) := by
  have hbody : p.body ++ rest = p.name ++ (p.separator ++
      p.quote.toChar :: (p.value ++ p.quote.toChar :: rest)) := by
    simp only [Piece.body, List.append_assoc, List.cons_append, List.nil_append]
  -- The reader finds the separator by its length: it is what the value leaves.
  have hhead := p.not_isNameChar_head (p.quote.toChar :: (p.value ++ p.quote.toChar :: rest))
  rw [hbody, scanOne]
  simp only [Text.takeWhile_append_stop p.name_char hhead,
    Text.dropWhile_append_stop p.name_char hhead, p.dropWhile_separator,
    scanValue_quoted p.quote_free, Prod.mk.injEq, and_true]
  simp only [List.length_append, Nat.add_sub_cancel, List.take_left]
  rfl

/-- A piece starts with a character that is not blank. -/
theorem Piece.not_isBlank_head (p : Piece) (rest : List Char) :
    ∀ c ∈ (p.body ++ rest).head?, Text.isBlank c = false := by
  rw [Piece.body, Piece.separator]
  cases hn : p.name with
  | cons d ds =>
      have hd := p.name_char d (by rw [hn]; exact List.mem_cons_self)
      simp only [isNameChar, Bool.and_eq_true, Bool.not_eq_true'] at hd
      exact Text.forall_mem_head?_cons.2 hd.2
  | nil =>
      -- A piece without a name starts with its equals sign.
      cases ha : p.after? with
      | none => exact absurd (p.nameless hn) (p.bare ha)
      | some after =>
          rw [p.nameless hn]
          exact Text.forall_mem_head?_cons.2 rfl

theorem Piece.body_ne_nil (p : Piece) : p.body ≠ [] := by
  simp [Piece.body]

theorem scan_of_dropWhile_eq_cons {cs rest : List Char} {c : Char}
    (h : cs.dropWhile Text.isBlank = c :: rest) :
    scan cs = ((scanOne (cs.takeWhile Text.isBlank) (c :: rest)).1 ::
      (scan (scanOne (cs.takeWhile Text.isBlank) (c :: rest)).2).1,
      (scan (scanOne (cs.takeWhile Text.isBlank) (c :: rest)).2).2) := by
  rw [scan]
  split
  · simp_all
  · simp_all

theorem scan_of_blank {cs : List Char} (h : ∀ c ∈ cs, Text.isBlank c = true) :
    scan cs = ([], unusual? [] cs) := by
  rw [scan]
  split
  · rfl
  · rename_i c rest heq
    rw [List.dropWhile_eq_nil_iff.2 h] at heq
    simp at heq

/-- Pieces are read one for one. -/
theorem scan_text {pieces : List Piece} {trail : List Char}
    (htrail : ∀ c ∈ trail, Text.isBlank c = true) :
    scan (pieces.flatMap Piece.text ++ trail) =
      (pieces.map Piece.toAttribute, unusual? [] trail) := by
  induction pieces with
  | nil => exact scan_of_blank htrail
  | cons p pieces ih =>
      have htext : (p :: pieces).flatMap Piece.text ++ trail =
          p.lead ++ (p.body ++ (pieces.flatMap Piece.text ++ trail)) := by
        rw [List.flatMap_cons, Piece.text, List.append_assoc, List.append_assoc]
      -- The blank characters before a piece end where the piece begins.
      have hhead := p.not_isBlank_head (pieces.flatMap Piece.text ++ trail)
      obtain ⟨c, rest, hcons⟩ : ∃ c rest,
          p.body ++ (pieces.flatMap Piece.text ++ trail) = c :: rest :=
        List.exists_cons_of_ne_nil (by simp [p.body_ne_nil])
      have hdrop : (p.lead ++ (p.body ++ (pieces.flatMap Piece.text ++ trail))).dropWhile
          Text.isBlank = c :: rest := by
        rw [Text.dropWhile_append_stop p.lead_blank hhead, hcons]
      rw [htext, scan_of_dropWhile_eq_cons hdrop, Text.takeWhile_append_stop p.lead_blank hhead,
        ← hcons, scanOne_body, ih, List.map_cons]

/-- A section in which every value stands in quotes. -/
def Quoted (cs : List Char) : Prop :=
  ∃ (pieces : List Piece) (trail : List Char), (∀ c ∈ trail, Text.isBlank c = true) ∧
    cs = pieces.flatMap Piece.text ++ trail

/-- What is written for a section that was read. -/
def respell (cs : List Char) : List Char :=
  (scan cs).1.flatMap writeAttribute ++ spelling [] (scan cs).2

theorem respell_of_dropWhile_eq_cons {cs rest : List Char} {c : Char}
    (h : cs.dropWhile Text.isBlank = c :: rest) :
    respell cs = writeAttribute (scanOne (cs.takeWhile Text.isBlank) (c :: rest)).1 ++
      respell (scanOne (cs.takeWhile Text.isBlank) (c :: rest)).2 := by
  rw [respell, scan_of_dropWhile_eq_cons h, List.flatMap_cons, List.append_assoc]
  rfl

theorem respell_of_blank {cs : List Char} (h : ∀ c ∈ cs, Text.isBlank c = true) :
    respell cs = cs := by
  rw [respell, scan_of_blank h, List.flatMap_nil, List.nil_append, spelling_unusual?]

theorem respell_of_quoted {cs : List Char} (h : Quoted cs) : respell cs = cs := by
  rcases h with ⟨pieces, trail, htrail, rfl⟩
  rw [respell, scan_text htrail, List.flatMap_map, spelling_unusual?]
  simp only [Piece.writeAttribute_toAttribute]

theorem skipEquals_cases (cs : List Char) :
    (∃ rest, cs = '=' :: rest ∧ skipEquals cs = rest) ∨ skipEquals cs = cs := by
  unfold skipEquals
  split
  · rename_i rest
    exact .inl ⟨rest, rfl, rfl⟩
  · exact .inr rfl

/-- A name that was read is empty only in front of an equals sign. -/
theorem takeWhile_isBlank_of_nameless {c : Char} (hc : Text.isBlank c = false) {cs : List Char}
    (h : (c :: cs).takeWhile isNameChar = []) :
    ((c :: cs).dropWhile isNameChar).takeWhile Text.isBlank = [] := by
  have hname : isNameChar c = false := by
    by_contra hpos
    rw [List.takeWhile_cons_of_pos (by simpa using hpos)] at h
    exact List.cons_ne_nil _ _ h
  rw [List.dropWhile_cons_of_neg (by simp [hname]), List.takeWhile_cons_of_neg (by simp [hc])]

/-- If the value that was read stands in quotes, then so does a whole piece. -/
theorem exists_piece {lead : List Char} (hlead : ∀ d ∈ lead, Text.isBlank d = true) {c : Char}
    (hc : Text.isBlank c = false) {cs value rest : List Char} {q : Quote}
    (hquote : q.toChar ∉ value)
    (hvalue : (skipEquals (((c :: cs).dropWhile isNameChar).dropWhile Text.isBlank)).dropWhile
      Text.isBlank = q.toChar :: (value ++ q.toChar :: rest)) :
    ∃ p : Piece, p.lead = lead ∧ c :: cs = p.body ++ rest := by
  have hname : (c :: cs).takeWhile isNameChar ++ (c :: cs).dropWhile isNameChar = c :: cs :=
    List.takeWhile_append_dropWhile
  have hbefore := List.takeWhile_append_dropWhile (p := Text.isBlank)
    (l := (c :: cs).dropWhile isNameChar)
  -- The separator has an equals sign or it is blank.
  rcases skipEquals_cases (((c :: cs).dropWhile isNameChar).dropWhile Text.isBlank) with
    ⟨behind, hequals, hskip⟩ | hskip
  · rw [hskip] at hvalue
    refine ⟨
      { lead := lead
        name := (c :: cs).takeWhile isNameChar
        before := ((c :: cs).dropWhile isNameChar).takeWhile Text.isBlank
        after? := some (behind.takeWhile Text.isBlank)
        quote := q
        value := value
        lead_blank := hlead
        name_char := fun d hd => List.mem_takeWhile_imp hd
        before_blank := fun d hd => List.mem_takeWhile_imp hd
        after_blank := fun after ha d hd => List.mem_takeWhile_imp (Option.some.inj ha ▸ hd)
        nameless := takeWhile_isBlank_of_nameless hc
        bare := fun h => by simp at h
        quote_free := hquote }, rfl, ?_⟩
    have hbehind : behind.takeWhile Text.isBlank ++ q.toChar :: (value ++ q.toChar :: rest) =
        behind := by
      rw [← hvalue, List.takeWhile_append_dropWhile]
    rw [hequals, ← hbehind] at hbefore
    simp only [Piece.body, Piece.separator, Option.map_some, Option.getD_some, List.append_assoc,
      List.cons_append, List.nil_append]
    rw [hbefore, hname]
  · rw [hskip, List.dropWhile_idempotent] at hvalue
    refine ⟨
      { lead := lead
        name := (c :: cs).takeWhile isNameChar
        before := ((c :: cs).dropWhile isNameChar).takeWhile Text.isBlank
        after? := none
        quote := q
        value := value
        lead_blank := hlead
        name_char := fun d hd => List.mem_takeWhile_imp hd
        before_blank := fun d hd => List.mem_takeWhile_imp hd
        after_blank := fun after ha => by simp at ha
        nameless := takeWhile_isBlank_of_nameless hc
        bare := fun _ hnil => ?_
        quote_free := hquote }, rfl, ?_⟩
    · -- With nothing between, the quote would have been read as part of the name.
      rw [hnil, hvalue, List.nil_append] at hbefore
      have hstop : isNameChar q.toChar = false :=
        Text.not_head_dropWhile q.toChar (by rw [← hbefore]; rfl)
      exact absurd (eq_equals_of_not_isNameChar hstop (isBlank_toChar q)) (by cases q <;> decide)
    · rw [hvalue] at hbefore
      simp only [Piece.body, Piece.separator, Option.map_none, Option.getD_none, List.append_nil,
        List.append_assoc, List.cons_append, List.nil_append]
      rw [hbefore, hname]

/-- What the reading takes first is a piece, or it is written with a quote that
    the text does not have. -/
theorem scanOne_cases {lead : List Char} (hlead : ∀ d ∈ lead, Text.isBlank d = true) {c : Char}
    (hc : Text.isBlank c = false) (cs : List Char) :
    (∃ p : Piece, p.lead = lead ∧ c :: cs = p.body ++ (scanOne lead (c :: cs)).2) ∨
      ∃ pre value, ∃ q : Quote,
        writeAttribute (scanOne lead (c :: cs)).1 = pre ++ q.toChar :: (value ++ [q.toChar]) ∧
        (lead ++ c :: cs = pre ++ q.toChar :: value ∧ (scanOne lead (c :: cs)).2 = [] ∨
          lead ++ c :: cs = pre ++ (value ++ (scanOne lead (c :: cs)).2)) := by
  generalize hbv : (skipEquals (((c :: cs).dropWhile isNameChar).dropWhile
    Text.isBlank)).dropWhile Text.isBlank = beforeValue
  generalize hv : scanValue beforeValue = scanned
  rcases scanned with ⟨q, value, rest⟩
  -- The separator is what the value leaves of the text behind the name.
  have hsuffix : beforeValue <:+ (c :: cs).dropWhile isNameChar := by
    rw [← hbv]
    refine (List.dropWhile_suffix Text.isBlank).trans
      (List.IsSuffix.trans ?_ (List.dropWhile_suffix Text.isBlank))
    rcases skipEquals_cases (((c :: cs).dropWhile isNameChar).dropWhile Text.isBlank) with
      ⟨behind, heq, hskip⟩ | hskip
    · rw [hskip, heq]
      exact List.suffix_cons _ _
    · exact ⟨[], by rw [List.nil_append, hskip]⟩
  rcases hsuffix with ⟨separator, hsep⟩
  have hone : scanOne lead (c :: cs) =
      ({ name := String.ofList ((c :: cs).takeWhile isNameChar)
         value := String.ofList value
         quote := q
         leading := unusual? [' '] lead
         separator := unusual? ['='] separator }, rest) := by
    rw [scanOne]
    simp only [hbv, hv, Prod.mk.injEq, and_true, Attribute.mk.injEq, true_and]
    rw [← hsep, List.length_append, Nat.add_sub_cancel, List.take_left]
  have hcs : c :: cs = (c :: cs).takeWhile isNameChar ++ (separator ++ beforeValue) := by
    rw [hsep, List.takeWhile_append_dropWhile]
  rw [hone]
  -- Only a value between two quotes makes a piece.
  rcases scanValue_cases hv with ⟨hfree, heq⟩ | ⟨heq, hrest⟩ | heq
  · exact .inl (exists_piece hlead hc hfree (hbv.trans heq))
  · refine .inr ⟨lead ++ (c :: cs).takeWhile isNameChar ++ separator, value, q, ?_,
      .inl ⟨?_, hrest⟩⟩
    · simp [writeAttribute]
    · rw [hcs, heq]
      simp [← heq, ← hcs]
  · refine .inr ⟨lead ++ (c :: cs).takeWhile isNameChar ++ separator, value, q, ?_,
      .inr ?_⟩
    · simp [writeAttribute]
    · rw [hcs, heq]
      simp [← heq, ← hcs]

/-- What is written for the first attribute of a section. It is the attribute
    itself if that is a piece, and else two quotes are written of which the
    section has at most one. -/
theorem respell_cases {cs : List Char} (h : ¬ ∀ c ∈ cs, Text.isBlank c = true) :
    ∃ rest, rest.length < cs.length ∧
      ((∃ p : Piece, cs = p.text ++ rest ∧ respell cs = p.text ++ respell rest) ∨
        ∃ pre value, ∃ q : Quote,
          respell cs = pre ++ q.toChar :: (value ++ q.toChar :: respell rest) ∧
          (cs = pre ++ q.toChar :: value ∧ rest = [] ∨ cs = pre ++ (value ++ rest))) := by
  obtain ⟨c, behind, hdrop⟩ : ∃ c behind, cs.dropWhile Text.isBlank = c :: behind :=
    List.exists_cons_of_ne_nil fun hnil => h (List.dropWhile_eq_nil_iff.1 hnil)
  have hlead : ∀ d ∈ cs.takeWhile Text.isBlank, Text.isBlank d = true := fun d hd =>
    List.mem_takeWhile_imp hd
  have hc : Text.isBlank c = false := Text.not_head_dropWhile c (by rw [hdrop]; rfl)
  have hcs : cs.takeWhile Text.isBlank ++ c :: behind = cs := by
    rw [← hdrop, List.takeWhile_append_dropWhile]
  have hrespell := respell_of_dropWhile_eq_cons hdrop
  refine ⟨(scanOne (cs.takeWhile Text.isBlank) (c :: behind)).2, ?_, ?_⟩
  · have hlength := congrArg List.length hcs
    rw [List.length_append] at hlength
    exact (length_scanOne_lt (cs.takeWhile Text.isBlank) hc behind).trans_le (by omega)
  rcases scanOne_cases hlead hc behind with ⟨p, hp, hbody⟩ | ⟨pre, value, q, hwrite, hcases⟩
  · have hscan := scanOne_body p (scanOne (cs.takeWhile Text.isBlank) (c :: behind)).2
    rw [hp, ← hbody] at hscan
    refine .inl ⟨p, ?_, ?_⟩
    · rw [Piece.text, hp, List.append_assoc, ← hbody, hcs]
    · rw [hrespell, ← Piece.writeAttribute_toAttribute, hscan]
  · -- Behind the value that was made up the reading goes on with the same text.
    refine .inr ⟨pre, value, q, ?_, ?_⟩
    · rw [hrespell, hwrite]
      simp only [List.append_assoc, List.cons_append, List.nil_append]
    · rw [hcs] at hcases
      exact hcases

/-- Every section is either written as it stands or written longer. -/
theorem quoted_or_length_lt (cs : List Char) : Quoted cs ∨ cs.length < (respell cs).length := by
  by_cases hblank : ∀ c ∈ cs, Text.isBlank c = true
  · exact .inl ⟨[], cs, hblank, rfl⟩
  · rcases respell_cases hblank with ⟨rest, hlt, hcases⟩
    have ih := quoted_or_length_lt rest
    rcases hcases with ⟨p, hcs, hrespell⟩ | ⟨pre, value, q, hrespell, hcs⟩
    · -- The first attribute is a piece: what becomes of the section is decided behind it.
      rcases ih with ⟨pieces, trail, htrail, hrest⟩ | hlonger
      · refine .inl ⟨p :: pieces, trail, htrail, ?_⟩
        rw [List.flatMap_cons, List.append_assoc, ← hrest, hcs]
      · right
        rw [hrespell, hcs, List.length_append, List.length_append]
        omega
    · -- Two quotes more than the one that the section can have had here.
      right
      have hrest : rest.length ≤ (respell rest).length := by
        rcases ih with hquoted | hlonger
        · rw [respell_of_quoted hquoted]
        · exact hlonger.le
      rw [hrespell]
      rcases hcs with ⟨rfl, rfl⟩ | rfl
      · simp only [List.length_append, List.length_cons]
        omega
      · simp only [List.length_append, List.length_cons]
        omega
termination_by cs.length

/-- What is written for a section differs from it in quotes only. -/
theorem filter_respell (cs : List Char) :
    (respell cs).filter (fun c => (Quote.ofChar? c).isNone) =
      cs.filter fun c => (Quote.ofChar? c).isNone := by
  by_cases hblank : ∀ c ∈ cs, Text.isBlank c = true
  · rw [respell_of_blank hblank]
  · rcases respell_cases hblank with ⟨rest, hlt, hcases⟩
    have ih := filter_respell rest
    rcases hcases with ⟨p, rfl, hrespell⟩ | ⟨pre, value, q, hrespell, hcs⟩
    · rw [hrespell, List.filter_append, List.filter_append, ih]
    · have hquote : (Quote.ofChar? q.toChar).isNone = false := by
        rw [Quote.ofChar?_toChar, Option.isNone_some]
      rw [hrespell]
      rcases hcs with ⟨rfl, rfl⟩ | rfl
      · simp only [List.filter_append, List.filter_cons, hquote, Bool.false_eq_true, if_false, ih,
          List.filter_nil, List.append_nil]
      · simp only [List.filter_append, List.filter_cons, hquote, Bool.false_eq_true, if_false, ih]
termination_by cs.length

/-- A section is written as it stands exactly if every value in it stands in
    quotes. -/
theorem respell_eq_iff {cs : List Char} : respell cs = cs ↔ Quoted cs := by
  constructor
  · intro h
    rcases quoted_or_length_lt cs with hquoted | hlonger
    · exact hquoted
    · rw [h] at hlonger
      exact absurd hlonger (lt_irrefl _)
  · exact respell_of_quoted

namespace Clause

/-- Whether both readings end the key of a clause at the same place. -/
def Plain (c : Clause) : Prop :=
  c.first ≠ '=' ∧ ∀ d ∈ c.key, Text.isBlank d = false

/-- What the reading that keeps spelling records of a clause, if it divides it
    in the same way. -/
def toAttribute (c : Clause) : Attribute where
  name := String.ofList c.key
  value := String.ofList c.value
  quote := c.quote
  leading := unusual? [' '] c.lead
  separator := unusual? ['='] c.separator

theorem isNameChar_of_plain {c : Clause} (h : c.Plain) : ∀ d ∈ c.key, isNameChar d = true := by
  intro d hd
  have hequals : d ≠ '=' := by
    rcases List.mem_cons.1 hd with rfl | hothers
    · exact h.1
    · have := c.others_key d hothers
      rw [isKeyChar, Bool.and_eq_true, decide_eq_true_eq] at this
      exact this.1
  rw [isNameChar, h.2 d hd, decide_eq_true hequals, Bool.not_false, Bool.and_true]

/-- A plain clause is a piece. -/
theorem exists_piece_of_plain {c : Clause} (h : c.Plain) :
    ∃ p : Piece, p.text = c.text ∧ p.toAttribute = c.toAttribute := by
  refine ⟨
    { lead := c.lead
      name := c.key
      before := c.before
      after? := some c.after
      quote := c.quote
      value := c.value
      lead_blank := fun d hd => Text.isBlank_of_isXmlSpace (c.lead_space d hd)
      name_char := isNameChar_of_plain h
      before_blank := fun d hd => Text.isBlank_of_isXmlSpace (c.before_space d hd)
      after_blank := fun after ha d hd =>
        Text.isBlank_of_isXmlSpace (c.after_space d (by rw [Option.some.inj ha]; exact hd))
      nameless := fun hnil => absurd hnil (List.cons_ne_nil _ _)
      bare := fun hnone => absurd hnone (Option.some_ne_none _)
      quote_free := c.quote_free }, ?_, rfl⟩
  simp only [Piece.text, Piece.body, Piece.separator, text, separator, Option.map_some,
    Option.getD_some, List.append_assoc]

end Clause

namespace Clauses

/-- Whether both readings divide a section alike. -/
def Plain (s : Clauses) : Prop :=
  ∀ c ∈ s.list, c.Plain

theorem trail_blank (s : Clauses) : ∀ c ∈ s.trail, Text.isBlank c = true := fun c hc =>
  Text.isBlank_of_isXmlSpace (s.trail_space c hc)

theorem exists_pieces_of_plain {list : List Clause} (h : ∀ c ∈ list, c.Plain) :
    ∃ pieces : List Piece, pieces.flatMap Piece.text = list.flatMap Clause.text ∧
      pieces.map Piece.toAttribute = list.map Clause.toAttribute := by
  induction list with
  | nil => exact ⟨[], rfl, rfl⟩
  | cons c list ih =>
      rcases Clause.exists_piece_of_plain (h c List.mem_cons_self) with ⟨p, htext, hattribute⟩
      rcases ih fun d hd => h d (List.mem_cons_of_mem c hd) with ⟨pieces, htexts, hattributes⟩
      refine ⟨p :: pieces, ?_, ?_⟩
      · rw [List.flatMap_cons, List.flatMap_cons, htext, htexts]
      · rw [List.map_cons, List.map_cons, hattribute, hattributes]

theorem quoted_of_plain {s : Clauses} (h : s.Plain) : Quoted s.text := by
  rcases exists_pieces_of_plain h with ⟨pieces, htexts, _⟩
  exact ⟨pieces, s.trail, s.trail_blank, by rw [text, htexts]⟩

/-- Plain clauses are read one for one. -/
theorem scan_text {s : Clauses} (h : s.Plain) :
    scan s.text = (s.list.map Clause.toAttribute, unusual? [] s.trail) := by
  rcases exists_pieces_of_plain h with ⟨pieces, htexts, hattributes⟩
  rw [text, ← htexts, Faithful.scan_text s.trail_blank, hattributes]

end Clauses

end Faithful

end SoleRoot
