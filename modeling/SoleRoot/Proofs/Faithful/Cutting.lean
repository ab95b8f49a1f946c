import SoleRoot.Faithful.Token
import SoleRoot.Proofs.Text.Runs
import Mathlib.Data.List.Chain

/-!
# Cutting Joined Tokens

When the tokens of a text are the ones it was joined from.

A token is `Whole` if cutting its own text gives it back with nothing left
over. That is a condition on the token alone. `next_replace` is what makes it
enough: the end of a construct is found by looking at the construct only, so a
token is cut from the front of a text in the same way whatever follows it. The
one exception is a text run, which ends where the next angle bracket stands,
and so two text runs side by side are cut as one.

`cut_flatMap_raw` puts this together. Tokens that are whole, no two texts among
them side by side, are the tokens of the text they make up. The converse holds
too: what `cut` finds is whole and has its texts apart, so these two conditions
describe the cuts exactly.

For tags the condition comes down to quotes. `openQuote?` follows a tag's
content and says which quote is open behind it, and a content is cut off by the
next closing angle bracket if no quote is.

## Main definitions

* `openQuote?`: The quote that is open behind a text in which no tag ends.
* `Token.isText`: Whether a token is a text run.
* `Token.Whole`: A token that cutting its own text gives back.
* `Separate`: No two text runs are neighbours.

## Theorems

* `breakTag?_eq_some_iff`: Where a tag ends.
* `next_replace`: A token is cut in the same way whatever follows it.
* `cut_flatMap_raw`: Whole tokens, their texts apart, are found again.
* `whole_of_mem_cut`, `separate_cut`: The tokens of a text are of this kind.
-/

namespace SoleRoot

namespace Faithful

/-- The quote that is open behind a text, if no tag ends inside the text.
    `quote` is the one that is open in front of it. -/
def openQuote? : (quote : Option Quote) → List Char → Option (Option Quote)
  | quote, [] => some quote
  | none, c :: cs => if c = '>' then none else openQuote? (Quote.ofChar? c) cs
  | some quote, c :: cs => openQuote? (if c = quote.toChar then none else some quote) cs

/-- A text leaves open what its second part leaves open behind its first. -/
theorem openQuote?_append (quote : Option Quote) (a b : List Char) :
    openQuote? quote (a ++ b) = (openQuote? quote a).bind (openQuote? · b) := by
  -- The quote that is open behind the first text is open in front of the second.
  induction a generalizing quote with
  | nil => cases quote <;> rfl
  | cons c a ih =>
      cases quote with
      | none =>
          rw [List.cons_append, openQuote?, openQuote?]
          split
          · rfl
          · exact ih _
      | some quote => exact ih _

/-- A closing angle bracket ends a tag if no quote is open before it. -/
theorem breakTag?_append {quote : Option Quote} {content : List Char}
    (h : openQuote? quote content = some none) (rest : List Char) :
    breakTag? quote (content ++ '>' :: rest) = some (content, rest) := by
  -- The open quote is the state of the reader as well as of `openQuote?`.
  induction content generalizing quote with
  | nil =>
      cases quote with
      | none => rfl
      | some quote => simp [openQuote?] at h
  | cons c content ih =>
      cases quote with
      | none =>
          rw [openQuote?] at h
          split at h
          · simp at h
          · rename_i hc
            rw [List.cons_append, breakTag?, if_neg hc, ih h]
            rfl
      | some quote =>
          rw [openQuote?] at h
          rw [List.cons_append, breakTag?, ih h]
          rfl

/-- In front of the bracket that ends a tag no quote is open. -/
theorem openQuote?_of_breakTag? {quote : Option Quote} {cs content rest : List Char}
    (h : breakTag? quote cs = some (content, rest)) : openQuote? quote content = some none := by
  induction cs generalizing quote content with
  | nil => cases quote <;> simp [breakTag?] at h
  | cons c cs ih =>
      cases quote with
      | none =>
          simp only [breakTag?] at h
          split at h
          · simp only [Option.some.injEq, Prod.mk.injEq] at h
            rw [← h.1]
            rfl
          · rename_i hc
            rcases Option.map_eq_some_iff.1 h with ⟨⟨a, b⟩, hab, heq⟩
            simp only [Prod.mk.injEq] at heq
            rcases heq with ⟨rfl, rfl⟩
            rw [openQuote?, if_neg hc]
            exact ih hab
      | some quote =>
          rcases Option.map_eq_some_iff.1 h with ⟨⟨a, b⟩, hab, heq⟩
          simp only [Prod.mk.injEq] at heq
          rcases heq with ⟨rfl, rfl⟩
          rw [openQuote?]
          exact ih hab

/-- A tag ends at the first closing angle bracket that is not quoted. -/
theorem breakTag?_eq_some_iff {quote : Option Quote} {cs content rest : List Char} :
    breakTag? quote cs = some (content, rest) ↔
      cs = content ++ '>' :: rest ∧ openQuote? quote content = some none :=
  ⟨fun h => ⟨eq_of_breakTag? h, openQuote?_of_breakTag? h⟩,
    fun ⟨hcs, hq⟩ => hcs ▸ breakTag?_append hq rest⟩

/-- A document type ends at the same bracket whatever follows. -/
theorem breakDoctype?_replace {depth : Nat} {cs content rest : List Char}
    (h : breakDoctype? depth cs = some (content, rest)) (rest' : List Char) :
    breakDoctype? depth (content ++ '>' :: rest') = some (content, rest') := by
  induction cs generalizing depth content with
  | nil => simp [breakDoctype?] at h
  | cons c cs ih =>
      simp only [breakDoctype?] at h
      split at h
      · rename_i hc
        -- A closing bracket ends the declaration or a bracket inside it.
        cases depth with
        | zero =>
            simp only [Option.some.injEq, Prod.mk.injEq] at h
            rw [← h.1]
            rfl
        | succ depth =>
            rcases Option.map_eq_some_iff.1 h with ⟨⟨a, b⟩, hab, heq⟩
            simp only [Prod.mk.injEq] at heq
            rcases heq with ⟨rfl, rfl⟩
            rw [List.cons_append, breakDoctype?.eq_def]
            simp only [if_pos hc, ih hab, Option.map_some]
      · rename_i hc
        rcases Option.map_eq_some_iff.1 h with ⟨⟨a, b⟩, hab, heq⟩
        simp only [Prod.mk.injEq] at heq
        rcases heq with ⟨rfl, rfl⟩
        rw [List.cons_append, breakDoctype?.eq_def]
        simp only [if_neg hc, ih hab, Option.map_some]

/-- The keyword has no closing angle bracket, so it stands before the first
    one. -/
theorem startsWithDoctype_replace {content rest : List Char}
    (h : startsWithDoctype (content ++ '>' :: rest) = true) (rest' : List Char) :
    startsWithDoctype (content ++ '>' :: rest') = true := by
  have hlen : 7 ≤ content.length := by
    by_contra hlt
    -- Otherwise the bracket would be one of the letters of the keyword.
    have hmem : '>' ∈ (content ++ '>' :: rest).take 7 := by
      refine List.mem_take_iff_getElem.2 ⟨content.length, ?_, ?_⟩
      · simp only [List.length_append, List.length_cons]
        omega
      · simp
    have := List.mem_map_of_mem (f := Char.toUpper) hmem
    rw [startsWithDoctype, beq_iff_eq] at h
    rw [h] at this
    revert this
    decide
  rw [startsWithDoctype, List.take_append_of_le_length hlen] at h ⊢
  exact h

/-- A construct between two marks is cut at the closing one whatever follows. -/
theorem nextBetween_replace {opening closing cs rest : List Char} {make : List Char → Token}
    {failure : Unterminated} {t : Token}
    (h : nextBetween opening closing make failure cs = .ok (t, rest)) :
    ∃ content, t = make content ∧ cs = opening ++ (content ++ closing ++ rest) ∧
      ∀ rest', nextBetween opening closing make failure (opening ++ (content ++ closing ++ rest')) =
        .ok (t, rest') := by
  unfold nextBetween at h
  split at h
  · rename_i content after heq
    simp only [Except.ok.injEq, Prod.mk.injEq] at h
    rcases h with ⟨rfl, rfl⟩
    -- The closing mark alone says where the content ends.
    rcases Option.bind_eq_some_iff.1 heq with ⟨body, hbody, hbreak⟩
    refine ⟨content, rfl, ?_, fun rest' => ?_⟩
    · rw [Text.strip?_eq_some_iff.1 hbody, Text.eq_of_breakOn? hbreak]
    · rw [nextBetween, Text.strip?_eq_some_iff.2 rfl, Option.bind_some,
        Text.breakOn?_replace hbreak]
  · simp at h

namespace Token

/-- Whether a token is a text run. -/
def isText : Token → Bool
  | text _ => true
  | _ => false

/-- Every other token starts with an opening angle bracket. -/
theorem head?_raw {t : Token} (h : t.isText = false) : t.raw.head? = some '<' := by
  cases t with
  | text content => simp [isText] at h
  | _ => rfl

end Token

/-- A tag is not a text run. -/
theorem isText_tagOf (content : List Char) : (tagOf content).isText = false := by
  unfold tagOf
  split <;> rfl

/-- A tag is cut at its closing bracket whatever follows. -/
theorem nextTag_replace {cs rest : List Char} {make : List Char → Token} {t : Token}
    (h : nextTag make cs = .ok (t, rest)) :
    ∃ content, t = make content ∧ cs = content ++ '>' :: rest ∧
      ∀ rest', nextTag make (content ++ '>' :: rest') = .ok (t, rest') := by
  unfold nextTag at h
  split at h
  · rename_i content after heq
    simp only [Except.ok.injEq, Prod.mk.injEq] at h
    rcases h with ⟨rfl, rfl⟩
    rcases breakTag?_eq_some_iff.1 heq with ⟨hcs, hq⟩
    refine ⟨content, rfl, hcs, fun rest' => ?_⟩
    rw [nextTag, breakTag?_append hq]
  · simp at h

/-- A document type is cut at its closing bracket whatever follows. -/
theorem nextDoctype_replace {cs rest : List Char} {t : Token}
    (h : nextDoctype cs = .ok (t, rest)) :
    ∃ content, t = .doctype content ∧ cs = content ++ '>' :: rest ∧
      ∀ rest', nextDoctype (content ++ '>' :: rest') = .ok (t, rest') := by
  unfold nextDoctype at h
  split at h
  · rename_i content after heq
    simp only [Except.ok.injEq, Prod.mk.injEq] at h
    rcases h with ⟨rfl, rfl⟩
    split at heq
    · rename_i hkey
      have hcs := eq_of_breakDoctype? heq
      refine ⟨content, rfl, hcs, fun rest' => ?_⟩
      rw [hcs] at hkey
      rw [nextDoctype, if_pos (startsWithDoctype_replace hkey rest'),
        breakDoctype?_replace heq]
    · simp at heq
  · simp at h

/-- What is cut behind an exclamation mark is cut there whatever follows. -/
theorem nextBang_replace {cs rest : List Char} {t : Token} (h : nextBang cs = .ok (t, rest)) :
    ∃ body, t.raw = '<' :: '!' :: body ∧ t.isText = false ∧ cs = body ++ rest ∧
      ∀ rest', nextBang (body ++ rest') = .ok (t, rest') := by
  unfold nextBang at h
  -- A comment, a CDATA section or a document type. The first two begin with
  -- their opening mark, and so does every text that has them in front.
  split at h
  · rcases nextBetween_replace h with ⟨content, rfl, hcs, hrest⟩
    refine ⟨['-', '-'] ++ (content ++ ['-', '-', '>']), rfl, rfl, by simp [hcs], fun rest' => ?_⟩
    rw [nextBang, if_pos (by rfl), ← hrest rest']
    simp only [List.append_assoc]
  split at h
  · rcases nextBetween_replace h with ⟨content, rfl, hcs, hrest⟩
    refine ⟨['[', 'C', 'D', 'A', 'T', 'A', '['] ++ (content ++ [']', ']', '>']), rfl, rfl,
      by simp [hcs], fun rest' => ?_⟩
    rw [nextBang, if_neg (by simp), if_pos (by rfl), ← hrest rest']
    simp only [List.append_assoc]
  split at h
  · rename_i hhead
    rcases nextDoctype_replace h with ⟨content, rfl, hcs, hrest⟩
    refine ⟨content ++ ['>'], rfl, rfl, by simp [hcs], fun rest' => ?_⟩
    -- The keyword is not empty, so its first letter is still the first.
    cases content with
    | nil =>
        rw [hcs] at hhead
        simp at hhead
    | cons c content =>
        rw [hcs] at hhead
        have hhead' : c = 'D' ∨ c = 'd' := by simpa using hhead
        rw [nextBang, if_neg (by rcases hhead' with rfl | rfl <;> simp),
          if_neg (by rcases hhead' with rfl | rfl <;> simp), if_pos (by simpa using hhead'),
          ← hrest rest', List.append_assoc]
        rfl
  · simp at h

/-- What is cut behind an opening angle bracket is cut there whatever follows. -/
theorem nextMarkup_replace {cs rest : List Char} {t : Token} (h : nextMarkup cs = .ok (t, rest)) :
    ∃ body, t.raw = '<' :: body ∧ t.isText = false ∧ cs = body ++ rest ∧
      ∀ rest', nextMarkup (body ++ rest') = .ok (t, rest') := by
  unfold nextMarkup at h
  split at h
  · simp at h
  rename_i c after
  -- The character behind the bracket decides, and it belongs to the body.
  split at h
  · rename_i hc
    rcases nextBang_replace h with ⟨body, hraw, htext, rfl, hrest⟩
    exact ⟨'!' :: body, hraw, htext, by rw [hc]; rfl, fun rest' => hrest rest'⟩
  split at h
  · rename_i hc
    unfold nextInstruction at h
    split at h
    · simp at h
    · rename_i hhead
      rcases nextBetween_replace h with ⟨content, rfl, rfl, hrest⟩
      refine ⟨'?' :: (content ++ ['?', '>']), rfl, rfl, by simp [hc], fun rest' => ?_⟩
      have hhead' : ¬ (content ++ ['?', '>'] ++ rest').head? = some '>' := by
        cases content with
        | nil => simp
        | cons d content => simpa using hhead
      rw [nextMarkup.eq_def]
      simp only [List.cons_append]
      rw [if_neg (by decide), if_pos trivial, nextInstruction, if_neg hhead']
      exact hrest rest'
  split at h
  · rename_i hc
    rcases nextTag_replace h with ⟨content, rfl, rfl, hrest⟩
    refine ⟨'/' :: (content ++ ['>']), rfl, rfl, by simp [hc], fun rest' => ?_⟩
    rw [List.cons_append, List.append_assoc]
    exact hrest rest'
  · rename_i hbang hquestion hslash
    rcases nextTag_replace h with ⟨content, rfl, hcs, hrest⟩
    refine ⟨content ++ ['>'], by rw [raw_tagOf]; rfl, isText_tagOf content, by simp [hcs],
      fun rest' => ?_⟩
    -- The content may be empty, and then the first character is the bracket.
    cases content with
    | nil => exact hrest rest'
    | cons d content =>
        rcases List.cons.inj hcs with ⟨rfl, _⟩
        rw [nextMarkup.eq_def]
        simp only [List.cons_append]
        rw [if_neg hbang, if_neg hquestion, if_neg hslash, ← hrest rest', List.append_assoc]
        rfl

/-- An opening angle bracket begins markup. -/
theorem next_angle (cs : List Char) : next ('<' :: cs) = nextMarkup cs := by
  have h : Text.strip? ['<'] ('<' :: cs) = some cs := Text.strip?_eq_some_iff.2 rfl
  rw [next, h]

/-- Everything else begins a text run, up to the next bracket. -/
theorem next_of_ne_angle {cs : List Char} (h : cs.head? ≠ some '<') :
    next cs = .ok (.text (cs.takeWhile (· ≠ '<')), cs.dropWhile (· ≠ '<')) := by
  cases hs : Text.strip? ['<'] cs with
  | none => rw [next, hs]
  | some rest =>
      rw [Text.strip?_eq_some_iff.1 hs] at h
      exact absurd rfl h

/-- A text run is cut off by an opening angle bracket or by the end. -/
theorem next_text {content rest : List Char} (hcontent : '<' ∉ content)
    (hrest : ∀ c ∈ rest.head?, c = '<') (hne : content ≠ []) :
    next (content ++ rest) = .ok (.text content, rest) := by
  have ha : ∀ c ∈ content, decide (c ≠ '<') = true := fun c hc =>
    decide_eq_true fun h => hcontent (h ▸ hc)
  have hb : ∀ c ∈ rest.head?, decide (c ≠ '<') = false := fun c hc => by
    rw [hrest c hc]
    rfl
  have hhead : (content ++ rest).head? ≠ some '<' := by
    cases content with
    | nil => exact absurd rfl hne
    | cons c content =>
        simp only [List.cons_append, List.head?_cons, ne_eq, Option.some.injEq]
        exact fun h => hcontent (h ▸ List.mem_cons_self)
  rw [next_of_ne_angle hhead, Text.takeWhile_append_stop ha hb, Text.dropWhile_append_stop ha hb]

/-- A token is cut in the same way whatever follows it, unless it is a text
    run, which something has to end. -/
theorem next_replace {cs rest : List Char} {t : Token} (h : next cs = .ok (t, rest))
    (hcs : cs ≠ []) {rest' : List Char} (hrest : t.isText = true → ∀ c ∈ rest'.head?, c = '<') :
    next (t.raw ++ rest') = .ok (t, rest') := by
  -- A construct has its own end, and a text run needs one.
  by_cases hhead : cs.head? = some '<'
  · rcases List.head?_eq_some_iff.1 hhead with ⟨cs, rfl⟩
    rw [next_angle] at h
    rcases nextMarkup_replace h with ⟨body, hraw, _, rfl, hbody⟩
    rw [hraw, List.cons_append, next_angle, hbody]
  · have hne := raw_ne_nil_of_next h hcs
    rw [next_of_ne_angle hhead] at h
    simp only [Except.ok.injEq, Prod.mk.injEq] at h
    rcases h with ⟨rfl, _⟩
    exact next_text (Text.not_mem_takeWhile_ne '<' cs) (hrest rfl) hne

namespace Token

/-- A token that cutting its own text gives back, with nothing left over. -/
structure Whole (t : Token) : Prop where
  next_raw : next t.raw = .ok (t, [])
  raw_ne_nil : t.raw ≠ []

/-- A whole token is cut from the front of a text, whatever follows it. -/
theorem Whole.next_append {t : Token} (h : t.Whole) {rest : List Char}
    (hrest : t.isText = true → ∀ c ∈ rest.head?, c = '<') :
    next (t.raw ++ rest) = .ok (t, rest) :=
  next_replace h.next_raw h.raw_ne_nil hrest

/-- What is cut from a text is whole. -/
theorem whole_of_next {cs rest : List Char} {t : Token} (h : next cs = .ok (t, rest))
    (hcs : cs ≠ []) : t.Whole where
  next_raw := by
    have happ : next (t.raw ++ []) = .ok (t, []) :=
      next_replace h hcs fun _ c hc => by simp at hc
    rwa [List.append_nil] at happ
  raw_ne_nil := raw_ne_nil_of_next h hcs

end Token

/-- No two text runs are neighbours. -/
def Separate (ts : List Token) : Prop :=
  ts.IsChain fun a b => a.isText = true → b.isText = false

@[simp] theorem cut_nil : cut [] = ⟨[], none⟩ := by
  rw [cut, dif_pos rfl]

/-- The tokens of a text are the first one and those of the rest. -/
theorem cut_of_next {cs rest : List Char} {t : Token} (hcs : cs ≠ [])
    (h : next cs = .ok (t, rest)) : cut cs = ⟨t :: (cut rest).tokens, (cut rest).failure⟩ := by
  rw [cut, dif_neg hcs]
  split
  · rename_i failure heq
    rw [h] at heq
    simp at heq
  · rename_i t' rest' heq
    rw [h] at heq
    simp only [Except.ok.injEq, Prod.mk.injEq] at heq
    rcases heq with ⟨rfl, rfl⟩
    rfl

/-- Whole tokens, their texts apart, are the tokens of the text they make up. -/
theorem cut_flatMap_raw {ts : List Token} (hwhole : ∀ t ∈ ts, t.Whole) (hsep : Separate ts) :
    cut (ts.flatMap Token.raw) = ⟨ts, none⟩ := by
  induction ts with
  | nil => exact cut_nil
  | cons t ts ih =>
      have ht : t.Whole := hwhole t List.mem_cons_self
      -- A text run is ended by the bracket of the token behind it.
      have hrest : t.isText = true → ∀ c ∈ (ts.flatMap Token.raw).head?, c = '<' := by
        intro htext c hc
        cases ts with
        | nil => simp at hc
        | cons u ts =>
            have hu : u.isText = false := (List.isChain_cons_cons.1 hsep).1 htext
            rw [List.flatMap_cons, List.head?_append, Token.head?_raw hu] at hc
            simpa using hc.symm
      rw [List.flatMap_cons, cut_of_next (by simp [ht.raw_ne_nil]) (ht.next_append hrest),
        ih (fun u hu => hwhole u (List.mem_cons_of_mem t hu)) hsep.tail]

/-- All tokens of a text are whole. -/
theorem whole_of_mem_cut {cs : List Char} : ∀ t ∈ (cut cs).tokens, t.Whole := by
  -- Each token was cut from a text that is not empty.
  fun_induction cut cs with
  | case1 => simp
  | case2 cs hcs failure hn => simp
  | case3 cs hcs t rest hn hlt after ih =>
      intro u hu
      rcases List.mem_cons.1 hu with rfl | hu
      · exact Token.whole_of_next hn hcs
      · exact ih u hu

/-- A token that starts with an angle bracket is no text run. -/
theorem isText_of_next {cs rest : List Char} {t : Token} (h : next cs = .ok (t, rest))
    (hhead : cs.head? = some '<') : t.isText = false := by
  rcases List.head?_eq_some_iff.1 hhead with ⟨cs, rfl⟩
  rw [next_angle] at h
  exact (nextMarkup_replace h).choose_spec.2.1

/-- What follows a text run starts with an opening angle bracket. -/
theorem head?_of_next_text {cs rest : List Char} {t : Token} (h : next cs = .ok (t, rest))
    (htext : t.isText = true) : ∀ c ∈ rest.head?, c = '<' := by
  by_cases hhead : cs.head? = some '<'
  · rw [isText_of_next h hhead] at htext
    exact absurd htext Bool.false_ne_true
  · rw [next_of_ne_angle hhead] at h
    simp only [Except.ok.injEq, Prod.mk.injEq] at h
    rcases h with ⟨_, rfl⟩
    exact fun c hc => by simpa using Text.not_head_dropWhile c hc

/-- No two text runs are neighbours among the tokens of a text. -/
theorem separate_cut (cs : List Char) : Separate (cut cs).tokens := by
  fun_induction cut cs with
  | case1 => exact List.isChain_nil
  | case2 cs hcs failure hn => exact List.isChain_nil
  | case3 cs hcs t rest hn hlt after ih =>
      refine List.isChain_cons.2 ⟨fun u hu htext => ?_, ih⟩
      -- A second token means that text is left, and it starts with a bracket.
      have hne : rest ≠ [] := by
        rintro rfl
        simp [after] at hu
      have hhead : rest.head? = some '<' := by
        rcases List.exists_cons_of_ne_nil hne with ⟨c, rest, rfl⟩
        rw [List.head?_cons, head?_of_next_text hn htext c rfl]
      cases hu' : next rest with
      | error failure =>
          have : after = ⟨[], some failure⟩ := by
            simp only [after]
            rw [cut, dif_neg hne]
            split <;> simp_all
          simp [this] at hu
      | ok p =>
          simp only [after, cut_of_next hne hu', List.head?_cons, Option.mem_def,
            Option.some.injEq] at hu
          rw [← hu]
          exact isText_of_next hu' hhead

end Faithful

end SoleRoot
