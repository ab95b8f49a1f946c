import SoleRoot.Proofs.Json.Strings

/-!
# The Spelling of Objects of Strings

Which texts stand for an object of strings, and that the reader takes exactly those.

The grammar goes from the inside out: a string, the value behind a key, a member, and
the members up to the closing bracket, with white space before any of their marks. A
key may come more than once, so what an object stands for is the list of its members
as they stand in the text.

What is made of the members is another matter. A reader of objects folds a step over
them, and `readStrings` is the reader that does so with any step; the theorems are
about this one, so they hold whether a repeated key is kept, replaced or merged.

## Main definitions

* `StringText`, `ValueText`, `MemberText`, `BodyText`, `ObjectText`: The grammar.
* `foldBehind`: What a fold over members reads behind a key.
* `readStrings`: The reader that folds a step over the members.

## Theorems

* `readKind_cases`: What a value is found to be, by how it begins.
* `takes_readString`, `stringText_of_readString`: A string is read as it is spelled.
* `readAll_readStrings_eq_ok_iff`: An object is read as the fold over its members, and
  nothing else is read at all.
-/

namespace SoleRoot

namespace Json

/-- Whether a text is white space before a rest. -/
def Spaced (text rest : List Char) : Prop :=
  ∃ space, (∀ c ∈ space, isSpace c = true) ∧ text = space ++ rest

/-- Whether a text stands for a string, before a rest. -/
def StringText (text : List Char) (s : String) (rest : List Char) : Prop :=
  ∃ inside, Spaced text ('"' :: inside) ∧ Spells inside s.toList rest

/-- Whether a text behind a key stands for a colon and a string, before a rest. -/
def ValueText (text : List Char) (s : String) (rest : List Char) : Prop :=
  ∃ behind, Spaced text (':' :: behind) ∧ StringText behind s rest

/-- Whether a text stands for a member whose value is a string, before a rest. -/
def MemberText (text : List Char) (m : String × String) (rest : List Char) : Prop :=
  ∃ behind, StringText text m.1 behind ∧ ValueText behind m.2 rest

/-- Whether a text behind a member stands for more members and the closing bracket. -/
inductive MembersRest : List Char → List (String × String) → List Char → Prop where
  | close {text rest : List Char} (h : Spaced text ('\x7d' :: rest)) : MembersRest text [] rest
  | more {text text' text'' rest : List Char} {m : String × String} {ms : List (String × String)}
    (hcomma : Spaced text (',' :: text')) (hmember : MemberText text' m text'')
    (h : MembersRest text'' ms rest) : MembersRest text (m :: ms) rest

/-- Whether a text behind an opening bracket stands for members and the closing one. -/
inductive BodyText : List Char → List (String × String) → List Char → Prop where
  | empty {text rest : List Char} (h : Spaced text ('\x7d' :: rest)) : BodyText text [] rest
  | members {text text' rest : List Char} {m : String × String} {ms : List (String × String)}
    (hmember : MemberText text m text') (h : MembersRest text' ms rest) :
    BodyText text (m :: ms) rest

/-- Whether a text is an object of strings with some members, and nothing else. -/
def ObjectText (text : List Char) (ms : List (String × String)) : Prop :=
  ∃ body rest, Spaced text ('\x7b' :: body) ∧ BodyText body ms rest ∧ Spaced rest []

section Space

/-- White space in front makes a text longer, if anything. -/
theorem Spaced.length_le {text rest : List Char} (h : Spaced text rest) :
    rest.length ≤ text.length := by
  rcases h with ⟨space, _, rfl⟩
  rw [List.length_append]
  omega

/-- What is skipped is white space. -/
theorem spaced_skipSpace (c : Cursor) : Spaced c.rest c.skipSpace.rest :=
  ⟨c.rest.takeWhile isSpace, fun _ hc => List.mem_takeWhile_imp hc,
    List.takeWhile_append_dropWhile.symm⟩

/-- White space is skipped up to what does not begin with any. -/
theorem skipSpace_of_spaced {text rest : List Char} (h : Spaced text rest)
    (hrest : ∀ c ∈ rest.head?, isSpace c = false) (k : Nat) :
    ∃ k', (⟨k, text⟩ : Cursor).skipSpace = ⟨k', rest⟩ := by
  rcases h with ⟨space, hspace, rfl⟩
  refine ⟨k + Text.byteSize space, ?_⟩
  simp only [Cursor.skipSpace, Cursor.behind, Text.takeWhile_append_stop hspace hrest,
    Text.dropWhile_append_stop hspace hrest]

/-- A character that comes next is the first of the rest. -/
theorem eq_cons_of_peek? {c : Cursor} {x : Char} (h : c.peek? = some x) :
    c.rest = x :: c.next.rest := by
  cases hc : c.rest with
  | nil => simp [Cursor.peek?, hc] at h
  | cons y ys =>
      simp only [Cursor.peek?, hc, List.head?_cons, Option.some.injEq] at h
      simp [Cursor.next, hc, h]

/-- A mark is read behind white space. -/
theorem takes_readMark {text rest : List Char} {mark : Char} (hmark : isSpace mark = false)
    (atEnd otherwise : Cause) (h : Spaced text (mark :: rest)) (k : Nat) :
    ∃ k', Cursor.readMark mark atEnd otherwise ⟨k, text⟩ = .ok ⟨k', rest⟩ := by
  rcases skipSpace_of_spaced h (Text.forall_mem_head?_cons.2 hmark) k with ⟨k', hskip⟩
  refine ⟨k' + mark.utf8Size, ?_⟩
  simp only [Cursor.readMark, hskip]
  exact if_pos rfl

/-- Where a mark was read there was one, behind white space. -/
theorem spaced_of_readMark {mark : Char} {atEnd otherwise : Cause} {c c' : Cursor}
    (h : c.readMark mark atEnd otherwise = .ok c') : Spaced c.rest (mark :: c'.rest) := by
  simp only [Cursor.readMark] at h
  split at h
  · rename_i hpeek
    rcases Except.ok.inj h with rfl
    rw [← eq_cons_of_peek? hpeek]
    exact spaced_skipSpace c
  · simp [Cursor.failAtNext, Cursor.failAhead] at h

end Space

section Strings

/-- A string is read to its end before it is known what is wanted. -/
theorem takes_readQuoted {text rest : List Char} {s : String} (h : Spells text s.toList rest) :
    Takes readQuoted text s rest := by
  intro k
  rcases takes_readText h k with ⟨k', hread⟩
  refine ⟨k', ?_⟩
  simp only [readQuoted, hread, Except.map, String.ofList_toList]

/-- What is read behind a quote is spelled there. -/
theorem spells_of_readQuoted {c c' : Cursor} {s : String} (h : readQuoted c = .ok (s, c')) :
    Spells c.rest s.toList c'.rest := by
  rcases map_eq_ok_iff.1 h with ⟨⟨cs, c₁⟩, hread, heq⟩
  simp only [Prod.mk.injEq] at heq
  rcases heq with ⟨rfl, rfl⟩
  rw [String.toList_ofList]
  exact spells_of_readText hread

/-- What a value is found to be: a string if a quote comes next, an object if a
    bracket does, and otherwise neither. -/
theorem readKind_cases {c c' : Cursor} {kind : Kind} (h : readKind c = .ok (kind, c')) :
    (∃ s, kind = .string s ∧ StringText c.rest s c'.rest) ∨
      (∃ body, kind = .map ∧ c' = c.skipSpace ∧ c'.rest = '\x7b' :: body) ∨
      ((∀ s, kind ≠ .string s) ∧ kind ≠ .map) := by
  have hspace := spaced_skipSpace c
  simp only [readKind] at h
  split at h
  · simp [Cursor.fail] at h
  rename_i x hpeek
  have hx := eq_cons_of_peek? hpeek
  -- A word is neither, whichever it is.
  have hword {k : Kind} {letters : List Char}
      (hk : (∀ s, k ≠ .string s) ∧ k ≠ .map)
      (h : (Cursor.readWord letters c.skipSpace).map (fun c => (k, c)) = .ok (kind, c')) :
      (∀ s, kind ≠ .string s) ∧ kind ≠ .map := by
    rcases map_eq_ok_iff.1 h with ⟨c₁, _, heq⟩
    exact (Prod.mk.inj heq).1 ▸ hk
  split at h
  · exact .inr (.inr (hword (by simp) h))
  split at h
  · exact .inr (.inr (hword (by simp) h))
  split at h
  · exact .inr (.inr (hword (by simp) h))
  split at h
  · rename_i hquote
    rcases map_eq_ok_iff.1 h with ⟨⟨s, c₁⟩, hread, heq⟩
    simp only [Prod.mk.injEq] at heq
    rcases heq with ⟨rfl, rfl⟩
    rw [hx, hquote] at hspace
    exact .inl ⟨s, rfl, _, hspace, spells_of_readQuoted hread⟩
  split at h
  · rcases map_eq_ok_iff.1 h with ⟨⟨n, c₁⟩, _, heq⟩
    exact .inr (.inr ((Prod.mk.inj heq).1 ▸ by simp))
  split at h
  · exact .inr (.inr ((Prod.mk.inj (Except.ok.inj h)).1 ▸ by simp))
  split at h
  · rename_i hbracket
    rcases Prod.mk.inj (Except.ok.inj h) with ⟨rfl, rfl⟩
    exact .inr (.inl ⟨_, rfl, rfl, hbracket ▸ hx⟩)
  · simp [Cursor.failAhead] at h

/-- A string is found where one is spelled. -/
theorem takes_readKind_string {text rest : List Char} {s : String} (h : StringText text s rest) :
    Takes readKind text (.string s) rest := by
  intro k
  rcases h with ⟨inside, hspace, hspells⟩
  rcases skipSpace_of_spaced hspace (Text.forall_mem_head?_cons.2 (by decide)) k with ⟨k₁, hskip⟩
  rcases takes_readQuoted hspells (k₁ + '"'.utf8Size) with ⟨k', hread⟩
  refine ⟨k', ?_⟩
  simp [readKind, hskip, Cursor.peek?, Cursor.next, hread, Except.map]

/-- An object is found at its bracket, which is still to be read. -/
theorem takes_readKind_map {text body : List Char} (h : Spaced text ('\x7b' :: body)) :
    Takes readKind text .map ('\x7b' :: body) := by
  intro k
  rcases skipSpace_of_spaced h (Text.forall_mem_head?_cons.2 (by decide)) k with ⟨k', hskip⟩
  refine ⟨k', ?_⟩
  have hdigit : ('\x7b' : Char).isDigit = false := by decide
  simp [readKind, hskip, Cursor.peek?, hdigit]

/-- A string is read where one is wanted. -/
theorem takes_readString {text rest : List Char} {s : String} (h : StringText text s rest)
    (expected : String) : Takes (readString expected) text s rest := by
  intro k
  rcases takes_readKind_string h k with ⟨k', hread⟩
  exact ⟨k', by simp only [readString, hread, bind, Except.bind]⟩

/-- What is read where a string is wanted is spelled there. -/
theorem stringText_of_readString {expected : String} {c c' : Cursor} {s : String}
    (h : readString expected c = .ok (s, c')) : StringText c.rest s c'.rest := by
  simp only [readString, bind_eq_ok_iff] at h
  rcases h with ⟨⟨kind, c₁⟩, hkind, h⟩
  rcases readKind_cases hkind with ⟨t, rfl, htext⟩ | ⟨_, rfl, _⟩ | ⟨hstring, _⟩
  · simp only [Except.ok.injEq, Prod.mk.injEq] at h
    rcases h with ⟨rfl, rfl⟩
    exact htext
  · simp [wrongKind, Cursor.fail] at h
  -- All other kinds are refused.
  · cases kind with
    | string t => exact absurd rfl (hstring t)
    | _ => simp [wrongKind, Cursor.fail] at h

end Strings

section Keys

/-- At the closing bracket there is no other key. -/
theorem takes_readKey?_close {text rest : List Char} (h : Spaced text ('\x7d' :: rest))
    (first : Bool) : Takes (readKey? first) text none ('\x7d' :: rest) := by
  intro k
  rcases skipSpace_of_spaced h (Text.forall_mem_head?_cons.2 (by decide)) k with ⟨k', hskip⟩
  refine ⟨k', ?_⟩
  simp only [readKey?, hskip]
  rfl

/-- The first key needs no comma. -/
theorem takes_readKey?_first {text rest : List Char} {key : String} (h : StringText text key rest) :
    Takes (readKey? true) text (some key) rest := by
  intro k
  rcases h with ⟨inside, hspace, hspells⟩
  rcases skipSpace_of_spaced hspace (Text.forall_mem_head?_cons.2 (by decide)) k with ⟨k₁, hskip⟩
  rcases takes_readQuoted hspells (k₁ + '"'.utf8Size) with ⟨k', hread⟩
  refine ⟨k', ?_⟩
  simp [readKey?, hskip, Cursor.peek?, Cursor.next, hread, Except.map]

/-- All other keys stand behind one. -/
theorem takes_readKey?_next {text behind rest : List Char} {key : String}
    (hcomma : Spaced text (',' :: behind)) (h : StringText behind key rest) :
    Takes (readKey? false) text (some key) rest := by
  intro k
  rcases h with ⟨inside, hspace, hspells⟩
  rcases skipSpace_of_spaced hcomma (Text.forall_mem_head?_cons.2 (by decide)) k with ⟨k₁, hskip⟩
  rcases skipSpace_of_spaced hspace (Text.forall_mem_head?_cons.2 (by decide)) (k₁ + ','.utf8Size)
    with ⟨k₂, hskip'⟩
  rcases takes_readQuoted hspells (k₂ + '"'.utf8Size) with ⟨k', hread⟩
  refine ⟨k', ?_⟩
  simp [readKey?, hskip, Cursor.peek?, Cursor.next, hskip', hread, Except.map]

/-- What comes next in an object: its end, or a key, behind a comma if it is not the
    first. -/
theorem readKey?_cases {first : Bool} {c c' : Cursor} {key? : Option String}
    (h : readKey? first c = .ok (key?, c')) :
    (∃ rest, key? = none ∧ Spaced c.rest ('\x7d' :: rest) ∧ c'.rest = '\x7d' :: rest) ∨
      (∃ key, key? = some key ∧ first = true ∧ StringText c.rest key c'.rest) ∨
      (∃ key behind, key? = some key ∧ first = false ∧ Spaced c.rest (',' :: behind) ∧
        StringText behind key c'.rest) := by
  have hspace := spaced_skipSpace c
  -- Where a key is read at all it begins with a quote.
  have hkey {d : Cursor} (hquote : d.peek? = some '"')
      (h : (readQuoted d.next).map (fun p => (some p.1, p.2)) = .ok (key?, c')) :
      ∃ key, key? = some key ∧ d.rest = '"' :: d.next.rest ∧
        Spells d.next.rest key.toList c'.rest := by
    rcases map_eq_ok_iff.1 h with ⟨⟨key, c₁⟩, hread, heq⟩
    simp only [Prod.mk.injEq] at heq
    rcases heq with ⟨rfl, rfl⟩
    exact ⟨key, rfl, eq_cons_of_peek? hquote, spells_of_readQuoted hread⟩
  simp only [readKey?] at h
  split at h
  · simp [Cursor.fail] at h
  split at h
  · rename_i hclose
    rcases Prod.mk.inj (Except.ok.inj h) with ⟨rfl, rfl⟩
    have hrest := eq_cons_of_peek? hclose
    rw [hrest] at hspace
    exact .inl ⟨_, rfl, hspace, hrest⟩
  split at h
  · rename_i hfirst
    split at h
    · rename_i hquote
      rcases hkey hquote h with ⟨key, hsome, hrest, hspells⟩
      rw [hrest] at hspace
      exact .inr (.inl ⟨key, hsome, hfirst, _, hspace, hspells⟩)
    · simp [Cursor.failAhead] at h
  · rename_i hfirst
    split at h
    · rename_i hcomma
      rw [eq_cons_of_peek? hcomma] at hspace
      -- There may be white space on both sides of the comma.
      have hspace' := spaced_skipSpace c.skipSpace.next
      split at h
      · rename_i hquote
        rcases hkey hquote h with ⟨key, hsome, hrest, hspells⟩
        rw [hrest] at hspace'
        exact .inr (.inr ⟨key, _, hsome, Bool.eq_false_iff.2 hfirst, hspace, _, hspace', hspells⟩)
      · split at h
        · simp [Cursor.failAhead] at h
        · simp [Cursor.failAtNext, Cursor.failAhead] at h
    · simp [Cursor.failAhead] at h

end Keys

section Rounds

variable {σ : Type}

/-- What a fold over members reads behind a key, or at the end. -/
def foldBehind (step : σ → String → Reader σ) (rounds : Nat) (s : σ) : Option String → Reader σ
  | none, c => .ok (s, c)
  | some key, c => (step s key c).bind fun p => foldMembers step rounds false p.1 p.2

/-- A round of the fold reads a key or the end, and then goes on. -/
theorem foldMembers_succ (step : σ → String → Reader σ) (rounds : Nat) (first : Bool) (s : σ) :
    foldMembers step (rounds + 1) first s =
      fun c => (readKey? first c).bind fun p => foldBehind step rounds s p.1 p.2 := by
  funext c
  simp only [foldMembers, bind]
  congr 1
  funext p
  rcases p with ⟨key?, c'⟩
  cases key? with
  | none => rfl
  | some key => rfl

end Rounds

/-- A member whose value is a string. -/
def stringMember (m : String × String) : String × Value :=
  (m.1, .string m.2)

/-- Read the colon and the string behind a key, and put the member into what is made of
    those before it. -/
def readStringMember {σ : Type} (expected : String) (put : σ → String × String → σ) (s : σ)
    (key : String) : Reader σ := fun c => do
  let c ← readColon c
  let (value, c) ← readString expected c
  .ok (put s (key, value), c)

/-- Read an object of strings by folding a step over its members. -/
def readStrings {σ : Type} (title expected : String) (put : σ → String × String → σ) (start : σ) :
    Reader σ := fun c => do
  match ← readKind c with
  | (.map, c) => do
    let (s, c) ← readMembers (readStringMember expected put) start c.next
    .ok (s, c.next)
  | (found, c) => wrongKind title found c

section Members

variable {σ : Type} {title expected : String} {put : σ → String × String → σ}

variable (expected put)

/-- The value of a member is read where a string is spelled behind a colon. -/
theorem takes_readStringMember {text rest : List Char} {value : String}
    (h : ValueText text value rest) (s : σ) (key : String) :
    Takes (readStringMember expected put s key) text (put s (key, value)) rest := by
  intro k
  rcases h with ⟨behind, hcolon, hvalue⟩
  rcases takes_readMark (by decide) .endOfObject .expectedColon hcolon k with ⟨k₁, hread⟩
  rcases takes_readString hvalue expected k₁ with ⟨k', hread'⟩
  refine ⟨k', ?_⟩
  simp only [readStringMember, readColon, hread, hread', bind, Except.bind]

variable {expected put}

/-- What is put into a fold is spelled behind the key. -/
theorem valueText_of_readStringMember {s s' : σ} {key : String} {c c' : Cursor}
    (h : readStringMember expected put s key c = .ok (s', c')) :
    ∃ value, ValueText c.rest value c'.rest ∧ s' = put s (key, value) := by
  simp only [readStringMember, bind_eq_ok_iff] at h
  rcases h with ⟨c₁, hcolon, ⟨value, c₂⟩, hvalue, h⟩
  simp only [Except.ok.injEq, Prod.mk.injEq] at h
  rcases h with ⟨rfl, rfl⟩
  exact ⟨value, ⟨c₁.rest, spaced_of_readMark hcolon, stringText_of_readString hvalue⟩, rfl⟩

theorem Escape.length_lt {text rest : List Char} {c : Char} (h : Escape text c rest) :
    rest.length < text.length := by
  cases h with
  | letter h => exact Nat.lt_succ_self _
  | number => simp only [List.length_cons, List.length_append]; omega
  | pair => simp only [List.length_cons, List.length_append]; omega

theorem Spells.length_lt {text cs rest : List Char} (h : Spells text cs rest) :
    rest.length < text.length := by
  induction h with
  | quote => exact Nat.lt_succ_self _
  | plain _ _ _ _ ih => exact Nat.lt_succ_of_lt ih
  | escape hescape _ ih =>
      have hlt := hescape.length_lt
      rw [List.length_cons]
      omega

/-- A string takes at least one character. -/
theorem StringText.length_lt {text rest : List Char} {s : String} (h : StringText text s rest) :
    rest.length < text.length := by
  rcases h with ⟨inside, hspace, hspells⟩
  have hle := hspace.length_le
  have hlt := hspells.length_lt
  rw [List.length_cons] at hle
  omega

theorem MemberText.length_lt {text rest : List Char} {m : String × String}
    (h : MemberText text m rest) : rest.length < text.length := by
  rcases h with ⟨behind, hkey, value, hcolon, hvalue⟩
  have hle := hcolon.length_le
  have hlt := hkey.length_lt
  have hlt' := hvalue.length_lt
  rw [List.length_cons] at hle
  omega

/-- A member takes at least one character. -/
theorem MembersRest.length_le {text rest : List Char} {ms : List (String × String)}
    (h : MembersRest text ms rest) : ms.length ≤ text.length := by
  induction h with
  | close => exact Nat.zero_le _
  | more hcomma hmember _ ih =>
      have hle := hcomma.length_le
      have hlt := hmember.length_lt
      rw [List.length_cons] at hle ⊢
      omega

variable (expected put)

/-- The members behind the first one are folded as they are spelled, if there are enough rounds. -/
theorem takes_foldMembers_rest {text rest : List Char} {ms : List (String × String)}
    (h : MembersRest text ms rest) {rounds : Nat} (hrounds : ms.length < rounds) (s : σ) :
    Takes (foldMembers (readStringMember expected put) rounds false s) text (ms.foldl put s)
      ('\x7d' :: rest) := by
  induction h generalizing rounds s with
  | close h =>
      -- A round is left for the bracket, as there was one for each member.
      cases rounds with
      | zero => exact absurd hrounds (Nat.not_lt_zero _)
      | succ rounds =>
          rw [foldMembers_succ]
          exact (takes_readKey?_close h false).bind fun k => ⟨k, rfl⟩
  | @more text text' text'' rest m ms hcomma hmember _ ih =>
      cases rounds with
      | zero => exact absurd hrounds (Nat.not_lt_zero _)
      | succ rounds =>
          rcases hmember with ⟨behind, hkey, hvalue⟩
          have hmore := ih (Nat.lt_of_succ_lt_succ hrounds) (put s m)
          rw [foldMembers_succ]
          exact (takes_readKey?_next hcomma hkey).bind
            ((takes_readStringMember expected put hvalue s m.1).bind hmore)

/-- The members of an object are folded as they are spelled. -/
theorem takes_readMembers {text rest : List Char} {ms : List (String × String)}
    (h : BodyText text ms rest) (s : σ) :
    Takes (readMembers (readStringMember expected put) s) text (ms.foldl put s)
      ('\x7d' :: rest) := by
  suffices hfold : Takes (foldMembers (readStringMember expected put) (text.length + 1) true s) text
      (ms.foldl put s) ('\x7d' :: rest) from fun k => hfold k
  rw [foldMembers_succ]
  cases h with
  | empty h => exact (takes_readKey?_close h true).bind fun k => ⟨k, rfl⟩
  | @members text' _ m ms hmember h =>
      -- There are as many rounds as characters, and each member has one at least.
      have hrounds : ms.length < text.length :=
        Nat.lt_of_le_of_lt h.length_le hmember.length_lt
      rcases hmember with ⟨behind, hkey, hvalue⟩
      have hmore := takes_foldMembers_rest expected put h hrounds (put s m)
      exact (takes_readKey?_first hkey).bind
        ((takes_readStringMember expected put hvalue s m.1).bind hmore)

variable {expected put}

/-- Where the fold has come to its end, members and a closing bracket were spelled. -/
theorem membersRest_of_foldMembers {rounds : Nat} {s s' : σ} {c c' : Cursor}
    (h : foldMembers (readStringMember expected put) rounds false s c = .ok (s', c')) :
    ∃ ms rest, MembersRest c.rest ms rest ∧ c'.rest = '\x7d' :: rest ∧ s' = ms.foldl put s := by
  induction rounds generalizing s c with
  | zero => simp [foldMembers, Cursor.fail] at h
  | succ rounds ih =>
      simp only [foldMembers, bind_eq_ok_iff] at h
      rcases h with ⟨⟨key?, c₁⟩, hkey, h⟩
      rcases readKey?_cases hkey with ⟨rest, rfl, hclose, hrest⟩ | ⟨key, _, hfirst, _⟩ |
        ⟨key, behind, rfl, _, hcomma, hkey⟩
      · simp only [Except.ok.injEq, Prod.mk.injEq] at h
        rcases h with ⟨rfl, rfl⟩
        exact ⟨[], rest, .close hclose, hrest, rfl⟩
      -- A key without a comma can only be the first one.
      · exact absurd hfirst Bool.false_ne_true
      · simp only [bind_eq_ok_iff] at h
        rcases h with ⟨⟨s₁, c₂⟩, hstep, h⟩
        rcases valueText_of_readStringMember hstep with ⟨value, hvalue, rfl⟩
        rcases ih h with ⟨ms, rest, hms, hrest, rfl⟩
        exact ⟨(key, value) :: ms, rest, .more hcomma ⟨_, hkey, hvalue⟩ hms, hrest, rfl⟩

/-- The same from the first member on. -/
theorem bodyText_of_readMembers {s s' : σ} {c c' : Cursor}
    (h : readMembers (readStringMember expected put) s c = .ok (s', c')) :
    ∃ ms rest, BodyText c.rest ms rest ∧ c'.rest = '\x7d' :: rest ∧ s' = ms.foldl put s := by
  simp only [readMembers, foldMembers, bind_eq_ok_iff] at h
  rcases h with ⟨⟨key?, c₁⟩, hkey, h⟩
  rcases readKey?_cases hkey with ⟨rest, rfl, hclose, hrest⟩ | ⟨key, rfl, _, hkey⟩ |
    ⟨_, _, _, hfirst, _⟩
  · simp only [Except.ok.injEq, Prod.mk.injEq] at h
    rcases h with ⟨rfl, rfl⟩
    exact ⟨[], rest, .empty hclose, hrest, rfl⟩
  · simp only [bind_eq_ok_iff] at h
    rcases h with ⟨⟨s₁, c₂⟩, hstep, h⟩
    rcases valueText_of_readStringMember hstep with ⟨value, hvalue, rfl⟩
    rcases membersRest_of_foldMembers h with ⟨ms, rest, hms, hrest, rfl⟩
    exact ⟨(key, value) :: ms, rest, .members ⟨_, hkey, hvalue⟩ hms, hrest, rfl⟩
  · exact absurd hfirst.symm Bool.false_ne_true

variable (title expected put)

/-- An object of strings is read as the fold over its members. -/
theorem takes_readStrings {text body rest : List Char} {ms : List (String × String)}
    (hopen : Spaced text ('\x7b' :: body)) (hbody : BodyText body ms rest) (start : σ) :
    Takes (readStrings title expected put start) text (ms.foldl put start) rest := by
  intro k
  rcases takes_readKind_map hopen k with ⟨k₁, hkind⟩
  rcases takes_readMembers expected put hbody start (k₁ + '\x7b'.utf8Size)
    with ⟨k₂, hmembers⟩
  refine ⟨k₂ + '\x7d'.utf8Size, ?_⟩
  simp only [readStrings, hkind, bind, Except.bind, Cursor.next, hmembers]

variable {title expected put}

/-- What is read as an object of strings is spelled as one. -/
theorem exists_of_readStrings {start s : σ} {c c' : Cursor}
    (h : readStrings title expected put start c = .ok (s, c')) :
    ∃ body ms, Spaced c.rest ('\x7b' :: body) ∧ BodyText body ms c'.rest ∧
      s = ms.foldl put start := by
  simp only [readStrings, bind_eq_ok_iff] at h
  rcases h with ⟨⟨kind, c₁⟩, hkind, h⟩
  rcases readKind_cases hkind with ⟨t, rfl, _⟩ | ⟨body, rfl, rfl, hbody⟩ | ⟨_, hmap⟩
  -- A string is refused where an object is wanted.
  · simp [wrongKind, Cursor.fail] at h
  · simp only [bind_eq_ok_iff] at h
    rcases h with ⟨⟨s₁, c₂⟩, hmembers, h⟩
    simp only [Except.ok.injEq, Prod.mk.injEq] at h
    rcases h with ⟨rfl, rfl⟩
    rcases bodyText_of_readMembers hmembers with ⟨ms, rest, hms, hrest, rfl⟩
    have hspace := spaced_skipSpace c
    rw [hbody] at hspace
    have hnext {d : Cursor} {x : Char} {xs : List Char} (hd : d.rest = x :: xs) :
        d.next.rest = xs := by
      simp [Cursor.next, hd]
    rw [hnext hbody] at hms
    rw [hnext hrest]
    exact ⟨body, ms, hspace, hms, rfl⟩
  · cases kind with
    | map => exact absurd rfl hmap
    | _ => simp [wrongKind, Cursor.fail] at h

/-- A text is read as what a fold makes of some members exactly if it is an object of
    strings with these members. -/
theorem readAll_readStrings_eq_ok_iff {source : String} {start s : σ} :
    readAll (readStrings title expected put start) source = .ok s ↔
      ∃ ms, ObjectText source.toList ms ∧ s = ms.foldl put start := by
  rw [readAll, mapError_eq_ok_iff]
  simp only [bind_eq_ok_iff]
  constructor
  · rintro ⟨⟨s', c⟩, hread, h⟩
    split at h
    · rename_i hempty
      rcases Except.ok.inj h with rfl
      rcases exists_of_readStrings hread with ⟨body, ms, hopen, hbody, rfl⟩
      have hspace := spaced_skipSpace c
      rw [List.isEmpty_iff.1 hempty] at hspace
      exact ⟨ms, ⟨body, c.rest, hopen, hbody, hspace⟩, rfl⟩
    -- Anything but white space behind the object is refused.
    · simp [Cursor.failAhead] at h
  · rintro ⟨ms, ⟨body, rest, hopen, hbody, hspace⟩, rfl⟩
    rcases takes_readStrings title expected put hopen hbody start 0
      with ⟨k, hread⟩
    rcases skipSpace_of_spaced hspace (by simp) k with ⟨k', hskip⟩
    refine ⟨_, hread, ?_⟩
    simp [hskip]

end Members

end Json

end SoleRoot
