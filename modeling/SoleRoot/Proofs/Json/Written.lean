import SoleRoot.Json.Record
import SoleRoot.Proofs.Json.Objects

/-!
# Reading What Was Written

What the readers make of the compact text of a value.

A value can be told from the first character of its text, and that is all that a
reader looks at which wants something else. So a text that was written for a value
stands for a string only if the value is one, and for an object of strings only if
the value is such an object: the texts of the other values begin in other ways.

A reader of records looks for the field of each key and lets it read the value.
`Answers` says what it makes of a text whether that is a record or a failure, wherever
the text stands. What a record with several members is read as is then a fold over the
members, each of which may fail; that no key comes twice is what keeps the reader from
refusing the second.

## Main definitions

* `Answers`: What a reader makes of a text, or that it refuses it.
* `behindMember`: The text of an object behind one of its members.

## Theorems

* `write_cases`: How the text of a value begins.
* `stringText_write_iff`, `bodyText_write_iff`: Which written values are strings, and
  which are objects of strings.
* `Takes.answers`, `Answers.bind`: Readers one behind the other.
* `answers_readBoolean`: A boolean is read back.
* `answers_readMembers`: The members of an object are read by a fold.
* `answers_read`: A record is read field by field.
-/

namespace SoleRoot

namespace Json

section Heads

/-- Whether a text begins as neither strings nor objects do. -/
def BeginsPlain (cs : List Char) : Prop :=
  ∃ c rest, cs = c :: rest ∧ isSpace c = false ∧ c ≠ '"' ∧ c ≠ '\x7b'

/-- A digit begins neither a string nor an object. -/
theorem beginsPlain_of_isDigit {c : Char} (h : c.isDigit = true) (rest : List Char) :
    BeginsPlain (c :: rest) := by
  refine ⟨c, rest, rfl, ?_, ?_, ?_⟩
  · rw [Bool.eq_false_iff]
    intro hspace
    simp only [isSpace, Bool.or_eq_true, decide_eq_true_eq] at hspace
    rcases hspace with ((rfl | rfl) | rfl) | rfl <;> exact absurd h (by decide)
  · rintro rfl
    exact absurd h (by decide)
  · rintro rfl
    exact absurd h (by decide)

/-- Digits may stand in front of a text that begins so. -/
theorem beginsPlain_append {digits rest : List Char} (hdigits : ∀ c ∈ digits, c.isDigit = true)
    (hrest : BeginsPlain rest) : BeginsPlain (digits ++ rest) := by
  cases digits with
  | nil => exact hrest
  | cons c digits => exact beginsPlain_of_isDigit (hdigits c (List.mem_cons_self ..)) _

theorem isDigit_of_mem_toDigits {n : Nat} {c : Char} (h : c ∈ Nat.toDigits 10 n) :
    c.isDigit = true :=
  Nat.isDigit_of_mem_toDigits (by decide) (by decide) h

/-- A whole number begins so. -/
theorem beginsPlain_toString (i : Int) : BeginsPlain (toString i).toList := by
  cases i with
  | ofNat n =>
      have hrepr : (toString (Int.ofNat n)).toList = Nat.toDigits 10 n := String.toList_ofList
      rw [hrepr]
      cases hdigits : Nat.toDigits 10 n with
      | nil => exact absurd hdigits Nat.toDigits_ne_nil
      | cons c rest =>
          have hc : c ∈ Nat.toDigits 10 n := by
            rw [hdigits]
            exact List.mem_cons_self ..
          exact beginsPlain_of_isDigit (isDigit_of_mem_toDigits hc) rest
  | negSucc n =>
      have hrepr : toString (Int.negSucc n) = "-" ++ Nat.repr (n + 1) := rfl
      rw [hrepr, String.toList_append]
      exact ⟨'-', _, rfl, by decide, by decide, by decide⟩

/-- The digits of a number begin so, however they are laid out. -/
theorem beginsPlain_displayDigits (l : Layout) (n : Nat) (e : Int) :
    BeginsPlain (displayDigits l (Nat.toDigits 10 n) e) := by
  have hpoint (rest : List Char) : BeginsPlain ('.' :: rest) :=
    ⟨'.', rest, rfl, by decide, by decide, by decide⟩
  have htake (k : Nat) : ∀ c ∈ (Nat.toDigits 10 n).take k, c.isDigit = true :=
    fun c hc => isDigit_of_mem_toDigits (List.mem_of_mem_take hc)
  have hzeros (k : Nat) : ∀ c ∈ List.replicate k '0', c.isDigit = true := by
    intro c hc
    rw [List.eq_of_mem_replicate hc]
    decide
  -- There are five layouts. Each begins with a digit or with the point.
  simp only [displayDigits]
  split
  · rw [List.append_assoc]
    exact beginsPlain_append (fun c => isDigit_of_mem_toDigits)
      (beginsPlain_append (hzeros _) (hpoint _))
  split
  · exact beginsPlain_append (htake _) (hpoint _)
  split
  · exact beginsPlain_of_isDigit (by decide) _
  split
  · rename_i d hd
    exact beginsPlain_of_isDigit (isDigit_of_mem_toDigits (hd ▸ List.mem_singleton_self d)) _
  · rw [List.append_assoc]
    exact beginsPlain_append (htake 1) (hpoint _)

/-- A floating point number begins so. -/
theorem beginsPlain_display (x : Float) : BeginsPlain (display x) := by
  have hsign {cs : List Char} (h : BeginsPlain cs) (negative : Prop) [Decidable negative] :
      BeginsPlain ((if negative then ['-'] else []) ++ cs) := by
    split
    · exact ⟨'-', cs, rfl, by decide, by decide, by decide⟩
    · exact h
  simp only [display]
  split
  · exact hsign (beginsPlain_of_isDigit (by decide) _) _
  · exact hsign (beginsPlain_displayDigits _ _ _) _

/-- How the text of a value begins: a string with a quote, an object with a bracket, and
    every other value as neither does. -/
theorem write_cases (v : Value) :
    (∃ s, v = .string s) ∨ (∃ members, v = .object members) ∨ BeginsPlain v.write := by
  cases v with
  | null => exact .inr (.inr ⟨'n', _, rfl, by decide, by decide, by decide⟩)
  | boolean value =>
      cases value with
      | true => exact .inr (.inr ⟨'t', _, rfl, by decide, by decide, by decide⟩)
      | false => exact .inr (.inr ⟨'f', _, rfl, by decide, by decide, by decide⟩)
  | number value =>
      cases value with
      | integer i => exact .inr (.inr (beginsPlain_toString i))
      | float x => exact .inr (.inr (beginsPlain_display x))
  | string s => exact .inl ⟨s, rfl⟩
  | array elements => exact .inr (.inr ⟨'[', _, rfl, by decide, by decide, by decide⟩)
  | object members => exact .inr (.inl ⟨members, rfl⟩)

end Heads

section Texts

/-- There need not be any white space. -/
theorem spaced_refl (text : List Char) : Spaced text text :=
  ⟨[], by simp, rfl⟩

/-- Before what is no white space there is none. -/
theorem spaced_cons_iff {c : Char} (h : isSpace c = false) {text rest : List Char} :
    Spaced (c :: text) rest → rest = c :: text := by
  rintro ⟨space, hspace, heq⟩
  cases space with
  | nil => exact heq.symm
  | cons d space =>
      have hd := hspace d (List.mem_cons_self ..)
      rw [List.cons_append, List.cons.injEq] at heq
      rw [← heq.1, h] at hd
      exact absurd hd Bool.false_ne_true

theorem writeString_append (s : String) (rest : List Char) :
    writeString s ++ rest = '"' :: (s.toList.flatMap writeChar ++ '"' :: rest) := by
  simp only [writeString, List.cons_append, List.append_assoc, List.nil_append]

theorem write_object_append (members : List (String × Value)) (rest : List Char) :
    (Value.object members).write ++ rest = '\x7b' :: (writeMembers members ++ '\x7d' :: rest) := by
  simp only [Value.write, List.cons_append, List.append_assoc, List.nil_append]

/-- A string is written as a text that stands for it. -/
theorem stringText_writeString (s : String) (rest : List Char) :
    StringText (writeString s ++ rest) s rest := by
  rw [writeString_append]
  exact ⟨_, spaced_refl _, spells_flatMap_writeChar _ _⟩

/-- A text stands for one string only. -/
theorem StringText.unique {text rest rest' : List Char} {s s' : String} (h : StringText text s rest)
    (h' : StringText text s' rest') : s = s' ∧ rest = rest' := by
  rcases takes_readKind_string h 0 with ⟨k, hread⟩
  rcases takes_readKind_string h' 0 with ⟨k', hread'⟩
  rw [hread, Except.ok.injEq, Prod.mk.injEq, Cursor.mk.injEq, Kind.string.injEq] at hread'
  exact ⟨hread'.1, hread'.2.2⟩

/-- What is written for a value stands for a string only if the value is one. -/
theorem stringText_write_iff {v : Value} {s : String} {rest rest' : List Char} :
    StringText (v.write ++ rest) s rest' ↔ v = .string s ∧ rest' = rest := by
  constructor
  · intro h
    rcases write_cases v with ⟨t, rfl⟩ | ⟨members, rfl⟩ | ⟨c, cs, hwrite, hspace, hquote, _⟩
    · rcases h.unique (stringText_writeString t rest) with ⟨rfl, rfl⟩
      exact ⟨rfl, rfl⟩
    · rcases h with ⟨inside, hinside, _⟩
      rw [Value.write, List.cons_append, List.cons_append] at hinside
      have heq := spaced_cons_iff (by decide) hinside
      exact absurd (List.cons.inj heq).1 (by decide)
    · rcases h with ⟨inside, hinside, _⟩
      rw [hwrite, List.cons_append] at hinside
      have heq := spaced_cons_iff hspace hinside
      exact absurd (List.cons.inj heq).1.symm hquote
  · rintro ⟨rfl, rfl⟩
    rw [Value.write]
    exact stringText_writeString s rest'

/-- The text of an object behind one of its members, up to the closing bracket and what
    follows. -/
def behindMember : List (String × Value) → List Char → List Char
  | [], rest => '\x7d' :: rest
  | (key, v) :: ms, rest => ',' :: (writeString key ++ ':' :: (v.write ++ behindMember ms rest))

/-- The members of an object are the first one and what is behind it. -/
theorem writeMembers_cons (key : String) (v : Value) (ms : List (String × Value))
    (rest : List Char) :
    writeMembers ((key, v) :: ms) ++ '\x7d' :: rest =
      writeString key ++ ':' :: (v.write ++ behindMember ms rest) := by
  induction ms generalizing key v with
  | nil => simp only [writeMembers, behindMember, List.append_assoc, List.cons_append]
  | cons m ms ih =>
      rcases m with ⟨key', v'⟩
      rw [writeMembers, behindMember, ← ih]
      · simp only [List.append_assoc, List.cons_append]
      · simp

/-- What is written for a member stands for one whose value is a string only if it is. -/
theorem memberText_write_iff {key : String} {v : Value} {m : String × String}
    {rest rest' : List Char} :
    MemberText (writeString key ++ ':' :: (v.write ++ rest)) m rest' ↔
      (key, v) = stringMember m ∧ rest' = rest := by
  constructor
  · rintro ⟨behind, hkey, behind', hcolon, hvalue⟩
    -- The key can be read in one way only, and so can what is behind it.
    rcases hkey.unique (stringText_writeString key _) with ⟨rfl, rfl⟩
    rcases List.cons.inj (spaced_cons_iff (by decide) hcolon) with ⟨_, rfl⟩
    rcases stringText_write_iff.1 hvalue with ⟨rfl, rfl⟩
    exact ⟨rfl, rfl⟩
  · rintro ⟨hm, rfl⟩
    rcases Prod.mk.inj hm with ⟨rfl, rfl⟩
    exact ⟨_, stringText_writeString m.1 _, _, spaced_refl _, stringText_write_iff.2 ⟨rfl, rfl⟩⟩

/-- The same for what is behind a member. -/
theorem membersRest_behindMember_iff {members : List (String × Value)}
    {ms : List (String × String)} {rest rest' : List Char} :
    MembersRest (behindMember members rest) ms rest' ↔
      members = ms.map stringMember ∧ rest' = rest := by
  constructor
  · intro h
    induction members generalizing ms with
    | nil =>
        cases h with
        | close h => exact ⟨rfl, (List.cons.inj (spaced_cons_iff (by decide) h)).2⟩
        -- There is a bracket where the comma would have to be.
        | more hcomma _ _ =>
            exact absurd (List.cons.inj (spaced_cons_iff (by decide) hcomma)).1 (by decide)
    | cons member members ih =>
        rcases member with ⟨key, v⟩
        cases h with
        | close h => exact absurd (List.cons.inj (spaced_cons_iff (by decide) h)).1 (by decide)
        | more hcomma hmember h =>
            rcases List.cons.inj (spaced_cons_iff (by decide) hcomma) with ⟨_, rfl⟩
            rcases memberText_write_iff.1 hmember with ⟨hm, rfl⟩
            rcases ih h with ⟨rfl, rfl⟩
            exact ⟨by rw [hm, List.map_cons], rfl⟩
  · rintro ⟨rfl, rfl⟩
    induction ms with
    | nil => exact .close (spaced_refl _)
    | cons m ms ih =>
        exact .more (spaced_refl _) (memberText_write_iff.2 ⟨rfl, rfl⟩) ih

/-- What is written for members stands for members that are strings only if they are. -/
theorem bodyText_write_iff {members : List (String × Value)} {ms : List (String × String)}
    {rest rest' : List Char} :
    BodyText (writeMembers members ++ '\x7d' :: rest) ms rest' ↔
      members = ms.map stringMember ∧ rest' = rest := by
  cases members with
  | nil =>
      rw [writeMembers, List.nil_append]
      constructor
      · intro h
        cases h with
        | empty h => exact ⟨rfl, (List.cons.inj (spaced_cons_iff (by decide) h)).2⟩
        | members hmember _ =>
            rcases hmember with ⟨behind, ⟨inside, hinside, _⟩, _⟩
            exact absurd (List.cons.inj (spaced_cons_iff (by decide) hinside)).1 (by decide)
      · rintro ⟨hms, rfl⟩
        rw [List.map_eq_nil_iff.1 hms.symm]
        exact .empty (spaced_refl _)
  | cons member members =>
      rcases member with ⟨key, v⟩
      rw [writeMembers_cons]
      constructor
      · intro h
        cases h with
        | empty h => exact absurd (List.cons.inj (spaced_cons_iff (by decide) h)).1 (by decide)
        | members hmember h =>
            rcases memberText_write_iff.1 hmember with ⟨hm, rfl⟩
            rcases membersRest_behindMember_iff.1 h with ⟨rfl, rfl⟩
            exact ⟨by rw [hm, List.map_cons], rfl⟩
      · rintro ⟨hms, rfl⟩
        rcases List.map_eq_cons_iff.1 hms.symm with ⟨m, ms', rfl, hm, rfl⟩
        exact .members (memberText_write_iff.2 ⟨hm.symm, rfl⟩)
          (membersRest_behindMember_iff.2 ⟨rfl, rfl⟩)

/-- What is written for a value stands for an object of strings only if it is one. -/
theorem objectText_write_iff {v : Value} {ms : List (String × String)} {rest rest' : List Char} :
    (∃ body, Spaced (v.write ++ rest) ('\x7b' :: body) ∧ BodyText body ms rest') ↔
      v = .object (ms.map stringMember) ∧ rest' = rest := by
  constructor
  · rintro ⟨body, hopen, hbody⟩
    rcases write_cases v with ⟨t, rfl⟩ | ⟨members, rfl⟩ | ⟨c, cs, hwrite, hspace, _, hbracket⟩
    · rw [Value.write, writeString, List.cons_append, List.cons_append] at hopen
      exact absurd (List.cons.inj (spaced_cons_iff (by decide) hopen)).1 (by decide)
    · rw [write_object_append] at hopen
      rcases List.cons.inj (spaced_cons_iff (by decide) hopen) with ⟨_, rfl⟩
      rcases bodyText_write_iff.1 hbody with ⟨rfl, rfl⟩
      exact ⟨rfl, rfl⟩
    · rw [hwrite, List.cons_append] at hopen
      exact absurd (List.cons.inj (spaced_cons_iff hspace hopen)).1.symm hbracket
  · rintro ⟨rfl, rfl⟩
    rw [write_object_append]
    exact ⟨_, spaced_refl _, bodyText_write_iff.2 ⟨rfl, rfl⟩⟩

end Texts

/-- Whether a reader makes something of a text and leaves a rest, or else refuses the
    text, wherever it stands. -/
def Answers {α : Type} (read : Reader α) (text : List Char) (a? : Option α) (rest : List Char) :
    Prop :=
  match a? with
  | some a => Takes read text a rest
  | none => ∀ k, ∃ fault, read ⟨k, text⟩ = .error fault

section Sequences

variable {α β : Type} {text middle rest : List Char} {a? : Option α}

/-- A reader that comes to where another one begins makes of its text what that one makes
    of the rest. -/
theorem Answers.behind {read read' : Reader α} (h : Answers read middle a? rest)
    (hgo : ∀ k, ∃ k', read' ⟨k, text⟩ = read ⟨k', middle⟩) : Answers read' text a? rest := by
  cases a? with
  | none =>
      intro k
      rcases hgo k with ⟨k', heq⟩
      rw [heq]
      exact h k'
  | some a =>
      intro k
      rcases hgo k with ⟨k', heq⟩
      rw [heq]
      exact h k'

/-- What is refused behind a part that is taken is refused with it. -/
theorem Takes.answers {read : Reader α} {next : α → Reader β} {a : α} {b? : Option β}
    (h : Takes read text a middle) (hnext : Answers (next a) middle b? rest) :
    Answers (fun c => (read c).bind fun p => next p.1 p.2) text b? rest := by
  refine hnext.behind fun k => ?_
  rcases h k with ⟨k', hread⟩
  exact ⟨k', by simp only [hread, Except.bind]⟩

/-- What a reader makes of a text is handed on to the next one, if it is anything. -/
theorem Answers.bind {read : Reader α} {next : α → Reader β} {b? : α → Option β}
    (h : Answers read text a? middle) (hnext : ∀ a, Answers (next a) middle (b? a) rest) :
    Answers (fun c => (read c).bind fun p => next p.1 p.2) text (a?.bind b?) rest := by
  cases a? with
  | none =>
      intro k
      rcases h k with ⟨fault, hfault⟩
      refine ⟨fault, ?_⟩
      simp only [hfault, Except.bind]
  | some a => exact Takes.answers h (hnext a)

/-- What a reader makes of a text may be told in other words. -/
theorem Answers.map {read : Reader α} (h : Answers read text a? rest) (f : α → β) :
    Answers (fun c => (read c).map fun p => (f p.1, p.2)) text (a?.map f) rest := by
  have hnext (a : α) : Answers (fun c => .ok (f a, c)) rest (some (f a)) rest := fun k => ⟨k, rfl⟩
  rw [Option.map_eq_bind]
  refine (h.bind hnext).behind fun k => ⟨k, ?_⟩
  cases read ⟨k, text⟩ <;> rfl

end Sequences

section Readers

/-- A word is read letter by letter. -/
theorem takes_readWord (letters rest : List Char) (k : Nat) :
    ∃ k', Cursor.readWord letters ⟨k, letters ++ rest⟩ = .ok ⟨k', rest⟩ := by
  induction letters generalizing k with
  | nil => exact ⟨k, rfl⟩
  | cons l letters ih =>
      rcases ih (k + l.utf8Size) with ⟨k', hread⟩
      exact ⟨k', (if_pos rfl).trans hread⟩

/-- A truth value is found by its word. -/
theorem takes_readKind_boolean (b : Bool) (rest : List Char) :
    Takes readKind (writeBoolean b ++ rest) (.boolean b) rest := by
  intro k
  rcases takes_readWord (writeBoolean b) rest k with ⟨k', hread⟩
  have hskip : (⟨k, writeBoolean b ++ rest⟩ : Cursor).skipSpace = ⟨k, writeBoolean b ++ rest⟩ := by
    cases b with
    | true => rfl
    | false => rfl
  refine ⟨k', ?_⟩
  simp only [readKind, hskip]
  cases b with
  | true => exact congrArg (Except.map fun c => (Kind.boolean true, c)) hread
  | false => exact congrArg (Except.map fun c => (Kind.boolean false, c)) hread

/-- A truth value is read where one is wanted. -/
theorem answers_readBoolean (b : Bool) (rest : List Char) :
    Answers readBoolean ((Value.boolean b).write ++ rest) (some b) rest := by
  intro k
  rcases takes_readKind_boolean b rest k with ⟨k', hread⟩
  refine ⟨k', ?_⟩
  rw [Value.write]
  simp only [readBoolean, hread, bind, Except.bind]

variable {σ : Type} {title expected : String} {put : σ → String × String → σ}

/-- A value that is an object of strings is read by a fold over its members, and no
    other is read at all. -/
theorem answers_readStrings {v : Value} {start : σ} {s? : Option σ} (rest : List Char)
    (hstrings : ∀ ms : List (String × String), v = .object (ms.map stringMember) →
      s? = some (ms.foldl put start))
    (hother : (∀ ms : List (String × String), v ≠ .object (ms.map stringMember)) → s? = none) :
    Answers (readStrings title expected put start) (v.write ++ rest) s? rest := by
  by_cases hv : ∃ ms : List (String × String), v = .object (ms.map stringMember)
  · rcases hv with ⟨ms, hms⟩
    rcases objectText_write_iff.2 ⟨hms, rfl⟩ with ⟨body, hopen, hbody⟩
    rw [hstrings ms hms]
    exact takes_readStrings title expected put hopen hbody start
  · -- If the text could be read, it would be that of such an object.
    rw [hother fun ms hms => hv ⟨ms, hms⟩]
    intro k
    cases hread : readStrings title expected put start ⟨k, v.write ++ rest⟩ with
    | error fault => exact ⟨fault, rfl⟩
    | ok found =>
        rcases exists_of_readStrings hread with ⟨body, ms, hopen, hbody, _⟩
        exact absurd ⟨ms, (objectText_write_iff.1 ⟨body, hopen, hbody⟩).1⟩ hv

variable {step : σ → String → Reader σ} {update : σ → String × Value → Option σ}

/-- Every member takes at least one character. -/
theorem length_behindMember (members : List (String × Value)) (rest : List Char) :
    members.length < (behindMember members rest).length := by
  induction members with
  | nil => exact Nat.succ_pos _
  | cons m members ih =>
      simp only [behindMember, List.length_cons, List.length_append]
      omega

/-- Behind a key, what a step makes of the value goes on to the other members. -/
theorem answers_foldBehind {rounds : Nat} {key : String} {v : Value}
    {members : List (String × Value)} {rest : List Char} {s : σ}
    (hstep : Answers (step s key) (':' :: (v.write ++ behindMember members rest))
      (update s (key, v)) (behindMember members rest))
    (hmore : ∀ s', Answers (foldMembers step rounds false s') (behindMember members rest)
      (members.foldlM update s') ('\x7d' :: rest)) :
    Answers (foldBehind step rounds s (some key)) (':' :: (v.write ++ behindMember members rest))
      (((key, v) :: members).foldlM update s) ('\x7d' :: rest) := by
  rw [List.foldlM_cons]
  exact hstep.bind hmore

/-- The members behind the first one are read by a fold, if there are enough rounds. -/
theorem answers_foldMembers {members : List (String × Value)}
    (hstep : ∀ m ∈ members, ∀ s rest,
      Answers (step s m.1) (':' :: (m.2.write ++ rest)) (update s m) rest)
    {rounds : Nat} (hrounds : members.length < rounds) (s : σ) (rest : List Char) :
    Answers (foldMembers step rounds false s) (behindMember members rest)
      (members.foldlM update s) ('\x7d' :: rest) := by
  induction members generalizing rounds s with
  | nil =>
      cases rounds with
      | zero => exact absurd hrounds (Nat.not_lt_zero _)
      | succ rounds =>
          rw [foldMembers_succ]
          exact (takes_readKey?_close (spaced_refl ('\x7d' :: rest)) false).bind fun k => ⟨k, rfl⟩
  | cons m members ih =>
      rcases m with ⟨key, v⟩
      cases rounds with
      | zero => exact absurd hrounds (Nat.not_lt_zero _)
      | succ rounds =>
          have hmore := ih (fun m hm => hstep m (List.mem_cons_of_mem _ hm))
            (Nat.lt_of_succ_lt_succ hrounds)
          -- The key is taken, and the value decides whether the fold goes on.
          have hbehind := answers_foldBehind (hstep (key, v) (List.mem_cons_self ..) s _) hmore
          rw [foldMembers_succ]
          exact (takes_readKey?_next (spaced_refl _) (stringText_writeString key _)).answers hbehind

/-- The members of an object are read by a fold. -/
theorem answers_readMembers {members : List (String × Value)}
    (hstep : ∀ m ∈ members, ∀ s rest,
      Answers (step s m.1) (':' :: (m.2.write ++ rest)) (update s m) rest)
    (start : σ) (rest : List Char) :
    Answers (readMembers step start) (writeMembers members ++ '\x7d' :: rest)
      (members.foldlM update start) ('\x7d' :: rest) := by
  -- There are as many rounds as there are characters left.
  suffices hfold : Answers
      (foldMembers step ((writeMembers members ++ '\x7d' :: rest).length + 1) true start)
      (writeMembers members ++ '\x7d' :: rest) (members.foldlM update start) ('\x7d' :: rest) from
    hfold.behind fun k => ⟨k, rfl⟩
  rw [foldMembers_succ]
  cases members with
  | nil =>
      exact (takes_readKey?_close (spaced_refl ('\x7d' :: rest)) true).bind fun k => ⟨k, rfl⟩
  | cons m members =>
      rcases m with ⟨key, v⟩
      rw [writeMembers_cons]
      have hlength := length_behindMember members rest
      have hrounds : members.length <
          (writeString key ++ ':' :: (v.write ++ behindMember members rest)).length := by
        simp only [List.length_append, List.length_cons]
        omega
      have hmore := answers_foldMembers (fun m hm => hstep m (List.mem_cons_of_mem _ hm)) hrounds
      have hbehind := answers_foldBehind (hstep (key, v) (List.mem_cons_self ..) start _)
        fun s' => hmore s' rest
      exact (takes_readKey?_first (stringText_writeString key _)).answers hbehind

end Readers

section Records

variable {α : Type} {shape : Shape α} {put? : α → String × Value → Option α}

/-- Put a member into a record with the names that are already given, unless its own is
    one of them. -/
def putNew (put? : α → String × Value → Option α) (s : List String × α) (m : String × Value) :
    Option (List String × α) :=
  if s.1.contains m.1 then none else (put? s.2 m).map fun a => (m.1 :: s.1, a)

/-- A member is read by the field of its key, if the field is not yet given. -/
theorem answers_readMember {f : Field α} {m : String × Value} {a : α} {rest : List Char}
    (hfind : shape.fields.find? (·.answersTo m.1) = some f) (hname : f.name = m.1)
    (hread : Answers (f.read a) (m.2.write ++ rest) (put? a m) rest) (given : List String) :
    Answers (shape.readMember (given, a) m.1) (':' :: (m.2.write ++ rest))
      (putNew put? (given, a) m) rest := by
  unfold putNew
  by_cases hgiven : given.contains m.1 = true
  · rw [if_pos hgiven]
    intro k
    simp only [Shape.readMember, hfind, hname, hgiven, if_true, Cursor.fail]
    exact ⟨_, rfl⟩
  · rw [if_neg hgiven]
    refine (hread.map (Prod.mk (m.1 :: given))).behind fun k => ?_
    rcases takes_readMark (by decide) .endOfObject .expectedColon
      (spaced_refl (':' :: (m.2.write ++ rest))) k with ⟨k', hmark⟩
    refine ⟨k', ?_⟩
    simp only [Shape.readMember, hfind, hname, if_neg hgiven, readColon, hmark, bind, Except.bind]
    cases f.read a ⟨k', m.2.write ++ rest⟩ <;> rfl

/-- Where no key comes twice, it changes nothing that a second one is refused. -/
theorem foldlM_putNew {members : List (String × Value)} (hnodup : (members.map Prod.fst).Nodup)
    {given : List String} (hgiven : ∀ m ∈ members, m.1 ∉ given) (a : α) :
    members.foldlM (putNew put?) (given, a) =
      (members.foldlM put? a).map fun a => ((members.map Prod.fst).reverse ++ given, a) := by
  induction members generalizing given a with
  | nil => rfl
  | cons m members ih =>
      -- The key is none of those before it, and those behind it are not this one.
      have hnot : ¬ given.contains m.1 = true := by
        rw [List.contains_iff_mem]
        exact hgiven m (List.mem_cons_self ..)
      rw [List.map_cons, List.nodup_cons] at hnodup
      have hgiven' : ∀ m' ∈ members, m'.1 ∉ m.1 :: given := by
        intro m' hm'
        rw [List.mem_cons, not_or]
        refine ⟨fun heq => hnodup.1 (List.mem_map.2 ⟨m', hm', heq⟩), ?_⟩
        exact hgiven m' (List.mem_cons_of_mem m hm')
      rw [List.foldlM_cons, List.foldlM_cons, putNew, if_neg hnot]
      cases put? a m with
      | none => rfl
      | some a' =>
          simp only [Option.map_some, bind, Option.bind_some, ih hnodup.2 hgiven', List.map_cons,
            List.reverse_cons, List.append_assoc, List.singleton_append]

/-- A record is read field by field, if every key is the name of a field and none comes
    twice. -/
theorem answers_read {members : List (String × Value)} (hnodup : (members.map Prod.fst).Nodup)
    (hfields : ∀ m ∈ members, ∃ f, shape.fields.find? (·.answersTo m.1) = some f ∧ f.name = m.1 ∧
      ∀ a rest, Answers (f.read a) (m.2.write ++ rest) (put? a m) rest)
    (hrequired : ∀ f ∈ shape.fields, f.required = false) (rest : List Char) :
    Answers shape.read ((Value.object members).write ++ rest) (members.foldlM put? shape.start)
      rest := by
  have hstep : ∀ m ∈ members, ∀ (s : List String × α) rest,
      Answers (shape.readMember s m.1) (':' :: (m.2.write ++ rest)) (putNew put? s m) rest := by
    rintro m hm ⟨given, a⟩ rest
    rcases hfields m hm with ⟨f, hfind, hname, hread⟩
    exact answers_readMember hfind hname (hread a rest) given
  have hmembers := answers_readMembers hstep ([], shape.start) rest
  rw [foldlM_putNew hnodup (fun _ _ => List.not_mem_nil)] at hmembers
  -- No field is required, so none can be missing.
  have hmissing (given : List String) :
      (shape.fields.find? fun f => f.required && !given.contains f.name) = none := by
    rw [List.find?_eq_none]
    intro f hf
    rw [hrequired f hf, Bool.false_and]
    exact Bool.false_ne_true
  have hobject : Answers shape.readObject (writeMembers members ++ '\x7d' :: rest)
      (members.foldlM put? shape.start) rest := by
    have hclose (s : List String × α) :
        Answers (fun c => .ok (s.2, c.next)) ('\x7d' :: rest) (some s.2) rest := fun k => ⟨_, rfl⟩
    have hclosed := hmembers.bind hclose
    simp only [Option.bind_map, Function.comp_def, Option.bind_fun_some] at hclosed
    refine hclosed.behind fun k => ⟨k, ?_⟩
    simp only [Shape.readObject, bind, hmissing]
  rw [write_object_append]
  refine hobject.behind fun k => ?_
  rcases takes_readKind_map (spaced_refl ('\x7b' :: (writeMembers members ++ '\x7d' :: rest))) k
    with ⟨k', hkind⟩
  refine ⟨k' + '\x7b'.utf8Size, ?_⟩
  simp only [Shape.read, hkind, bind, Except.bind, Cursor.next]

end Records

section Whole

variable {α : Type} {read : Reader α} {text : String} {a? : Option α}

/-- A text that is read to its end is what it is read as. -/
theorem readAll_eq_ok_iff (h : Answers read text.toList a? []) {a : α} :
    readAll read text = .ok a ↔ a? = some a := by
  rw [readAll, mapError_eq_ok_iff]
  cases a? with
  | none =>
      rcases h 0 with ⟨fault, hfault⟩
      simp [Cursor.ofText, hfault, bind, Except.bind]
  | some b =>
      rcases h 0 with ⟨k, hread⟩
      simp [Cursor.ofText, hread, bind, Except.bind, Cursor.skipSpace, Cursor.behind]

end Whole

end Json

end SoleRoot
