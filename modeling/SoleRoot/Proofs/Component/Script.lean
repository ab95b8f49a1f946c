import SoleRoot.Component.Source
import SoleRoot.Proofs.Component.Literal
import SoleRoot.Proofs.Text.Runs

/-!
# Reading Script Blocks

What a script block says, and that it says what the registry holds.

A block is read line by line: an opening tag, a line for each import, a line with the
names that are registered, and a closing tag. The reader knows how such lines look but
nothing of the registry; a line that is not just so is refused, with what stands
behind it.

Names are taken to be identifiers, since they stand in the script as they are. Nothing
is asked of the modules. That the lines of a block are the lines that were written
rests on both: a name has no line feed because of what it is, and a literal has none
because of how it is written.

## Main definitions

* `IsName`: A text that can stand as a name in a script.
* `readImport?`, `readExport?`, `readScript?`: What a line says, and what a block says.
* `Import.text`, `exportText`, `Registry.lines`: The lines of a block.
* `openLines`: The lines of a block before its closing tag.

## Theorems

* `toList_scriptBlock`: A block is its lines.
* `readImport?_text`, `readExport?_exportText`: A line is read back.
* `scriptBlock?_says`: A block says what its registry holds.
-/

namespace SoleRoot

namespace Script

/-- Whether a character may stand in a name. -/
def isNameChar (c : Char) : Bool :=
  c.isAlphanum || c = '_' || c = '$'

/-- Whether a text can stand as a name in a script. -/
def IsName (s : String) : Prop :=
  s.toList ≠ [] ∧ s.toList.all isNameChar = true ∧ s.toList.head?.any Char.isDigit = false

instance (s : String) : Decidable (IsName s) :=
  inferInstanceAs (Decidable (_ ∧ _ ∧ _))

/-- Read a line that imports a component. -/
def readImport? (line : List Char) : Option Import := do
  let rest ← Text.strip? "import ".toList line
  let name := String.ofList (rest.takeWhile isNameChar)
  let rest ← Text.strip? " from ".toList (rest.dropWhile isNameChar)
  let (module, rest) ← readLiteral? rest
  if IsName name ∧ rest = [';'] then some ⟨name, module⟩ else none

/-- Read a line that registers components: their names. -/
def readExport? (line : List Char) : Option (List String) := do
  let rest ← Text.strip? "export default \x7b components: \x7b".toList line
  let (inside, behind) ← Text.breakOn? " \x7d \x7d;".toList rest
  let names ← (inside.splitOn ',').mapM (Text.strip? [' '])
  if behind = [] then some (names.map String.ofList) else none

/-- Read the lines behind an opening tag, up to the closing one. -/
def readLines? : List (List Char) → Option (List Import × List String)
  | [] | [_] => none
  | [last, close] =>
    if close = "</script>".toList then (readExport? last).map fun names => ([], names) else none
  | line :: lines => do
    let i ← readImport? line
    let (is, names) ← readLines? lines
    some (i :: is, names)

/-- Read a script block: its imports, and the names that it registers. -/
def readScript? (block : List Char) : Option (List Import × List String) :=
  match block.splitOn '\n' with
  | [] => none
  | first :: lines => if first = "<script>".toList then readLines? lines else none

/-- The line that registers names, without its end. -/
def exportText (names : List String) : String :=
  "export default \x7b components: \x7b " ++ ", ".intercalate names ++ " \x7d \x7d;"

end Script

open Script

/-- The line that imports a component, without its end. -/
def Import.text (i : Import) : String :=
  "import " ++ i.name ++ " from " ++ scriptLiteral i.module ++ ";"

/-- The lines of a script block. -/
def Registry.lines (r : Registry) : List String :=
  "<script>" :: (r.entries.map Import.text ++ [exportText r.names, "</script>"])

namespace Script

section Lines

theorem toList_line (i : Import) : i.line.toList = i.text.toList ++ ['\n'] := by
  have hend : ";\n".toList = ";".toList ++ ['\n'] := by decide
  unfold Import.line Import.text
  simp only [String.toList_append, hend, List.append_assoc]

theorem toList_exportLine (r : Registry) :
    r.exportLine.toList = (exportText r.names).toList ++ ['\n'] := by
  have hend : " \x7d \x7d;\n".toList = " \x7d \x7d;".toList ++ ['\n'] := by decide
  unfold Registry.exportLine exportText
  simp only [String.toList_append, hend, List.append_assoc]

/-- Texts with a character between them, the last of which is known. -/
theorem intercalate_append_singleton {α : Type} (x : α) (ls : List (List α)) (last : List α) :
    [x].intercalate (ls ++ [last]) = ls.flatMap (· ++ [x]) ++ last := by
  induction ls with
  | nil => exact List.intercalate_singleton
  | cons l ls ih =>
      have hne : ls ++ [last] ≠ [] := List.append_ne_nil_of_right_ne_nil _ (List.cons_ne_nil _ _)
      rw [List.cons_append, List.intercalate_cons_of_ne_nil hne, ih, List.flatMap_cons,
        List.append_assoc, List.append_assoc, List.append_assoc]

/-- The lines of a block before its closing tag, as texts. -/
def openLines (r : Registry) : List (List Char) :=
  "<script>".toList :: (r.entries.map (fun i => i.text.toList) ++ [(exportText r.names).toList])

theorem map_toList_lines (r : Registry) :
    r.lines.map String.toList = openLines r ++ ["</script>".toList] := by
  simp only [Registry.lines, openLines, List.map_cons, List.map_append, List.map_map, List.map_nil,
    List.cons_append, List.append_assoc, List.nil_append]
  rfl

/-- A block is its lines. -/
theorem toList_scriptBlock {r : Registry} (hne : r.entries ≠ []) :
    ∃ block, r.scriptBlock? = some block ∧
      block.toList = ['\n'].intercalate (r.lines.map String.toList) := by
  refine ⟨_, if_neg (by rwa [Registry.isEmpty, List.isEmpty_iff]), ?_⟩
  have himports : (r.entries.map Import.line).flatMap String.toList =
      (r.entries.map fun i => i.text.toList).flatMap (· ++ ['\n']) := by
    rw [List.flatMap_map, List.flatMap_map]
    exact congrArg (r.entries.flatMap ·) (funext toList_line)
  have hopen : "<script>\n".toList = "<script>".toList ++ ['\n'] := by decide
  rw [map_toList_lines, intercalate_append_singleton, openLines, List.flatMap_cons,
    List.flatMap_append, List.flatMap_singleton]
  simp only [String.toList_append, String.toList_join, himports, toList_exportLine, hopen,
    List.append_assoc]

end Lines

section Names

theorem IsName.of_mem {s : String} (h : IsName s) {c : Char} (hc : c ∈ s.toList) :
    isNameChar c = true :=
  List.all_eq_true.1 h.2.1 c hc

theorem not_mem_of_isName {s : String} (h : IsName s) {c : Char} (hc : isNameChar c = false) :
    c ∉ s.toList := by
  intro hmem
  rw [h.of_mem hmem] at hc
  exact absurd hc (by decide)

theorem names_ne_nil {r : Registry} (h : r.entries ≠ []) : r.names ≠ [] := by
  rw [Registry.names, ne_eq, List.map_eq_nil_iff]
  exact h

theorem isName_of_mem_names {r : Registry} (h : ∀ i ∈ r.entries, IsName i.name) {name : String}
    (hname : name ∈ r.names) : IsName name := by
  rcases List.mem_map.1 hname with ⟨i, hi, rfl⟩
  exact h i hi

theorem mem_intercalate_singleton {α : Type} {x c : α} {ls : List (List α)}
    (h : c ∈ [x].intercalate ls) : c = x ∨ ∃ l ∈ ls, c ∈ l := by
  induction ls with
  | nil => exact absurd h List.not_mem_nil
  | cons l ls ih =>
      by_cases hne : ls = []
      · rw [hne, List.intercalate_singleton] at h
        exact .inr ⟨l, List.mem_cons_self .., h⟩
      · rw [List.intercalate_cons_of_ne_nil hne, List.mem_append, List.mem_append,
          List.mem_singleton] at h
        rcases h with (h | h) | h
        · exact .inr ⟨l, List.mem_cons_self .., h⟩
        · exact .inl h
        · rcases ih h with h | ⟨l', hl', h⟩
          · exact .inl h
          · exact .inr ⟨l', List.mem_cons_of_mem l hl', h⟩

/-- Names as they stand between the commas of a line: each has a blank before it. -/
def pieces (names : List String) : List (List Char) :=
  names.map fun name => ' ' :: name.toList

theorem intercalate_pieces {names : List String} (h : names ≠ []) :
    [','].intercalate (pieces names) = ' ' :: [',', ' '].intercalate (names.map String.toList) := by
  unfold pieces
  induction names with
  | nil => exact absurd rfl h
  | cons n names ih =>
      cases names with
      | nil => simp only [List.map_cons, List.map_nil, List.intercalate_singleton]
      | cons m names =>
          have ih := ih (List.cons_ne_nil _ _)
          simp only [List.map_cons] at ih ⊢
          rw [List.intercalate_cons_cons, ih, List.intercalate_cons_cons]
          simp only [List.cons_append, List.append_assoc, List.nil_append]

theorem toList_exportText {names : List String} (h : names ≠ []) :
    (exportText names).toList = "export default \x7b components: \x7b".toList ++
      ([','].intercalate (pieces names) ++ " \x7d \x7d;".toList) := by
  have hopen : "export default \x7b components: \x7b ".toList =
      "export default \x7b components: \x7b".toList ++ [' '] := by decide
  have hcomma : ", ".toList = [',', ' '] := by decide
  rw [intercalate_pieces h]
  unfold exportText
  simp only [String.toList_append, String.toList_intercalate, hopen, hcomma, List.append_assoc,
    List.cons_append, List.nil_append]

/-- Between the names of a line stand commas and blanks only. -/
theorem not_mem_pieces {names : List String} (h : ∀ name ∈ names, IsName name) {c : Char}
    (hcomma : c ≠ ',') (hblank : c ≠ ' ') (hc : isNameChar c = false) :
    c ∉ [','].intercalate (pieces names) := by
  intro hmem
  rcases mem_intercalate_singleton hmem with heq | ⟨l, hl, hmem⟩
  · exact hcomma heq
  · rcases List.mem_map.1 hl with ⟨name, hname, rfl⟩
    rcases List.mem_cons.1 hmem with heq | hmem
    · exact hblank heq
    · exact not_mem_of_isName (h name hname) hc hmem

theorem not_mem_exportText {names : List String} (hne : names ≠ [])
    (h : ∀ name ∈ names, IsName name) {c : Char}
    (hstart : c ∉ "export default \x7b components: \x7b".toList)
    (hend : c ∉ " \x7d \x7d;".toList) (hcomma : c ≠ ',') (hblank : c ≠ ' ')
    (hc : isNameChar c = false) : c ∉ (exportText names).toList := by
  rw [toList_exportText hne]
  simp only [List.mem_append, not_or]
  exact ⟨hstart, not_mem_pieces h hcomma hblank hc, hend⟩

end Names

section Reading

/-- A line that imports a component is read back. -/
theorem readImport?_text {i : Import} (h : IsName i.name) : readImport? i.text.toList = some i := by
  have hstart : Text.strip? "import ".toList i.text.toList =
      some (i.name.toList ++ (" from ".toList ++ ((scriptLiteral i.module).toList ++ [';']))) := by
    have hend : ";".toList = [';'] := by decide
    unfold Import.text
    simp only [Text.strip?_eq_some_iff, String.toList_append, List.append_assoc, hend]
  have hrun : ∀ c ∈ i.name.toList, isNameChar c = true := fun _ => h.of_mem
  have hstop : ∀ c ∈ (" from ".toList ++ ((scriptLiteral i.module).toList ++ [';'])).head?,
      isNameChar c = false :=
    Text.forall_mem_head?_cons.2 (by decide)
  have hfrom : Text.strip? " from ".toList
      (" from ".toList ++ ((scriptLiteral i.module).toList ++ [';'])) =
        some ((scriptLiteral i.module).toList ++ [';']) :=
    Text.strip?_eq_some_iff.2 rfl
  -- The name ends at the blank behind it, and the literal where its reader says.
  simp only [readImport?, hstart, Text.takeWhile_append_stop hrun hstop,
    Text.dropWhile_append_stop hrun hstop, hfrom, readLiteral?_scriptLiteral, bind,
    Option.bind_some, String.ofList_toList]
  rw [if_pos ⟨h, trivial⟩]

/-- A line that registers components is read back. -/
theorem readExport?_exportText {names : List String} (hne : names ≠ [])
    (hnames : ∀ name ∈ names, IsName name) :
    readExport? (exportText names).toList = some names := by
  have hstart : Text.strip? "export default \x7b components: \x7b".toList
      (exportText names).toList =
        some ([','].intercalate (pieces names) ++ " \x7d \x7d;".toList ++ []) := by
    rw [Text.strip?_eq_some_iff, toList_exportText hne, List.append_nil]
  -- The brackets behind the names cannot begin among them.
  have hfree : ¬ " \x7d \x7d;".toList <:+: [','].intercalate (pieces names) := by
    intro h
    have hbrace : '\x7d' ∈ " \x7d \x7d;".toList := by decide
    exact not_mem_pieces hnames (by decide) (by decide) (by decide) (h.subset hbrace)
  have hmark : Text.Unrepeated " \x7d \x7d;".toList :=
    ⟨" \x7d \x7d".toList, ';', by decide, by decide⟩
  have hcut := Text.breakOn?_append hmark hfree []
  -- No name has a comma, so each piece is a name.
  have hsplit : ([','].intercalate (pieces names)).splitOn ',' = pieces names := by
    refine List.splitOn_intercalate ',' ?_ (by simpa only [pieces, ne_eq, List.map_eq_nil_iff])
    intro l hl hc
    rcases List.mem_map.1 hl with ⟨name, hname, rfl⟩
    rcases List.mem_cons.1 hc with heq | hc
    · exact absurd heq (by decide)
    · exact not_mem_of_isName (hnames name hname) (by decide) hc
  have hstrip : (pieces names).mapM (Text.strip? [' ']) = some (names.map String.toList) := by
    have hpiece : (Text.strip? [' '] ∘ fun name : String => ' ' :: name.toList) =
        fun name => pure name.toList :=
      funext fun name => Text.strip?_eq_some_iff.2 rfl
    rw [pieces, List.mapM_map, hpiece, List.mapM_pure]
    rfl
  simp only [readExport?, hstart, hcut, hsplit, hstrip, bind, Option.bind_some, if_true,
    List.map_map]
  rw [show String.ofList ∘ String.toList = id from funext fun _ => String.ofList_toList,
    List.map_id]

/-- A line with two or more behind it imports a component. -/
theorem readLines?_cons (line : List Char) {lines : List (List Char)} (h : 2 ≤ lines.length) :
    readLines? (line :: lines) =
      (readImport? line).bind fun i =>
        (readLines? lines).map fun (is, names) => (i :: is, names) := by
  match lines with
  | l :: l' :: ls =>
      -- The other ways to read these lines are for fewer of them.
      rw [readLines?]
      · cases readImport? line <;> cases readLines? (l :: l' :: ls) <;> rfl
      · simp
      · simp

/-- The lines behind an opening tag are read one by one. -/
theorem readLines?_append {is : List Import} {names : List String} {last : List Char}
    (his : ∀ i ∈ is, IsName i.name) (hlast : readExport? last = some names) :
    readLines? (is.map (fun i => i.text.toList) ++ [last, "</script>".toList]) =
      some (is, names) := by
  induction is with
  | nil => simp only [List.map_nil, List.nil_append, readLines?, if_true, hlast, Option.map_some]
  | cons i is ih =>
      have hlength :
          2 ≤ (is.map (fun i => i.text.toList) ++ [last, "</script>".toList]).length := by
        rw [List.length_append]
        exact Nat.le_add_left ..
      rw [List.map_cons, List.cons_append, readLines?_cons _ hlength,
        readImport?_text (his i (List.mem_cons_self ..)),
        ih fun i hi => his i (List.mem_cons_of_mem _ hi)]
      rfl

end Reading

section Blocks

variable {r : Registry} (hne : r.entries ≠ []) (hnames : ∀ i ∈ r.entries, IsName i.name)

include hne hnames

/-- No line of a block runs over its end. -/
theorem not_mem_lines {line : String} (h : line ∈ r.lines) : '\n' ∉ line.toList := by
  simp only [Registry.lines, List.mem_cons, List.mem_append, List.mem_map, List.not_mem_nil,
    or_false] at h
  rcases h with rfl | ⟨i, hi, rfl⟩ | rfl | rfl
  · decide
  · unfold Import.text
    simp only [String.toList_append, List.mem_append, not_or]
    refine ⟨⟨⟨⟨by decide, not_mem_of_isName (hnames i hi) (by decide)⟩, by decide⟩, ?_⟩, by decide⟩
    exact fun hmem => absurd (endsLine_of_mem_scriptLiteral hmem) (by decide)
  · exact not_mem_exportText (names_ne_nil hne) (fun _ => isName_of_mem_names hnames) (by decide)
      (by decide) (by decide) (by decide) (by decide)
  · decide

/-- A block falls into its lines. -/
theorem splitOn_lines :
    (['\n'].intercalate (r.lines.map String.toList)).splitOn '\n' = r.lines.map String.toList := by
  -- That there is a line at all is seen from the opening tag.
  refine List.splitOn_intercalate '\n' ?_ (List.cons_ne_nil _ _)
  intro l hl
  rcases List.mem_map.1 hl with ⟨line, hline, rfl⟩
  exact not_mem_lines hne hnames hline

/-- What falls into the lines of a registry is read as that registry. -/
theorem readScript?_lines {block : List Char}
    (h : block.splitOn '\n' = r.lines.map String.toList) :
    readScript? block = some (r.entries, r.names) := by
  have hlast : readExport? (exportText r.names).toList = some r.names :=
    readExport?_exportText (names_ne_nil hne) fun _ => isName_of_mem_names hnames
  rw [readScript?, h, map_toList_lines, openLines, List.cons_append, List.append_assoc]
  exact (if_pos rfl).trans (readLines?_append hnames hlast)

end Blocks

section Says

/-- A block says what its registry holds: its lines are those of the imports, each
    literal is the module and nothing else, and what is read are the imports in order
    and their names. -/
theorem scriptBlock?_says {r : Registry} (hne : r.entries ≠ [])
    (hnames : ∀ i ∈ r.entries, IsName i.name) :
    ∃ block, r.scriptBlock? = some block ∧
      block.toList.splitOn '\n' = r.lines.map String.toList ∧
      (∀ i ∈ r.entries, readLiteral? (scriptLiteral i.module).toList = some (i.module, []) ∧
        ∀ c ∈ (scriptLiteral i.module).toList, endsLine c = false) ∧
      readScript? block.toList = some (r.entries, r.names) := by
  rcases toList_scriptBlock hne with ⟨block, hblock, hlines⟩
  have hsplit := splitOn_lines hne hnames
  rw [← hlines] at hsplit
  refine ⟨block, hblock, hsplit, ?_, readScript?_lines hne hnames hsplit⟩
  intro i _
  have hread := readLiteral?_scriptLiteral i.module []
  rw [List.append_nil] at hread
  exact ⟨hread, fun c => endsLine_of_mem_scriptLiteral⟩

/-- A registry whose modules are full of quotes, backslashes and ends of lines. -/
def hostile : Registry :=
  ⟨[⟨"A", "it's\\"⟩, ⟨"_b$1", "\\'\n\\\r\u2028';\u2029import"⟩]⟩

theorem scriptBlock?_says_hostile :
    hostile.entries ≠ [] ∧ (∀ i ∈ hostile.entries, IsName i.name) ∧
      ∃ block, hostile.scriptBlock? = some block ∧
        block.toList.splitOn '\n' = hostile.lines.map String.toList ∧
        (∀ i ∈ hostile.entries, readLiteral? (scriptLiteral i.module).toList = some (i.module, []) ∧
          ∀ c ∈ (scriptLiteral i.module).toList, endsLine c = false) ∧
        readScript? block.toList = some (hostile.entries, hostile.names) := by
  have hne : hostile.entries ≠ [] := by decide
  have hnames : ∀ i ∈ hostile.entries, IsName i.name := by decide
  exact ⟨hne, hnames, scriptBlock?_says hne hnames⟩

end Says

end Script

end SoleRoot
