import DecompConfig.Proofs.CommandLine.Failure
import DecompConfig.Proofs.TypeTable.BareName
import DecompConfig.Proofs.TypeTable.Listing

namespace DecompConfig

open Text

namespace Aggregate

theorem memberList_flatMap {gap last : List Char} (hgap : ∀ c ∈ gap, isBlank c = true)
    (hlast : ∀ c ∈ last, isBlank c = true) {members : List String}
    (h : ∀ member ∈ members, IsPlainMember member) :
    MemberList members ((members.flatMap fun member => gap ++ member.toList ++ [';']) ++ last) := by
  induction members with
  | nil => exact .slot (.blank hlast)
  | cons member members ih =>
    obtain ⟨hmember, hmembers⟩ := List.forall_mem_cons.mp h
    have hlist := MemberList.semicolon (.member hgap hmember (List.forall_mem_nil _)) (ih hmembers)
    simpa using hlist

end Aggregate

namespace CommandLine

/-- A name that is one word in front of a brace. -/
structure IsPlainName (name : String) : Prop where
  ne_empty : name ≠ ""
  unblank : ∀ c ∈ name.toList, isBlank c = false
  braceless : ∀ c ∈ name.toList, isBrace c = false

instance : DecidablePred IsPlainName := fun name =>
  have := List.decidableBAll (isBlank · = false) name.toList
  have := List.decidableBAll (isBrace · = false) name.toList
  decidable_of_iff (name ≠ "" ∧ (∀ c ∈ name.toList, isBlank c = false) ∧
      ∀ c ∈ name.toList, isBrace c = false)
    ⟨fun ⟨hne, hblank, hbrace⟩ => ⟨hne, hblank, hbrace⟩,
      fun h => ⟨h.ne_empty, h.unblank, h.braceless⟩⟩

theorem IsPlainName.words_eq {name : String} (h : IsPlainName name) :
    words name.toList = [name.toList] :=
  words_of_unblank (by simpa using h.ne_empty) h.unblank

section ShownName

theorem keyword_braceless : ∀ c ∈ keyword, isBrace c = false := by
  simp [keyword, Qualifier.word, isBrace]

variable (name : String)

/-- A name is shown without the keywords in front of it. -/
theorem words_shownName : ∃ n, words name.toList =
    List.replicate n keyword ++ words (shownName name).toList := by
  rw [shownName, String.toList_ofList, words_trim]
  induction name.toList using shownName.withoutKeyword.induct with
  | case1 rest ih =>
    obtain ⟨n, hwords⟩ := ih
    have hafter : AfterKeyword ('s' :: 't' :: 'r' :: 'u' :: 'c' :: 't' :: ' ' :: rest) rest :=
      ⟨' ', by decide, rfl⟩
    refine ⟨n + 1, ?_⟩
    rw [hafter.words_eq, shownName.withoutKeyword, hwords]
    rfl
  | case2 s hnot =>
    refine ⟨0, ?_⟩
    rw [shownName.withoutKeyword]
    · rfl
    · exact hnot

variable {name} {spelling : String}

theorem words_of_bareName (h : IsPlainName name) (hbare : bareName spelling = name) :
    words spelling.toList = [name.toList] ∨ words spelling.toList = [keyword, name.toList] := by
  have hwords := words_bareName spelling
  rwa [hbare, h.words_eq] at hwords

/-- The last word of a name is the last one behind a keyword too, however the name is shown. -/
theorem getLast?_words_shownName (h : IsPlainName name) (hbare : bareName spelling = name) :
    (keyword :: words (shownName spelling).toList).getLast? = some name.toList := by
  have hspelled : (keyword :: words spelling.toList).getLast? = some name.toList := by
    rcases words_of_bareName h hbare with hwords | hwords <;> rw [hwords] <;> rfl
  obtain ⟨n, hwords⟩ := words_shownName spelling
  have hshift : keyword :: words spelling.toList =
      List.replicate n keyword ++ keyword :: words (shownName spelling).toList := by
    rw [hwords, ← List.cons_append, ← List.replicate_succ, List.replicate_succ', List.append_assoc,
      List.singleton_append]
  rwa [hshift, List.getLast?_append_of_ne_nil _ (List.cons_ne_nil _ _)] at hspelled

theorem braceless_shownName (h : IsPlainName name) (hbare : bareName spelling = name) :
    ∀ c ∈ (shownName spelling).toList, isBrace c = false := by
  intro c hc
  by_cases hblank : isBlank c = true
  · exact isBrace_of_isBlank hblank
  · obtain ⟨w, hw, hcw⟩ := exists_mem_words hc (eq_false_of_ne_true hblank)
    obtain ⟨n, hwords⟩ := words_shownName spelling
    have hmem : w ∈ words spelling.toList := by
      rw [hwords]
      exact List.mem_append_right _ hw
    have hword : w = keyword ∨ w = name.toList := by
      rcases words_of_bareName h hbare with hspelled | hspelled
      · rw [hspelled] at hmem
        exact .inr (List.mem_singleton.mp hmem)
      · rw [hspelled] at hmem
        simpa using hmem
    rcases hword with rfl | rfl
    · exact keyword_braceless c hcw
    · exact h.braceless c hcw

end ShownName

/-- How the definition of `name` is printed. -/
inductive Layout (name : String) where
  /-- In one line, with blanks after it. -/
  | line (blanks : String) (h : ∀ c ∈ blanks.toList, isBlank c = true)
  /-- As it is shown to whoever asks for `spelling`. -/
  | shown (spelling : String) (h : bareName spelling = name)

namespace Layout

variable {name : String}

/-- The name as it is printed. -/
def label : Layout name → String
  | line _ _ => name
  | shown spelling _ => shownName spelling

/-- What stands in front of each member. -/
def gap : Layout name → List Char
  | line _ _ => []
  | shown _ _ => ['\n', ' ', ' ', ' ', ' ']

/-- What stands between the last member and the closing brace. -/
def last : Layout name → List Char
  | line _ _ => []
  | shown _ _ => ['\n']

/-- What stands behind the closing brace. -/
def tail : Layout name → List Char
  | line blanks _ => ';' :: blanks.toList
  | shown _ _ => ['\n']

variable (l : Layout name)

theorem gap_blank : ∀ c ∈ l.gap, isBlank c = true := by
  cases l with
  | line blanks hblanks => exact nofun
  | shown spelling hbare => exact List.all_eq_true.mp rfl

theorem last_blank : ∀ c ∈ l.last, isBlank c = true := by
  cases l with
  | line blanks hblanks => exact nofun
  | shown spelling hbare => exact List.all_eq_true.mp rfl

theorem tail_separates : ∀ c ∈ l.tail, isSeparator c = true := by
  cases l with
  | line blanks hblanks =>
    rw [tail, List.forall_mem_cons]
    exact ⟨rfl, fun c hc => by rw [isSeparator, hblanks c hc, Bool.or_true]⟩
  | shown spelling hbare => exact List.all_eq_true.mp rfl

theorem getLast?_words_label (h : IsPlainName name) :
    (keyword :: words l.label.toList).getLast? = some name.toList := by
  cases l with
  | line blanks hblanks =>
    rw [label, h.words_eq]
    rfl
  | shown spelling hbare => exact getLast?_words_shownName h hbare

theorem label_braceless (h : IsPlainName name) : ∀ c ∈ l.label.toList, isBrace c = false := by
  cases l with
  | line blanks hblanks => exact h.braceless
  | shown spelling hbare => exact braceless_shownName h hbare

end Layout

/-- A definition that is printed. -/
structure Printed where
  name : String
  members : List String
  layout : Layout name
  name_plain : IsPlainName name
  members_plain : ∀ member ∈ members, Aggregate.IsPlainMember member

namespace Printed

variable (p : Printed)

def aggregate : Aggregate := ⟨p.members⟩

def text : String :=
  match p.layout with
  | .line blanks _ =>
    "struct " ++ p.name ++ " \x7b" ++ String.join (p.members.map (· ++ ";")) ++ "\x7d;" ++ blanks
  | .shown spelling _ => p.aggregate.listing (shownName spelling)

/-- What a table holds for the definition. -/
def entry : String × Aggregate := (p.name, p.aggregate)

def head : List Char := keyword ++ ' ' :: (p.layout.label.toList ++ [' '])

def body : List Char :=
  (p.members.flatMap fun member => p.layout.gap ++ member.toList ++ [';']) ++ p.layout.last

def chars : List Char := enclosed p.head p.body p.layout.tail

/-- The text without what stands behind the closing brace. -/
def block : String := .ofList (enclosed p.head p.body [])

/-- A line end in front of each line and one at the end, or one behind each line and one in front. -/
theorem cons_flatMap_append {α β : Type} (b : β) (f : α → List β) (as : List α) :
    b :: as.flatMap (fun a => f a ++ [b]) = as.flatMap (fun a => b :: f a) ++ [b] := by
  induction as with
  | nil => rfl
  | cons a as ih => simp [← ih]

theorem toList_text : p.text.toList = p.chars := by
  obtain ⟨name, members, layout, hname, hmembers⟩ := p
  cases layout with
  | line blanks hblanks =>
    simp [text, chars, enclosed, head, body, Layout.label, Layout.gap, Layout.last, Layout.tail,
      keyword, Qualifier.word, String.toList_join, List.flatMap_map]
  | shown spelling hbare =>
    have hlines := congrArg (· ++ ['}', '\n']) (cons_flatMap_append '\n'
      (fun member : String => [' ', ' ', ' ', ' '] ++ member.toList ++ [';']) members)
    simpa [text, chars, enclosed, head, body, Layout.label, Layout.gap, Layout.last, Layout.tail,
      keyword, Qualifier.word, String.toList_join, List.flatMap_map, aggregate, Aggregate.listing,
      Aggregate.lines] using hlines

theorem getLast?_words_head : (words p.head).getLast? = some p.name.toList := by
  have hspace : ∀ c ∈ [' '], isBlank c = true := List.all_eq_true.mp (by decide)
  have hwords : words p.head = keyword :: words p.layout.label.toList := by
    rw [head, words_append_blank (by decide), words_keyword, words_append_of_blank _ hspace]
    rfl
  rw [hwords, p.layout.getLast?_words_label p.name_plain]

theorem head_braceless : ∀ c ∈ p.head, isBrace c = false := by
  rw [head, List.forall_mem_append, List.forall_mem_cons, List.forall_mem_append,
    List.forall_mem_singleton]
  exact ⟨keyword_braceless, rfl, p.layout.label_braceless p.name_plain, rfl⟩

theorem memberList_body : Aggregate.MemberList p.members p.body :=
  Aggregate.memberList_flatMap p.layout.gap_blank p.layout.last_blank p.members_plain

theorem body_braceless : ∀ c ∈ p.body, isBrace c = false := p.memberList_body.braceless

theorem addDefinition_block (table : TypeTable) :
    table.addDefinition p.block = .ok (p.name, table.insert p.name p.aggregate) := by
  rw [block, addDefinition_enclosed p.head_braceless p.body_braceless (by simp) p.getLast?_words_head,
    p.memberList_body.membersOf_eq, String.ofList_toList, aggregate]

section Listing

variable (ps : List Printed)

/-- A printed definition begins with a letter. -/
theorem dropWhile_flatMap_chars {q : Char → Bool} (hq : q 's' = false) :
    (ps.flatMap chars).dropWhile q = ps.flatMap chars := by
  cases ps with
  | nil => rfl
  | cons p ps =>
    refine List.dropWhile_cons_of_neg ?_
    show ¬q 's' = true
    rw [hq]
    exact Bool.false_ne_true

theorem blocksFrom_flatMap_chars : blocksFrom (ps.flatMap chars) =
    ps.map fun p => enclosed p.head p.body [] := by
  induction ps with
  | nil => exact blocksFrom_of_not_mem List.not_mem_nil
  | cons p ps ih =>
    rw [List.flatMap_cons, chars, blocksFrom_enclosed_append p.head_braceless p.body_braceless
      p.layout.tail_separates, dropWhile_flatMap_chars ps (by decide), ih, List.map_cons]

theorem blocks_join_text : blocks (String.join (ps.map text)) = ps.map block := by
  have hlisting : (String.join (ps.map text)).toList = ps.flatMap chars := by
    rw [String.toList_join, List.flatMap_map]
    exact congrArg (ps.flatMap ·) (funext toList_text)
  rw [blocks, hlisting, trimStart, dropWhile_flatMap_chars ps (by decide), blocksFrom_flatMap_chars,
    List.map_map]
  rfl

theorem addDefinitions_join (table : TypeTable) : table.addDefinitions (String.join (ps.map text)) =
    (table.insertAll (ps.map entry), .ok (ps.map name)) := by
  have hadded : table.addBlocks (ps.map block) =
      (table.insertAll (ps.map entry), .ok ((ps.map entry).map Prod.fst)) :=
    TypeTable.addBlocks_map (fun p _ table => p.addDefinition_block table) table
  rw [TypeTable.addDefinitions, blocks_join_text, hadded, List.map_map]
  rfl

end Listing

end Printed

/-- A command that shows an aggregate prints its definition. -/
theorem stdout_showType {files : Files} {args : List String} {name : String} {source : TypeSource}
    {verbosity : Nat} (hargs : Invocation.ofArguments? args = some ⟨.showType name source, verbosity⟩)
    (hstatus : (run files args).status = 0) :
    ∃ loaded aggregate, source.load files = .ok loaded ∧ loaded.get? name = some aggregate ∧
      (run files args).stdout = aggregate.listing (shownName name) := by
  obtain ⟨d, hd, haccepted⟩ := (status_runOn_eq_zero_iff hargs).mp hstatus
  obtain ⟨-, hstdout, -⟩ := runOn_of_accepted hargs hd haccepted
  cases hd with
  | showType hload hget => exact ⟨_, _, hload, hget, hstdout⟩

theorem addListing_of_ok {files : Files} {path listing : String} {table added : TypeTable}
    {names : List String} (hread : files.read? path = some listing)
    (hadded : table.addDefinitions listing = (added, .ok names)) :
    TypeSource.addListing files table (some path) = .ok added := by
  have hfile : files.read "definitions" path = .ok listing := by rw [Files.read, hread]
  simp only [TypeSource.addListing, hfile, hadded, bind, Except.bind]

/-- What is shown of an aggregate defines it. -/
theorem addDefinitions_shown {name : String} {aggregate : Aggregate}
    (hname : IsPlainName (bareName name))
    (hmembers : ∀ member ∈ aggregate.members, Aggregate.IsPlainMember member) (table : TypeTable) :
    table.addDefinitions (aggregate.listing (shownName name)) =
      (table.insert (bareName name) aggregate, .ok [bareName name]) := by
  let p : Printed := ⟨bareName name, aggregate.members, .shown name rfl, hname, hmembers⟩
  have htext : String.join ([p].map Printed.text) = aggregate.listing (shownName name) := by
    simp [p, Printed.text, Printed.aggregate]
  rw [← htext, Printed.addDefinitions_join]
  rfl

/-- Definitions that are printed, each in one line or as it is shown, read back in their order. What is
shown of an aggregate defines it under the bare form of the name that it was asked for, in any table. -/
theorem printed_definitions_read_back :
    (∀ (table : TypeTable) (ps : List Printed),
      table.addDefinitions (String.join (ps.map Printed.text)) =
        (table.insertAll (ps.map Printed.entry), .ok (ps.map Printed.name))) ∧
    ∀ files args name source verbosity,
      Invocation.ofArguments? args = some ⟨.showType name source, verbosity⟩ →
      (run files args).status = 0 →
      ∃ loaded aggregate, source.load files = .ok loaded ∧ loaded.get? name = some aggregate ∧
        (run files args).stdout = aggregate.listing (shownName name) ∧
        (IsPlainName (bareName name) →
          (∀ member ∈ aggregate.members, Aggregate.IsPlainMember member) →
          ∀ (later : Files) path (table : TypeTable),
            later.read? path = some (run files args).stdout →
            TypeSource.addListing later table (some path) =
              .ok (table.insert (bareName name) aggregate) ∧
            (table.insert (bareName name) aggregate).get? (bareName name) = some aggregate) := by
  refine ⟨fun table ps => Printed.addDefinitions_join ps table, ?_⟩
  intro files args name source verbosity hargs hstatus
  obtain ⟨loaded, aggregate, hload, hget, hstdout⟩ := stdout_showType hargs hstatus
  refine ⟨loaded, aggregate, hload, hget, hstdout, ?_⟩
  intro hname hmembers later path table hread
  rw [hstdout] at hread
  refine ⟨addListing_of_ok hread (addDefinitions_shown hname hmembers table), ?_⟩
  rw [TypeTable.get?_insert, if_pos rfl]

/-- The name has a semicolon. -/
def printedPair : Printed where
  name := "a;b"
  members := ["int x", "char *s [4]"]
  layout := .line "\n\t" (List.all_eq_true.mp (by decide))
  name_plain := by decide
  members_plain := by decide

/-- The name is the keyword, so that nothing of it is shown. -/
def printedKeyword : Printed where
  name := "struct"
  members := ["long  v"]
  layout := .shown "struct " (by decide +kernel)
  name_plain := by decide
  members_plain := by decide

/-- A listing that defines the keyword. -/
def keywordFiles : Files where
  read? path := List.lookup path [("in", "struct struct \x7b long  v \x7d")]
  canWrite _ := false

/-- The definition as it is shown. -/
def shownFiles : Files where
  read? _ := some "struct  \x7b\n    long  v;\n\x7d\n"
  canWrite _ := false

theorem printed_definitions_read_back_keyword :
    let listing := "struct a;b \x7bint x;char *s [4];\x7d;\n\tstruct  \x7b\n    long  v;\n\x7d\n"
    let shown := run keywordFiles ["types", "show", "struct ", "-d", "in"]
    (∃ table, TypeTable.empty.addDefinitions listing = (table, .ok ["a;b", "struct"])) ∧
    shown.status = 0 ∧ shown.stdout = "struct  \x7b\n    long  v;\n\x7d\n" ∧
    TypeSource.addListing shownFiles .empty (some "out") =
      .ok (TypeTable.empty.insert "struct" ⟨["long  v"]⟩) := by
  intro listing shown
  obtain ⟨hjoin, hshow⟩ := printed_definitions_read_back
  have hlisting : String.join ([printedPair, printedKeyword].map Printed.text) = listing := by
    decide +kernel
  have hadded := hjoin .empty [printedPair, printedKeyword]
  rw [hlisting] at hadded
  have hargs : Invocation.ofArguments? ["types", "show", "struct ", "-d", "in"] =
      some ⟨.showType "struct " ⟨none, some "in", [], defaultDepth⟩, 0⟩ := by decide +kernel
  have hstatus : shown.status = 0 := by decide +kernel
  have hstdout : shown.stdout = "struct  \x7b\n    long  v;\n\x7d\n" := by decide +kernel
  obtain ⟨loaded, aggregate, hload, hget, -, hreads⟩ := hshow keywordFiles _ _ _ _ hargs hstatus
  have hfound : (TypeSource.load ⟨none, some "in", [], defaultDepth⟩ keywordFiles).toOption.bind
      (·.get? "struct ") = some ⟨["long  v"]⟩ := by decide +kernel
  rw [hload] at hfound
  obtain rfl := Option.some.inj (hget.symm.trans hfound)
  have hbare : bareName "struct " = "struct" := by decide +kernel
  rw [hbare] at hreads
  obtain ⟨hlisted, -⟩ := hreads printedKeyword.name_plain printedKeyword.members_plain shownFiles "out"
    .empty (by rw [hstdout]; rfl)
  exact ⟨⟨_, hadded⟩, hstatus, hstdout, hlisted⟩

end CommandLine

end DecompConfig
