import DecompConfig.Proofs.NameMap
import DecompConfig.Proofs.TypeTable.BareName
import DecompConfig.TypeTable.Json
import DecompConfig.TypeTable.Listing
import Mathlib.Logic.Function.Basic

namespace DecompConfig.TypeTable

open Text

/-- What was written to a table, in order: the keys and what they were bound to. -/
abbrev Journal := List (String × Aggregate)

/-- The last entry of `key` binds it to `aggregate`. -/
def Journal.LastWrite (journal : Journal) (key : String) (aggregate : Aggregate) : Prop :=
  ∃ earlier later, journal = earlier ++ (key, aggregate) :: later ∧ ∀ entry ∈ later, entry.1 ≠ key

/-- What a definition text writes, if it is well-formed. -/
def definition? (text : String) : Option (String × Aggregate) :=
  (Aggregate.ofText? text).map (bareName (definedName text), ·)

/-- What blocks write: those before the first that is malformed. -/
def definitions (blocks : List String) : Journal :=
  (blocks.takeWhile fun block => (definition? block).isSome).filterMap definition?

/-- The entries of a table in JSON, with the names that stand in the text. -/
def rawEntries? (text : String) : Option (List (String × Aggregate)) :=
  ((Json.parse? text).bind ofRawJson?).map NameMap.entries

/-- A change of a table. -/
inductive Edit where
  | add (name : String) (members : List String)
  | insert (name : String) (aggregate : Aggregate)
  | define (text : String)
  | defineAll (listing : String)
  /-- Puts a table that is read from JSON in the place of the table. -/
  | read (text : String)
  /-- Merges the table with the number `other` into the table. -/
  | merge (other : Nat)

namespace Edit

/-- The table after the edit. An edit that fails keeps what it did before it failed. -/
def apply (tables : Nat → TypeTable) (table : TypeTable) : Edit → TypeTable
  | add name members => table.insert name ⟨members⟩
  | insert name aggregate => table.insert name aggregate
  | define text =>
    match table.addDefinition text with
    | .ok (_, table) => table
    | .error _ => table
  | defineAll listing => (table.addDefinitions listing).1
  | read text => (ofText? text).getD table
  | merge other => table.merge (tables other)

/-- What the edit writes. -/
def writes (tables : Nat → TypeTable) : Edit → Journal
  | add name members => [(bareName name, ⟨members⟩)]
  | insert name aggregate => [(bareName name, aggregate)]
  | define text => (definition? text).toList
  | defineAll listing => definitions (blocks listing)
  | read text => ((rawEntries? text).getD []).map fun entry => (bareName entry.1, entry.2)
  | merge other => (tables other).aggregates.entries

/-- Only reading a table forgets what was written before. -/
def forgets : Edit → Bool
  | read text => (rawEntries? text).isSome
  | _ => false

/-- The journal after the edit. -/
def record (tables : Nat → TypeTable) (journal : Journal) (e : Edit) : Journal :=
  (if e.forgets then [] else journal) ++ e.writes tables

/-- The names that the edit is given, as they are spelled. -/
def names : Edit → List String
  | add name _ | insert name _ => [name]
  | read text => ((rawEntries? text).getD []).map Prod.fst
  | define _ | defineAll _ | merge _ => []

end Edit

/-- The tables after one of them was edited. -/
def edited (tables : Nat → TypeTable) (e : Nat × Edit) : Nat → TypeTable :=
  Function.update tables e.1 (e.2.apply tables (tables e.1))

/-- The tables after edits one after the other. -/
def tablesFrom (tables : Nat → TypeTable) : List (Nat × Edit) → Nat → TypeTable
  | [] => tables
  | e :: edits => tablesFrom (edited tables e) edits

/-- The journals of the tables after edits one after the other. -/
def journalsFrom (tables : Nat → TypeTable) (journals : Nat → Journal) :
    List (Nat × Edit) → Nat → Journal
  | [] => journals
  | e :: edits =>
    let journal := e.2.record tables (journals e.1)
    journalsFrom (edited tables e) (Function.update journals e.1 journal) edits

/-- The tables that edits make of empty ones. -/
def tablesAfter (edits : List (Nat × Edit)) : Nat → TypeTable := tablesFrom (fun _ => empty) edits

def journalsAfter (edits : List (Nat × Edit)) : Nat → Journal :=
  journalsFrom (fun _ => empty) (fun _ => []) edits

namespace Journal

variable {journal : Journal} {key : String}

theorem lookup_reverse_eq_some_iff {aggregate : Aggregate} :
    journal.reverse.lookup key = some aggregate ↔ journal.LastWrite key aggregate := by
  rw [List.lookup_eq_some_iff]
  constructor
  · intro h
    obtain ⟨later, earlier, heq, hlater⟩ := h
    refine ⟨earlier.reverse, later.reverse, ?_, ?_⟩
    · rw [← List.reverse_inj, heq]
      simp
    · intro entry hentry
      exact (bne_iff_ne.mp (hlater entry (List.mem_reverse.mp hentry))).symm
  · intro h
    obtain ⟨earlier, later, rfl, hlater⟩ := h
    refine ⟨later.reverse, earlier.reverse, by simp, ?_⟩
    intro entry hentry
    exact bne_iff_ne.mpr (hlater entry (List.mem_reverse.mp hentry)).symm

theorem lookup_reverse_eq_none_iff :
    journal.reverse.lookup key = none ↔ ∀ entry ∈ journal, entry.1 ≠ key := by
  rw [List.lookup_eq_none_iff]
  constructor
  · intro h entry hentry
    exact (bne_iff_ne.mp (h entry (List.mem_reverse.mpr hentry))).symm
  · intro h entry hentry
    exact bne_iff_ne.mpr (h entry (List.mem_reverse.mp hentry)).symm

end Journal

section Writers

variable (table : TypeTable)

theorem aggregates_insert (name : String) (aggregate : Aggregate) :
    (table.insert name aggregate).aggregates = table.aggregates.insert (bareName name) aggregate := rfl

theorem definitions_cons_of_some {block : String} {aggregate : Aggregate}
    (h : Aggregate.ofText? block = some aggregate) (rest : List String) :
    definitions (block :: rest) = (bareName (definedName block), aggregate) :: definitions rest := by
  have hdefinition : definition? block = some (bareName (definedName block), aggregate) := by
    rw [definition?, h, Option.map_some]
  rw [definitions, List.takeWhile_cons_of_pos (by rw [hdefinition]; rfl),
    List.filterMap_cons_some hdefinition]
  rfl

theorem definitions_cons_of_none {block : String} (h : Aggregate.ofText? block = none)
    (rest : List String) : definitions (block :: rest) = [] := by
  have hdefinition : definition? block = none := by rw [definition?, h, Option.map_none]
  rw [definitions, List.takeWhile_cons_of_neg (by simp [hdefinition])]
  rfl

/-- Adding blocks writes the well-formed ones in front, and it fails if there are others. -/
theorem addBlocks_spec (blocks : List String) :
    (table.addBlocks blocks).1.aggregates = table.aggregates.insertAll (definitions blocks) ∧
    ((∃ e, (table.addBlocks blocks).2 = .error e) ↔ ∃ block ∈ blocks, definition? block = none) := by
  induction blocks generalizing table with
  | nil => exact ⟨rfl, by simp [addBlocks]⟩
  | cons block rest ih =>
    rw [addBlocks]
    cases h : Aggregate.ofText? block with
    | none =>
      have hnone : definition? block = none := by rw [definition?, h, Option.map_none]
      rw [addDefinition_of_none table h, definitions_cons_of_none h]
      exact ⟨rfl, by simp [hnone]⟩
    | some aggregate =>
      have hsome : definition? block ≠ none := by rw [definition?, h]; simp
      obtain ⟨htable, hresult⟩ := ih (table.insert (definedName block) aggregate)
      rw [addDefinition_of_some table h, definitions_cons_of_some h, NameMap.insertAll_cons,
        ← aggregates_insert]
      refine ⟨htable, ?_⟩
      rw [List.exists_mem_cons_iff, or_iff_right hsome, ← hresult]
      cases hrest : ((table.insert (definedName block) aggregate).addBlocks rest).2 <;>
        simp [Except.map, hrest]

theorem insertAll_aggregates (entries : List (String × Aggregate)) :
    (table.insertAll entries).aggregates =
      table.aggregates.insertAll (entries.map fun entry => (bareName entry.1, entry.2)) := by
  induction entries generalizing table with
  | nil => rfl
  | cons entry entries ih =>
    rw [List.map_cons, NameMap.insertAll_cons, ← aggregates_insert]
    exact ih (table.insert entry.1 entry.2)

theorem get?_insertAll (entries : List (String × Aggregate)) (key : String) :
    (table.insertAll entries).get? key =
      ((entries.map fun entry => (bareName entry.1, entry.2)).reverse.lookup (bareName key)).or
        (table.get? key) := by
  rw [get?, insertAll_aggregates, NameMap.get?_insertAll, ← get?]

theorem ofText?_eq (text : String) : ofText? text = (rawEntries? text).map empty.insertAll := by
  rw [ofText?, rawEntries?]
  cases Json.parse? text with
  | none => rfl
  | some j =>
    show (do return empty.insertAll (← ofRawJson? j).entries) = _
    cases h : ofRawJson? j <;> simp [h]

end Writers

namespace Edit

/-- An edit does to the table what its writes say. -/
theorem apply_aggregates (tables : Nat → TypeTable) (table : TypeTable) (e : Edit) :
    (e.apply tables table).aggregates =
      (if e.forgets then .empty else table.aggregates).insertAll (e.writes tables) := by
  cases e with
  | add name members => rfl
  | insert name aggregate => rfl
  | define text =>
    show _ = table.aggregates.insertAll _
    rw [apply, writes, definition?]
    cases h : Aggregate.ofText? text with
    | none =>
      rw [addDefinition_of_none table h, Option.map_none, Option.toList_none, NameMap.insertAll_nil]
    | some aggregate =>
      rw [addDefinition_of_some table h, Option.map_some, Option.toList_some, NameMap.insertAll_cons,
        NameMap.insertAll_nil, ← aggregates_insert]
  | defineAll listing => exact (addBlocks_spec table (blocks listing)).1
  | read text =>
    rw [apply, forgets, writes, ofText?_eq]
    cases rawEntries? text with
    | none => rfl
    | some entries => exact insertAll_aggregates empty entries
  | merge other => rfl

theorem get?_apply {tables : Nat → TypeTable} {table : TypeTable} {journal : Journal}
    (h : ∀ key, table.aggregates.get? key = journal.reverse.lookup key) (e : Edit) (key : String) :
    (e.apply tables table).aggregates.get? key = (e.record tables journal).reverse.lookup key := by
  rw [apply_aggregates, NameMap.get?_insertAll, record, List.reverse_append, List.lookup_append]
  congr 1
  split
  · rfl
  · exact h key

end Edit

section Runs

/-- Every table holds what was written to it last. -/
def Recorded (tables : Nat → TypeTable) (journals : Nat → Journal) : Prop :=
  ∀ t key, (tables t).aggregates.get? key = (journals t).reverse.lookup key

theorem recorded_edited {tables : Nat → TypeTable} {journals : Nat → Journal}
    (h : Recorded tables journals) (e : Nat × Edit) :
    Recorded (edited tables e)
      (Function.update journals e.1 (e.2.record tables (journals e.1))) := by
  intro t key
  by_cases ht : t = e.1
  · subst ht
    rw [edited, Function.update_self, Function.update_self]
    exact e.2.get?_apply (h e.1) key
  · rw [edited, Function.update_of_ne ht, Function.update_of_ne ht]
    exact h t key

theorem recorded_tablesFrom {tables : Nat → TypeTable} {journals : Nat → Journal}
    (h : Recorded tables journals) (edits : List (Nat × Edit)) :
    Recorded (tablesFrom tables edits) (journalsFrom tables journals edits) := by
  induction edits generalizing tables journals with
  | nil => exact h
  | cons e edits ih => exact ih (recorded_edited h e)

theorem recorded_tablesAfter (edits : List (Nat × Edit)) :
    Recorded (tablesAfter edits) (journalsAfter edits) :=
  recorded_tablesFrom (fun _ _ => rfl) edits

end Runs

section LastWrites

variable (edits : List (Nat × Edit)) (t : Nat)

theorem get?_tablesAfter_eq_some_iff {name : String} {aggregate : Aggregate} :
    (tablesAfter edits t).get? name = some aggregate ↔
      (journalsAfter edits t).LastWrite (bareName name) aggregate := by
  rw [get?, recorded_tablesAfter edits t (bareName name), Journal.lookup_reverse_eq_some_iff]

theorem aggregates_get?_eq_none_iff {key : String} :
    (tablesAfter edits t).aggregates.get? key = none ↔
      ∀ entry ∈ journalsAfter edits t, entry.1 ≠ key := by
  rw [recorded_tablesAfter edits t key, Journal.lookup_reverse_eq_none_iff]

theorem mem_names_tablesAfter_iff {key : String} :
    key ∈ (tablesAfter edits t).names ↔ ∃ aggregate, (key, aggregate) ∈ journalsAfter edits t := by
  rw [names, NameMap.mem_names_iff, ← Option.ne_none_iff_isSome, ne_eq, aggregates_get?_eq_none_iff]
  constructor
  · intro h
    obtain ⟨entry, hentry, rfl⟩ : ∃ entry ∈ journalsAfter edits t, entry.1 = key := by
      simpa using h
    exact ⟨entry.2, hentry⟩
  · intro h hnone
    obtain ⟨aggregate, hmem⟩ := h
    exact hnone _ hmem rfl

/-- A table holds, for the bare form of a name, what was last written to it under that form, and
nothing if nothing was written. A malformed definition writes nothing, and a listing writes what stands
before its first malformed block. The names of a table increase in the order of their bytes, and
merging tables is idempotent and associative. -/
theorem last_write_counts (edits : List (Nat × Edit)) (t : Nat) :
    let table := tablesAfter edits t
    let journal := journalsAfter edits t
    (∀ name aggregate,
      table.get? name = some aggregate ↔ journal.LastWrite (bareName name) aggregate) ∧
    (∀ name, table.get? name = none ↔ ∀ entry ∈ journal, entry.1 ≠ bareName name) ∧
    (∀ (σ : Type) (s : σ) name,
      (table.oracle.ask name s).result = .ok (table.get? name)) ∧
    (∀ text, (∃ e, table.addDefinition text = .error e) ↔ definition? text = none) ∧
    (∀ listing, (∃ e, (table.addDefinitions listing).2 = .error e) ↔
      ∃ block ∈ blocks listing, definition? block = none) ∧
    (table.names.map utf8).Pairwise (· < ·) ∧ table.size = table.names.length ∧
    (∀ key, key ∈ table.names ↔ ∃ aggregate, (key, aggregate) ∈ journal) ∧
    table.merge table = table ∧
    (∀ other, (table.merge other).merge other = table.merge other) ∧
    ∀ other more, (table.merge other).merge more = table.merge (other.merge more) := by
  intro table journal
  refine ⟨fun _ _ => get?_tablesAfter_eq_some_iff edits t,
    fun _ => aggregates_get?_eq_none_iff edits t, fun _ _ _ => rfl, ?_,
    fun listing => (addBlocks_spec table (blocks listing)).2, table.aggregates.names_bytes_increasing,
    ?_, fun _ => mem_names_tablesAfter_iff edits t, congrArg mk table.aggregates.merge_self,
    fun other => congrArg mk (table.aggregates.merge_merge_self other.aggregates),
    fun other more => congrArg mk (table.aggregates.merge_assoc other.aggregates more.aggregates)⟩
  · intro text
    rw [definition?]
    cases h : Aggregate.ofText? text with
    | none => simp [addDefinition_of_none table h]
    | some aggregate => simp [addDefinition_of_some table h]
  · exact (List.length_map Prod.fst).symm

/-- The second table gets a listing that ends in a malformed block before the first takes it over. -/
def lineEdits : List (Nat × Edit) :=
  [(0, .add "struct  p" ["int x"]), (0, .define "struct p int x;"), (1, .define "p \x7blong x;\x7d"),
    (1, .defineAll "struct l \x7bp a; p b\x7d; struct q \x7bint x"), (0, .merge 1)]

theorem last_write_counts_line :
    let table := tablesAfter lineEdits 0
    journalsAfter lineEdits 0 =
      [("p", ⟨["int x"]⟩), ("l", ⟨["p a", "p b"]⟩), ("p", ⟨["long x"]⟩)] ∧
    table.get? "struct p" = some ⟨["long x"]⟩ ∧ table.get? "q" = none := by
  intro table
  obtain ⟨hsome, hnone, -⟩ := last_write_counts lineEdits 0
  have hjournal : journalsAfter lineEdits 0 =
      [("p", ⟨["int x"]⟩), ("l", ⟨["p a", "p b"]⟩), ("p", ⟨["long x"]⟩)] := by decide +kernel
  have hbare : bareName "struct p" = "p" ∧ bareName "q" = "q" := by decide +kernel
  refine ⟨hjournal, (hsome "struct p" ⟨["long x"]⟩).mpr ?_, (hnone "q").mpr ?_⟩
  · rw [hjournal, hbare.1]
    exact ⟨[("p", ⟨["int x"]⟩), ("l", ⟨["p a", "p b"]⟩)], [], rfl, nofun⟩
  · rw [hjournal, hbare.2]
    decide

end LastWrites

section Listed

theorem not_isBlank_of_mem_definedName (text : String) :
    ∀ c ∈ (definedName text).toList, isBlank c = false := by
  intro c hc
  rw [definedName, String.toList_ofList] at hc
  cases hlast : (words (text.toList.takeWhile (· != '{'))).getLast? with
  | none =>
    rw [hlast] at hc
    cases hc
  | some w =>
    rw [hlast, Option.getD_some] at hc
    exact not_isBlank_of_mem_words (List.mem_of_getLast? hlast) hc

theorem bareName_definedName (text : String) : bareName (definedName text) = definedName text :=
  bareName_eq_self (not_isBlank_of_mem_definedName text)

theorem key_of_definition? {text : String} {entry : String × Aggregate}
    (h : definition? text = some entry) : entry.1 = definedName text := by
  rw [definition?, bareName_definedName] at h
  obtain ⟨aggregate, -, rfl⟩ := Option.map_eq_some_iff.mp h
  rfl

variable {P : String → Prop} {tables : Nat → TypeTable}

/-- A key is the bare form of a name that an edit was given, a word, or a key of another table. -/
theorem forall_keys_writes (hword : ∀ key, (∀ c ∈ key.toList, isBlank c = false) → P key) {e : Edit}
    (hgiven : ∀ name ∈ e.names, P (bareName name)) (h : ∀ t, ∀ key ∈ (tables t).names, P key) :
    ∀ entry ∈ e.writes tables, P entry.1 := by
  have hdefinition {text : String} {entry : String × Aggregate}
      (hentry : definition? text = some entry) : P entry.1 := by
    rw [key_of_definition? hentry]
    exact hword _ (not_isBlank_of_mem_definedName text)
  intro entry hentry
  cases e with
  | add name members =>
    obtain rfl := List.mem_singleton.mp hentry
    exact hgiven name List.mem_cons_self
  | insert name aggregate =>
    obtain rfl := List.mem_singleton.mp hentry
    exact hgiven name List.mem_cons_self
  | define text => exact hdefinition (Option.mem_toList.mp hentry)
  | defineAll listing =>
    obtain ⟨block, -, hblock⟩ := List.mem_filterMap.mp hentry
    exact hdefinition hblock
  | read text =>
    obtain ⟨raw, hraw, rfl⟩ := List.mem_map.mp hentry
    exact hgiven raw.1 (List.mem_map_of_mem hraw)
  | merge other => exact h other entry.1 (List.mem_map_of_mem hentry)

theorem forall_keys_edited (hword : ∀ key, (∀ c ∈ key.toList, isBlank c = false) → P key)
    {e : Nat × Edit} (hgiven : ∀ name ∈ e.2.names, P (bareName name))
    (h : ∀ t, ∀ key ∈ (tables t).names, P key) : ∀ t, ∀ key ∈ (edited tables e t).names, P key := by
  intro t key hkey
  by_cases ht : t = e.1
  · subst ht
    rw [edited, Function.update_self, names, Edit.apply_aggregates] at hkey
    rcases NameMap.exists_mem_of_mem_names_insertAll _ hkey with ⟨aggregate, hmem⟩ | hold
    · exact forall_keys_writes hword hgiven h _ hmem
    · split at hold
      · cases hold
      · exact h e.1 key hold
  · rw [edited, Function.update_of_ne ht] at hkey
    exact h t key hkey

theorem forall_keys_tablesFrom (hword : ∀ key, (∀ c ∈ key.toList, isBlank c = false) → P key)
    {edits : List (Nat × Edit)} (hgiven : ∀ e ∈ edits, ∀ name ∈ e.2.names, P (bareName name))
    (h : ∀ t, ∀ key ∈ (tables t).names, P key) :
    ∀ t, ∀ key ∈ (tablesFrom tables edits t).names, P key := by
  induction edits generalizing tables with
  | nil => exact h
  | cons e edits ih =>
    obtain ⟨hfirst, hrest⟩ := List.forall_mem_cons.mp hgiven
    exact ih hrest (forall_keys_edited hword hfirst h)

variable {table : TypeTable} {key : String}

theorem insert_eq_self {aggregate : Aggregate} (hbare : bareName key = key)
    (h : table.aggregates.get? key = some aggregate) : table.insert key aggregate = table := by
  refine congrArg mk (NameMap.ext_get? fun name => ?_)
  rw [hbare, NameMap.get?_insert]
  split
  next heq => rw [heq, h]
  next => rfl

theorem insertAll_eq_self {entries : List (String × Aggregate)}
    (hbare : ∀ entry ∈ entries, bareName entry.1 = entry.1)
    (h : ∀ entry ∈ entries, entry ∈ table.aggregates.entries) : table.insertAll entries = table := by
  induction entries with
  | nil => rfl
  | cons entry entries ih =>
    obtain ⟨hfirst, hrest⟩ := List.forall_mem_cons.mp h
    obtain ⟨hbare, hbares⟩ := List.forall_mem_cons.mp hbare
    have hinsert := insert_eq_self hbare (table.aggregates.mem_entries_iff.mp hfirst)
    show (table.insert entry.1 entry.2).insertAll entries = table
    rw [hinsert]
    exact ih hbares hrest

theorem not_afterKeyword_of_word (h : ∀ c ∈ key.toList, isBlank c = false) :
    ¬∃ rest, AfterKeyword key.toList rest := by
  rintro ⟨rest, c, hc, hkey⟩
  have hmem : c ∈ key.toList := by simp [hkey]
  rw [h c hmem] at hc
  cases hc

variable (edits : List (Nat × Edit)) (t : Nat)

theorem exists_eq_bareName_of_mem_names (hkey : key ∈ (tablesAfter edits t).names) :
    ∃ name, key = bareName name :=
  forall_keys_tablesFrom (P := fun key => ∃ name, key = bareName name)
    (fun key hword => ⟨key, (bareName_eq_self hword).symm⟩) (fun _ _ name _ => ⟨name, rfl⟩)
    (fun _ _ hkey => absurd hkey List.not_mem_nil) t key hkey

/-- Only a name that repeats the keyword gives a table a key that begins with the keyword. -/
theorem exists_repeatsKeyword (hkey : key ∈ (tablesAfter edits t).names)
    (hafter : ∃ rest, AfterKeyword key.toList rest) :
    ∃ e ∈ edits, ∃ name ∈ e.2.names, RepeatsKeyword name ∧ bareName name = key := by
  let P := fun key : String => (∃ rest, AfterKeyword key.toList rest) →
    ∃ e ∈ edits, ∃ name ∈ e.2.names, RepeatsKeyword name ∧ bareName name = key
  have hall : ∀ t, ∀ key ∈ (tablesAfter edits t).names, P key := by
    apply forall_keys_tablesFrom
    · exact fun key hword hafter => absurd hafter (not_afterKeyword_of_word hword)
    · exact fun e he name hname hafter =>
        ⟨e, he, name, hname, (repeatsKeyword_iff name).mpr hafter, rfl⟩
    · exact fun _ _ hkey => absurd hkey List.not_mem_nil
  exact hall t key hkey hafter

/-- The names that a table lists are bare, and the table finds under them what it lists, as long as
they do not begin with the keyword. Only names that repeat the keyword are listed in such a form, so
that without them every listed name can be looked up, and defining all of them anew changes nothing. -/
theorem listed_names_found (edits : List (Nat × Edit)) (t : Nat) :
    let table := tablesAfter edits t
    (∀ key ∈ table.names, bareName key = key ↔ ¬∃ rest, AfterKeyword key.toList rest) ∧
    (∀ key ∈ table.names, bareName key = key → table.contains key = true ∧
      table.get? key = table.aggregates.get? key) ∧
    (∀ key ∈ table.names, (∃ rest, AfterKeyword key.toList rest) →
      ∃ e ∈ edits, ∃ name ∈ e.2.names, RepeatsKeyword name ∧ bareName name = key) ∧
    ((∀ e ∈ edits, ∀ name ∈ e.2.names, ¬RepeatsKeyword name) →
      (∀ key ∈ table.names, table.contains key = true ∧
        table.get? key = table.aggregates.get? key) ∧
      table.insertAll table.aggregates.entries = table) := by
  intro table
  have hiff : ∀ key ∈ table.names,
      bareName key = key ↔ ¬∃ rest, AfterKeyword key.toList rest := by
    intro key hkey
    obtain ⟨name, rfl⟩ := exists_eq_bareName_of_mem_names edits t hkey
    exact bareName_bareName_iff name
  have hfound : ∀ key ∈ table.names, bareName key = key → table.contains key = true ∧
      table.get? key = table.aggregates.get? key := by
    intro key hkey hbare
    have hget : table.get? key = table.aggregates.get? key := by rw [get?, hbare]
    rw [contains, hget]
    exact ⟨table.aggregates.mem_names_iff.mp hkey, rfl⟩
  refine ⟨hiff, hfound, fun _ hkey => exists_repeatsKeyword edits t hkey, fun honce => ?_⟩
  have hbare : ∀ key ∈ table.names, bareName key = key := by
    intro key hkey
    apply (hiff key hkey).mpr
    intro hafter
    obtain ⟨e, he, name, hname, hrepeats, -⟩ := exists_repeatsKeyword edits t hkey hafter
    exact honce e he name hname hrepeats
  refine ⟨fun key hkey => hfound key hkey (hbare key hkey), ?_⟩
  exact insertAll_eq_self (fun entry hentry => hbare _ (List.mem_map_of_mem hentry)) fun _ => id

theorem listed_names_found_line :
    let edits : List (Nat × Edit) :=
      [(0, .add "struct  p" ["int x"]), (1, .read "\x7b\"struct\\tl\":[\"p a\"]\x7d"),
        (1, .define "struct struct struct q \x7b\x7d"), (0, .merge 1)]
    let table := tablesAfter edits 0
    (∀ e ∈ edits, ∀ name ∈ e.2.names, ¬RepeatsKeyword name) ∧ table.names = ["l", "p", "q"] ∧
    (∀ key ∈ table.names, table.contains key = true) ∧
    table.insertAll table.aggregates.entries = table := by
  intro edits table
  have honce : ∀ e ∈ edits, ∀ name ∈ e.2.names, ¬RepeatsKeyword name := by decide +kernel
  obtain ⟨-, -, -, hall⟩ := listed_names_found edits 0
  obtain ⟨hfound, hsame⟩ := hall honce
  exact ⟨honce, by decide +kernel, fun key hkey => (hfound key hkey).1, hsame⟩

/-- A name that repeats the keyword is listed in a form under which it is not found. -/
theorem repeated_keyword_not_found :
    let table := tablesAfter [(0, .add "struct struct point" ["int x"])] 0
    table.names = ["struct point"] ∧ table.contains "struct point" = false ∧
      table.insertAll table.aggregates.entries ≠ table := by
  decide +kernel

end Listed

end DecompConfig.TypeTable
