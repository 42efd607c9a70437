import DecompConfig.Proofs.Json.Record
import DecompConfig.Proofs.Json.Trace
import DecompConfig.Proofs.TypeTable.History

/-!
Tables in JSON. Main statement: a table is read from exactly the texts of objects from names to member
lists, of the spellings of a name the greatest counts, and a table of bare names is read back from its
own text.
-/

namespace DecompConfig.TypeTable

open Json Text

/-- The object of entries, in their order. -/
def ofEntries (entries : List (String × Aggregate)) : Json :=
  object (entries.map fun entry => (entry.1, entry.2.toJson))

/-- The text is an object from names to member lists, with these entries in their order. -/
def Describes (text : String) (entries : List (String × Aggregate)) : Prop :=
  Cut text.toList (ofEntries entries).toLexemes

/-- The aggregate is the last one of the greatest name whose bare form is `key`. -/
def Counts (entries : List (String × Aggregate)) (key : String) (aggregate : Aggregate) : Prop :=
  ∃ name, Journal.LastWrite entries name aggregate ∧ bareName name = key ∧
    ∀ entry ∈ entries, bareName entry.1 = key → utf8 entry.1 ≤ utf8 name

section Objects

variable {entries : List (String × Aggregate)} {text : String}

theorem string?_eq_some_iff (j : Json) (s : String) : j.string? = some s ↔ j = string s := by
  cases j <;> simp [string?]

theorem ofJson?_eq_some_iff (j : Json) (aggregate : Aggregate) :
    Aggregate.ofJson? j = some aggregate ↔ j = aggregate.toJson := by
  rw [Aggregate.ofJson?, Option.map_eq_some_iff, Aggregate.toJson, ofList]
  cases j with
  | array items =>
    simp only [list?, mapM_eq_some_iff_eq_map string?_eq_some_iff, array.injEq]
    constructor
    · rintro ⟨members, rfl, rfl⟩
      rfl
    · intro h
      exact ⟨aggregate.members, h, rfl⟩
  | _ => simp [list?]

theorem entriesOfJson?_eq_some_iff (j : Json) :
    entriesOfJson? j = some entries ↔ j = ofEntries entries := by
  have hentry (field : String × Json) (entry : String × Aggregate) :
      (Aggregate.ofJson? field.2).map (field.1, ·) = some entry ↔
        field = (entry.1, entry.2.toJson) := by
    rw [Option.map_eq_some_iff]
    constructor
    · rintro ⟨aggregate, haggregate, rfl⟩
      exact Prod.ext rfl ((ofJson?_eq_some_iff _ _).mp haggregate)
    · rintro rfl
      exact ⟨entry.2, (ofJson?_eq_some_iff _ _).mpr rfl, rfl⟩
  rw [ofEntries]
  cases j with
  | object fields => simp only [entriesOfJson?, mapM_eq_some_iff_eq_map hentry, object.injEq]
  | _ => simp [entriesOfJson?]

theorem isReadable_ofEntries (entries : List (String × Aggregate)) :
    (ofEntries entries).isReadable = true := by
  refine fieldsAreReadable_iff.mpr fun field hfield => ?_
  obtain ⟨entry, -, rfl⟩ := List.mem_map.mp hfield
  refine areReadable_iff.mpr fun j hj => ?_
  obtain ⟨s, -, rfl⟩ := List.mem_map.mp hj
  rfl

theorem nesting_ofEntries_le (entries : List (String × Aggregate)) :
    (ofEntries entries).nesting ≤ maxNesting := by
  have hlists : fieldNesting (entries.map fun entry => (entry.1, entry.2.toJson)) ≤ 1 := by
    refine fieldNesting_le.mpr fun field hfield => ?_
    obtain ⟨entry, -, rfl⟩ := List.mem_map.mp hfield
    exact nesting_ofList_le (fun s => Nat.le_refl (string s).nesting) entry.2.members
  rw [ofEntries, nesting, maxNesting]
  omega

theorem isPlain_ofEntries (entries : List (String × Aggregate)) :
    ∀ x ∈ (ofEntries entries).toLexemes, x.IsPlain := by
  refine isPlain_object fun field hfield => ?_
  obtain ⟨entry, -, rfl⟩ := List.mem_map.mp hfield
  refine isPlain_array fun j hj => ?_
  obtain ⟨s, -, rfl⟩ := List.mem_map.mp hj
  simp [toLexemes, Lexeme.IsPlain]

theorem describes_iff : Describes text entries ↔ (parse? text).bind entriesOfJson? = some entries := by
  rw [Describes, ← lexemes?_eq_some_iff_cut (isPlain_ofEntries entries),
    ← parse?_eq_some_iff (isReadable_ofEntries entries) (nesting_ofEntries_le entries),
    Option.bind_eq_some_iff]
  simp only [entriesOfJson?_eq_some_iff, exists_eq_right]

theorem describes_text (table : TypeTable) : Describes table.text table.aggregates.entries := by
  rw [Describes, text, pretty, String.toList_ofList,
    ← lexemes?_eq_some_iff_cut (isPlain_ofEntries table.aggregates.entries)]
  exact lexemes?_write Layout.spaced_pretty 0 table.toJson

end Objects

section Spellings

variable {entries : List (String × Aggregate)} {text key : String} {aggregate : Aggregate}

/-- Repeated names are resolved first, and then the spellings of each bare name. -/
theorem ofText?_eq_map (text : String) :
    ofText? text = ((parse? text).bind entriesOfJson?).map fun entries =>
      empty.insertAll (NameMap.empty.insertAll entries).entries := by
  rw [ofText?_eq, rawEntries?]
  cases parse? text with
  | none => rfl
  | some j =>
    rw [Option.bind_some, Option.bind_some, ofRawJson?]
    cases entriesOfJson? j <;> rfl

theorem ofText?_eq_none (h : ¬∃ entries, Describes text entries) : ofText? text = none := by
  simp only [describes_iff] at h
  rw [ofText?_eq_map, Option.eq_none_iff_forall_ne_some.mpr fun entries heq => h ⟨entries, heq⟩,
    Option.map_none]

/-- Of the entries of a map, which stand in order, the last spelling of a name is the greatest. -/
theorem lastWrite_map_entries_iff (m : NameMap Aggregate) :
    Journal.LastWrite (m.entries.map fun entry => (bareName entry.1, entry.2)) key aggregate ↔
      ∃ name, m.get? name = some aggregate ∧ bareName name = key ∧
        ∀ other ∈ m.names, bareName other = key → ¬name < other := by
  constructor
  · rintro ⟨earlier, later, heq, hlater⟩
    obtain ⟨before, _, hentries, -, htail⟩ := List.map_eq_append_iff.mp heq
    obtain ⟨⟨name, _⟩, after, rfl, hfirst, rfl⟩ := List.map_eq_cons_iff.mp htail
    obtain ⟨rfl, rfl⟩ := Prod.mk.inj hfirst
    refine ⟨name, m.mem_entries_iff.mp (by simp [hentries]), rfl, ?_⟩
    intro other hother hbare hlt
    obtain ⟨entry, hentry, rfl⟩ := List.mem_map.mp hother
    rw [hentries, List.mem_append, List.mem_cons] at hentry
    -- A greater spelling would stand behind, where there is none.
    rcases hentry with hbefore | rfl | hafter
    · have hless := (m.lt_of_entries_eq hentries).1 entry hbefore
      exact String.lt_irrefl _ (String.lt_trans hlt hless)
    · exact String.lt_irrefl _ hlt
    · exact hlater _ (List.mem_map_of_mem hafter) hbare
  · rintro ⟨name, hname, rfl, hgreatest⟩
    obtain ⟨before, after, hentries⟩ := List.append_of_mem (m.mem_entries_iff.mpr hname)
    refine ⟨before.map fun entry => (bareName entry.1, entry.2),
      after.map fun entry => (bareName entry.1, entry.2), by rw [hentries]; simp, ?_⟩
    intro entry hentry hbare
    obtain ⟨entry, hafter, rfl⟩ := List.mem_map.mp hentry
    have hmem : entry.1 ∈ m.names := List.mem_map_of_mem (by simp [hentries, hafter])
    exact hgreatest entry.1 hmem hbare ((m.lt_of_entries_eq hentries).2 entry hafter)

theorem mem_names_insertAll_iff {name : String} :
    name ∈ (NameMap.empty.insertAll entries).names ↔ ∃ entry ∈ entries, entry.1 = name := by
  rw [NameMap.mem_names_iff, NameMap.get?_insertAll, NameMap.get?_empty, Option.or_none,
    ← Option.ne_none_iff_isSome, ne_eq, Journal.lookup_reverse_eq_none_iff]
  simp

theorem counts_iff :
    (empty.insertAll (NameMap.empty.insertAll entries).entries).aggregates.get? key = some aggregate ↔
      Counts entries key aggregate := by
  have hle {s t : String} : ¬s < t ↔ utf8 t ≤ utf8 s := utf8_lt_utf8_iff.symm.not
  rw [insertAll_aggregates, NameMap.get?_insertAll, empty, NameMap.get?_empty, Option.or_none,
    Journal.lookup_reverse_eq_some_iff, lastWrite_map_entries_iff, Counts]
  refine exists_congr fun name => ?_
  rw [NameMap.get?_insertAll, NameMap.get?_empty, Option.or_none, Journal.lookup_reverse_eq_some_iff]
  simp only [mem_names_insertAll_iff, hle, forall_exists_index, and_imp, forall_apply_eq_imp_iff₂]

theorem ofText?_text (table : TypeTable) (h : ∀ key ∈ table.names, bareName key = key) :
    ofText? table.text = some table := by
  have hdescribes := describes_iff.mp (describes_text table)
  have hraw : NameMap.empty.insertAll table.aggregates.entries = table.aggregates :=
    table.aggregates.empty_merge
  have hbare : table.aggregates.entries.map (fun entry => (bareName entry.1, entry.2)) =
      table.aggregates.entries := by
    refine (List.map_congr_left fun entry hentry => ?_).trans (List.map_id _)
    exact Prod.ext (h entry.1 (List.mem_map_of_mem hentry)) rfl
  have htable : (empty.insertAll table.aggregates.entries).aggregates = table.aggregates := by
    rw [insertAll_aggregates, hbare]
    exact hraw
  rw [ofText?_eq_map, hdescribes, Option.map_some, hraw]
  exact congrArg some (congrArg mk htable)

/-- A text is a table if it is an object from names to member lists and is refused otherwise. Of the
names with one bare form the greatest counts, in the order of the bytes, and of a repeated name its last
list. A table of bare names is read back from its own text. -/
theorem greatest_spelling_counts :
    (∀ text entries, Describes text entries → ∃ table, ofText? text = some table ∧
      ∀ key aggregate, table.aggregates.get? key = some aggregate ↔ Counts entries key aggregate) ∧
    (∀ text, (¬∃ entries, Describes text entries) → ofText? text = none) ∧
    ∀ table : TypeTable, (∀ key ∈ table.names, bareName key = key) →
      ofText? table.text = some table := by
  refine ⟨fun text entries h => ?_, fun text => ofText?_eq_none, ofText?_text⟩
  refine ⟨empty.insertAll (NameMap.empty.insertAll entries).entries, ?_, fun _ _ => counts_iff⟩
  rw [ofText?_eq_map, describes_iff.mp h, Option.map_some]

/-- Three spellings of one name, of which the greatest is repeated, and a table with a control character
in a name. -/
theorem greatest_spelling_counts_point :
    let text := " \x7b\"struct p\":[\"int x\"],\"p\":[\"char c\"],\n\"struct p\" : " ++
      "[\"\\u0069nt \\ud83d\\uDE00\"], \"struct\\tp\":[]\x7d"
    let entries : List (String × Aggregate) :=
      [("struct p", ⟨["int x"]⟩), ("p", ⟨["char c"]⟩), ("struct p", ⟨["int 😀"]⟩), ("struct\tp", ⟨[]⟩)]
    let table := empty.insertAll [("ü\x01", ⟨["char \\\x1f", ""]⟩), ("p", ⟨[]⟩)]
    Describes text entries ∧ Counts entries "p" ⟨["int 😀"]⟩ ∧
    (∃ imported, ofText? text = some imported ∧
      imported.aggregates.get? "p" = some ⟨["int 😀"]⟩) ∧
    (¬∃ entries, Describes "[[\"p\"]]" entries) ∧ ofText? "[[\"p\"]]" = none ∧
    (∀ key ∈ table.names, bareName key = key) ∧ ofText? table.text = some table := by
  intro text entries table
  obtain ⟨hread, hrefused, hreread⟩ := greatest_spelling_counts
  have hdescribes : Describes text entries := describes_iff.mpr (by decide +kernel)
  have hcounts : Counts entries "p" ⟨["int 😀"]⟩ :=
    ⟨"struct p", ⟨entries.take 2, entries.drop 3, rfl, by decide⟩, by decide +kernel, by decide +kernel⟩
  have hbare : ∀ key ∈ table.names, bareName key = key := by decide +kernel
  obtain ⟨imported, himported, hget⟩ := hread text entries hdescribes
  have hnot : ¬∃ entries, Describes "[[\"p\"]]" entries := by
    rintro ⟨entries, h⟩
    have hnone : (parse? "[[\"p\"]]").bind entriesOfJson? = none := by decide +kernel
    rw [describes_iff, hnone] at h
    cases h
  exact ⟨hdescribes, hcounts, ⟨imported, himported, (hget _ _).mpr hcounts⟩, hnot, hrefused _ hnot,
    hbare, hreread table hbare⟩

end Spellings

end DecompConfig.TypeTable
