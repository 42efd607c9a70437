import DecompConfig.CommandLine.Execution
import DecompConfig.Proofs.TypeTable.Builtin
import Mathlib.Logic.Relation

namespace DecompConfig

namespace TypeTable

theorem definitions_of_ofText? {blocks : List String}
    (h : ∀ block ∈ blocks, Aggregate.ofText? block ≠ none) :
    definitions blocks = blocks.filterMap definition? := by
  rw [definitions, List.takeWhile_eq_self_iff.mpr]
  intro block hblock
  rw [definition?, Option.isSome_map, Option.isSome_iff_ne_none]
  exact h block hblock

/-- Of well-formed blocks the last one of a name counts. -/
theorem lookup_reverse_definitions {blocks : List String}
    (h : ∀ block ∈ blocks, Aggregate.ofText? block ≠ none) (key : String) :
    (definitions blocks).reverse.lookup key =
      (blocks.reverse.find? (definedName · == key)).bind Aggregate.ofText? := by
  rw [definitions_of_ofText? h, ← List.filterMap_reverse]
  have hreverse : ∀ block ∈ blocks.reverse, Aggregate.ofText? block ≠ none := by simpa using h
  generalize blocks.reverse = reversed at hreverse ⊢
  induction reversed with
  | nil => rfl
  | cons block earlier ih =>
    obtain ⟨hblock, hearlier⟩ := List.forall_mem_cons.mp hreverse
    obtain ⟨aggregate, haggregate⟩ := Option.ne_none_iff_exists'.mp hblock
    have hentry : definition? block = some (definedName block, aggregate) := by
      rw [definition?, haggregate, Option.map_some, bareName_definedName]
    rw [List.filterMap_cons_some hentry, NameMap.lookup_cons, ih hearlier]
    by_cases hname : key = definedName block
    · rw [if_pos hname, List.find?_cons_of_pos (by simp [hname]), Option.bind_some, haggregate]
    · rw [if_neg hname, List.find?_cons_of_neg (by simpa using Ne.symm hname)]

end TypeTable

namespace CommandLine

open TypeTable

/-- What a source of aggregates gives: names of builtin sets, and the texts of a listing and of a JSON
table. -/
structure Layers where
  sets : List String
  listing : Option String
  json : Option String

namespace Layers

/-- The blocks of the listing. -/
def blocks (l : Layers) : List String := (l.listing.map DecompConfig.blocks).getD []

/-- The JSON table, if there is one and it is accepted. -/
def table? (l : Layers) : Option TypeTable := l.json.bind ofText?

/-- A builtin set is unknown, or the listing or the JSON table is refused. -/
inductive Refused (l : Layers) : Prop
  | set {set : String} (hset : set ∈ l.sets) (h : builtin? set = none)
  | listing {text : String} (htext : text ∈ l.listing) {e : LoweringError}
      (h : (empty.addDefinitions text).2 = .error e)
  | json {text : String} (htext : text ∈ l.json) (h : ofText? text = none)

/-- The definition of a key in the JSON table. -/
def jsonDefinition? (l : Layers) (key : String) : Option Aggregate :=
  l.table?.bind (·.aggregates.get? key)

/-- The definition of a key by the last block of that name. -/
def listedDefinition? (l : Layers) (key : String) : Option Aggregate :=
  (l.blocks.reverse.find? (definedName · == key)).bind Aggregate.ofText?

/-- The definition of a key in the last builtin set that has it. -/
def builtinDefinition? (l : Layers) (key : String) : Option Aggregate :=
  l.sets.reverse.findSome? fun set => (builtin? set).bind (·.aggregates.get? key)

/-- The definition of a key in the last layer that has it. -/
def definition? (l : Layers) (key : String) : Option Aggregate :=
  (l.jsonDefinition? key).or ((l.listedDefinition? key).or (l.builtinDefinition? key))

/-- The JSON table defines the key. -/
def InJson (l : Layers) (key : String) : Prop := ∃ table, l.table? = some table ∧ key ∈ table.names

/-- Something is added that later layers define anyway: a well-formed block to the listing, whose name
the JSON table has, or a builtin set, each name of which the JSON table or a block has. -/
inductive Addition : Layers → Layers → Prop
  | block {sets : List String} {listing listing' json : Option String} (before after : List String)
      {block : String} (hold : (Layers.mk sets listing json).blocks = before ++ after)
      (hnew : (Layers.mk sets listing' json).blocks = before ++ block :: after)
      (hwell : Aggregate.ofText? block ≠ none)
      (hjson : (Layers.mk sets listing json).InJson (definedName block)) :
      Addition ⟨sets, listing, json⟩ ⟨sets, listing', json⟩
  | set {listing json : Option String} (before after : List String) {set : String} {table : TypeTable}
      (hset : builtin? set = some table)
      (h : ∀ key ∈ table.names, (Layers.mk (before ++ after) listing json).InJson key ∨
        ∃ block ∈ (Layers.mk (before ++ after) listing json).blocks, definedName block = key) :
      Addition ⟨before ++ after, listing, json⟩ ⟨before ++ set :: after, listing, json⟩

section Refusal

variable {l : Layers}

/-- A search that finds the same everywhere. -/
theorem findSome?_eq_of_forall {α β : Type} {f : α → Option β} {a : α} {as : List α} {b? : Option β}
    (h : ∀ c ∈ a :: as, f c = b?) : (a :: as).findSome? f = b? := by
  obtain ⟨ha, has⟩ := List.forall_mem_cons.mp h
  rw [List.findSome?_cons, ha]
  cases b? with
  | some b => rfl
  | none => exact List.findSome?_eq_none_iff.mpr has

/-- A listing is refused by every table alike. -/
theorem addDefinitions_eq_error_iff (table : TypeTable) (text : String) :
    (∃ e, (table.addDefinitions text).2 = .error e) ↔
      ∃ block ∈ DecompConfig.blocks text, Aggregate.ofText? block = none := by
  rw [addDefinitions, (addBlocks_spec table (DecompConfig.blocks text)).2]
  simp only [TypeTable.definition?, Option.map_eq_none_iff]

/-- Only `posix` is known, in letters of either case. -/
theorem refused_iff_of_names : l.Refused ↔ (∃ set ∈ l.sets, ¬IsPosixName set) ∨
    (∃ text ∈ l.listing, ∃ e, (empty.addDefinitions text).2 = .error e) ∨
      ∃ text ∈ l.json, ofText? text = none := by
  simp only [← builtin?_eq_none_iff]
  constructor
  · intro h
    cases h with
    | set hset h => exact .inl ⟨_, hset, h⟩
    | listing htext h => exact .inr (.inl ⟨_, htext, _, h⟩)
    | json htext h => exact .inr (.inr ⟨_, htext, h⟩)
  · rintro (⟨set, hset, h⟩ | ⟨text, htext, e, h⟩ | ⟨text, htext, h⟩)
    · exact .set hset h
    · exact .listing htext h
    · exact .json htext h

theorem refused_iff : l.Refused ↔ (∃ set ∈ l.sets, builtin? set = none) ∨
    (∃ block ∈ l.blocks, Aggregate.ofText? block = none) ∨
      ∃ text ∈ l.json, ofText? text = none := by
  have hblocks : (∃ block ∈ l.blocks, Aggregate.ofText? block = none) ↔
      ∃ text ∈ l.listing, ∃ e, (empty.addDefinitions text).2 = .error e := by
    rw [blocks]
    cases l.listing with
    | none => simp
    | some text => simp [addDefinitions_eq_error_iff]
  simp only [refused_iff_of_names, hblocks, builtin?_eq_none_iff]

/-- Every builtin set that is known holds the structures of POSIX. -/
theorem builtinDefinition?_eq (h : ∀ set ∈ l.sets, IsPosixName set) (key : String) :
    l.builtinDefinition? key = if l.sets = [] then none else posixEntries.lookup key := by
  have hset : ∀ set ∈ l.sets.reverse,
      ((builtin? set).bind (·.aggregates.get? key)) = posixEntries.lookup key := by
    intro set hset
    rw [builtin?_eq_some_iff.mpr ⟨h set (List.mem_reverse.mp hset), rfl⟩, Option.bind_some,
      get?_addPosix]
  rw [builtinDefinition?]
  cases hsets : l.sets.reverse with
  | nil => simp [List.reverse_eq_nil_iff.mp hsets]
  | cons set earlier =>
    have hne : l.sets ≠ [] := by
      rintro hnil
      simp [hnil] at hsets
    rw [if_neg hne]
    rw [hsets] at hset
    exact findSome?_eq_of_forall hset

end Refusal

section Additions

variable {l l' : Layers} {key : String}

theorem exists_mem_insert_iff {α : Type} {P : α → Prop} {a : α} (h : ¬P a) (before after : List α) :
    (∃ b ∈ before ++ a :: after, P b) ↔ ∃ b ∈ before ++ after, P b := by
  constructor
  · rintro ⟨b, hb, hP⟩
    have hne : b ≠ a := fun heq => h (heq ▸ hP)
    exact ⟨b, by simpa [hne] using hb, hP⟩
  · rintro ⟨b, hb, hP⟩
    exact ⟨b, List.mem_append.mpr ((List.mem_append.mp hb).imp_right (List.mem_cons_of_mem a)), hP⟩

theorem exists_jsonDefinition?_of_inJson (h : l.InJson key) :
    ∃ aggregate, l.jsonDefinition? key = some aggregate := by
  obtain ⟨table, htable, hkey⟩ := h
  rw [jsonDefinition?, htable]
  exact Option.isSome_iff_exists.mp (table.aggregates.mem_names_iff.mp hkey)

theorem exists_listedDefinition? (hwell : ∀ block ∈ l.blocks, Aggregate.ofText? block ≠ none)
    {block : String} (hblock : block ∈ l.blocks) :
    ∃ aggregate, l.listedDefinition? (definedName block) = some aggregate := by
  cases hfind : l.blocks.reverse.find? (definedName · == definedName block) with
  | none => simpa using List.find?_eq_none.mp hfind block (List.mem_reverse.mpr hblock)
  | some last =>
    have hmem : last ∈ l.blocks := List.mem_reverse.mp (List.mem_of_find?_eq_some hfind)
    rw [listedDefinition?, hfind, Option.bind_some]
    exact Option.ne_none_iff_exists'.mp (hwell last hmem)

theorem Addition.refused_iff (h : Addition l l') : l'.Refused ↔ l.Refused := by
  rw [Layers.refused_iff, Layers.refused_iff]
  cases h with
  | block before after hold hnew hwell hjson =>
    rw [hold, hnew, exists_mem_insert_iff (P := (Aggregate.ofText? · = none)) hwell]
  | set before after hset h =>
    rw [exists_mem_insert_iff (by simp [hset])]
    rfl

/-- A key that is added is one that a later layer defines. -/
theorem Addition.definition?_eq (h : Addition l l') (haccepted : ¬l.Refused) (key : String) :
    l'.definition? key = l.definition? key := by
  cases h with
  | @block sets listing listing' json before after block hold hnew hwell hjson =>
    show (jsonDefinition? ⟨sets, listing, json⟩ key).or _ = (jsonDefinition? _ key).or _
    by_cases hkey : definedName block = key
    · obtain ⟨aggregate, haggregate⟩ := exists_jsonDefinition?_of_inJson hjson
      rw [← hkey, haggregate]
      rfl
    · have hlisted : listedDefinition? ⟨sets, listing', json⟩ key =
          listedDefinition? ⟨sets, listing, json⟩ key := by
        have hskip : [block].find? (definedName · == key) = none := by simpa using hkey
        rw [listedDefinition?, listedDefinition?, hold, hnew, ← List.singleton_append,
          List.reverse_append, List.reverse_append, List.reverse_append, List.reverse_singleton,
          List.find?_append, List.find?_append, List.find?_append, hskip, Option.or_none]
      rw [hlisted]
      rfl
  | @set listing json before after set table hset h =>
    rw [Layers.refused_iff, not_or, not_or] at haccepted
    have hwell : ∀ block ∈ (Layers.mk (before ++ after) listing json).blocks,
        Aggregate.ofText? block ≠ none := fun block hblock hnone =>
      haccepted.2.1 ⟨block, hblock, hnone⟩
    show (jsonDefinition? ⟨before ++ after, listing, json⟩ key).or
        ((listedDefinition? ⟨before ++ after, listing, json⟩ key).or _) =
      (jsonDefinition? _ key).or ((listedDefinition? _ key).or _)
    by_cases hkey : key ∈ table.names
    · rcases h key hkey with hjson | ⟨block, hblock, rfl⟩
      · obtain ⟨aggregate, haggregate⟩ := exists_jsonDefinition?_of_inJson hjson
        rw [haggregate]
        rfl
      · obtain ⟨aggregate, haggregate⟩ := exists_listedDefinition? hwell hblock
        rw [haggregate]
        rfl
    · have hbuiltin : builtinDefinition? ⟨before ++ set :: after, listing, json⟩ key =
          builtinDefinition? ⟨before ++ after, listing, json⟩ key := by
        have hnone : table.aggregates.get? key = none := by
          simpa using mt table.aggregates.mem_names_iff.mpr hkey
        have hskip : [set].findSome? (fun set => (builtin? set).bind (·.aggregates.get? key)) =
            none := by
          rw [List.findSome?_singleton, hset, Option.bind_some, hnone]
        rw [builtinDefinition?, builtinDefinition?, ← List.singleton_append, List.reverse_append,
          List.reverse_append, List.reverse_append, List.reverse_singleton, List.findSome?_append,
          List.findSome?_append, List.findSome?_append, hskip, Option.or_none]
      rw [hbuiltin]

/-- However much is added, nothing of it is seen. -/
theorem same_of_additions (h : Relation.ReflTransGen Addition l l') :
    (l'.Refused ↔ l.Refused) ∧ (¬l.Refused → ∀ key, l'.definition? key = l.definition? key) := by
  induction h with
  | refl => exact ⟨Iff.rfl, fun _ _ => rfl⟩
  | tail _ hlast ih =>
    obtain ⟨hrefused, hdefinition⟩ := ih
    refine ⟨hlast.refused_iff.trans hrefused, fun haccepted key => ?_⟩
    rw [hlast.definition?_eq (mt hrefused.mp haccepted), hdefinition haccepted]

end Additions

end Layers

namespace TypeSource

/-- The files that the source names can be read and are texts, and with the names of its builtin sets
they are these layers. -/
structure Provides (source : TypeSource) (files : Files) (l : Layers) : Prop where
  sets : source.builtin = l.sets
  listing : source.definitions.map files.read? = l.listing.map some
  json : source.types.map files.read? = l.json.map some

/-- A stage of loading is refused, or it lays definitions over those of the table that it is given. -/
inductive Laid (refused : Prop) (definition? : String → Option Aggregate) (table : TypeTable) :
    Except Report TypeTable → Prop
  | refused (h : refused) (report : Report) : Laid refused definition? table (.error report)
  | loaded (h : ¬refused) {loaded : TypeTable} (hget : ∀ key,
      loaded.aggregates.get? key = (definition? key).or (table.aggregates.get? key)) :
      Laid refused definition? table (.ok loaded)

section Stages

variable {files : Files} {table : TypeTable} {path? text? : Option String} {l : Layers}

/-- A later stage lays its definitions over those of an earlier one. -/
theorem Laid.bind {refused refused' : Prop} {definition? definition?' : String → Option Aggregate}
    {result : Except Report TypeTable} {stage : TypeTable → Except Report TypeTable}
    (h : Laid refused definition? table result)
    (h' : ∀ between, Laid refused' definition?' between (stage between)) :
    Laid (refused ∨ refused') (fun key => (definition?' key).or (definition? key)) table
      (result >>= stage) := by
  cases h with
  | refused h report => exact .refused (.inl h) report
  | @loaded h between hbetween =>
    have hlaid := h' between
    show Laid _ _ _ (stage between)
    generalize stage between = result at hlaid
    cases hlaid with
    | refused h' report => exact .refused (.inr h') report
    | loaded h' hloaded =>
      refine .loaded (not_or.mpr ⟨h, h'⟩) fun key => ?_
      rw [hloaded, hbetween, Option.or_assoc]

theorem read_of_map_eq (h : path?.map files.read? = text?.map some) {path : String}
    (hpath : path? = some path) (what : String) :
    ∃ text, text? = some text ∧ files.read what path = .ok text := by
  rw [hpath, Option.map_some] at h
  obtain ⟨text, rfl, hread⟩ := Option.map_eq_some_iff.mp h.symm
  exact ⟨text, rfl, by rw [Files.read, ← hread]⟩

theorem eq_none_of_map_eq (h : path?.map files.read? = text?.map some) (hpath : path? = none) :
    text? = none := by
  rw [hpath, Option.map_none] at h
  exact Option.map_eq_none_iff.mp h.symm

theorem laid_addBuiltin (table : TypeTable) (sets : List String) :
    Laid (∃ set ∈ sets, builtin? set = none)
      (fun key => sets.reverse.findSome? fun set => (builtin? set).bind (·.aggregates.get? key))
      table (addBuiltin table sets) := by
  induction sets generalizing table with
  | nil => exact .loaded (by simp) fun _ => rfl
  | cons set rest ih =>
    rw [addBuiltin.eq_def]
    dsimp only
    cases hset : builtin? set with
    | none => exact .refused ⟨set, List.mem_cons_self, hset⟩ _
    | some builtin =>
      dsimp only
      have hlaid := ih (table.merge builtin)
      generalize addBuiltin (table.merge builtin) rest = result at hlaid
      cases hlaid with
      | refused h report =>
        obtain ⟨unknown, hmem, hunknown⟩ := h
        exact .refused ⟨unknown, List.mem_cons_of_mem set hmem, hunknown⟩ report
      | loaded h hloaded =>
        refine .loaded (by simpa [hset] using h) fun key => ?_
        rw [hloaded, merge, NameMap.get?_merge, List.reverse_cons, List.findSome?_append,
          List.findSome?_singleton, hset, Option.bind_some, Option.or_assoc]

theorem laid_addListing (h : path?.map files.read? = l.listing.map some) (table : TypeTable) :
    Laid (∃ block ∈ l.blocks, Aggregate.ofText? block = none) l.listedDefinition? table
      (addListing files table path?) := by
  cases hpath : path? with
  | none =>
    have hblocks : l.blocks = [] := by rw [Layers.blocks, eq_none_of_map_eq h hpath]; rfl
    refine .loaded (by simp [hblocks]) fun key => ?_
    rw [Layers.listedDefinition?, hblocks]
    rfl
  | some path =>
    obtain ⟨text, htext, hread⟩ := read_of_map_eq h hpath "definitions"
    have hblocks : l.blocks = blocks text := by rw [Layers.blocks, htext]; rfl
    have hrefused := Layers.addDefinitions_eq_error_iff table text
    have hadded : (table.addDefinitions text).1.aggregates =
        table.aggregates.insertAll (TypeTable.definitions (blocks text)) :=
      (addBlocks_spec table (blocks text)).1
    simp only [addListing, hread, bind, Except.bind]
    split
    next added names heq =>
      rw [heq] at hrefused hadded
      have hwell : ∀ block ∈ l.blocks, Aggregate.ofText? block ≠ none := by
        intro block hblock hnone
        obtain ⟨e, he⟩ := hrefused.mpr ⟨block, hblocks ▸ hblock, hnone⟩
        cases he
      refine .loaded (fun ⟨block, hblock, hnone⟩ => hwell block hblock hnone) fun key => ?_
      rw [Layers.listedDefinition?, ← lookup_reverse_definitions hwell, hblocks, hadded,
        NameMap.get?_insertAll]
    next added e heq =>
      rw [heq] at hrefused
      refine .refused ?_ _
      rw [hblocks]
      exact hrefused.mp ⟨e, rfl⟩

theorem laid_addTable (h : path?.map files.read? = l.json.map some) (table : TypeTable) :
    Laid (∃ text ∈ l.json, ofText? text = none) l.jsonDefinition? table
      (addTable files table path?) := by
  cases hpath : path? with
  | none =>
    have hnone := eq_none_of_map_eq h hpath
    refine .loaded (by simp [hnone]) fun key => ?_
    rw [Layers.jsonDefinition?, Layers.table?, hnone]
    rfl
  | some path =>
    obtain ⟨text, htext, hread⟩ := read_of_map_eq h hpath "type table"
    simp only [addTable, hread, bind, Except.bind]
    cases hother : ofText? text with
    | none => exact .refused ⟨text, htext, hother⟩ _
    | some other =>
      refine .loaded (by simp [htext, hother]) fun key => ?_
      rw [merge, NameMap.get?_merge, Layers.jsonDefinition?, Layers.table?, htext, Option.bind_some,
        hother, Option.bind_some]

end Stages

section Load

variable {source source' : TypeSource} {files files' : Files} {l l' : Layers}

/-- The layers lie over one another and the first of them over nothing. -/
theorem laid_load (h : source.Provides files l) :
    Laid l.Refused l.definition? .empty (source.load files) := by
  have hlaid := (laid_addBuiltin .empty l.sets).bind fun between =>
    (laid_addListing h.listing between).bind (laid_addTable h.json)
  rw [← Layers.refused_iff] at hlaid
  have hdefinition : l.definition? = fun key =>
      ((l.jsonDefinition? key).or (l.listedDefinition? key)).or (l.builtinDefinition? key) := by
    funext key
    rw [Option.or_assoc, Layers.definition?]
  rw [hdefinition, load, h.sets]
  exact hlaid

theorem load_eq_error_iff (h : source.Provides files l) :
    (∃ report, source.load files = .error report) ↔ l.Refused := by
  have hlaid := laid_load h
  generalize source.load files = result at hlaid ⊢
  cases hlaid with
  | refused hrefused report => exact iff_of_true ⟨report, rfl⟩ hrefused
  | loaded haccepted => exact iff_of_false nofun haccepted

theorem exists_load_eq_ok (h : source.Provides files l) (haccepted : ¬l.Refused) :
    ∃ table, source.load files = .ok table := by
  cases hload : source.load files with
  | error report => exact absurd ((load_eq_error_iff h).mp ⟨report, hload⟩) haccepted
  | ok table => exact ⟨table, rfl⟩

theorem not_refused_of_load (h : source.Provides files l) {table : TypeTable}
    (hload : source.load files = .ok table) : ¬l.Refused := by
  rw [← load_eq_error_iff h, hload]
  nofun

theorem get?_of_load (h : source.Provides files l) {table : TypeTable}
    (hload : source.load files = .ok table) (key : String) :
    table.aggregates.get? key = l.definition? key := by
  have hlaid := laid_load h
  rw [hload] at hlaid
  cases hlaid with
  | loaded _ hget => exact (hget key).trans (Option.or_none (o := l.definition? key))

theorem toOption_load_eq (h : source.Provides files l) (h' : source'.Provides files' l')
    (hadditions : Relation.ReflTransGen Layers.Addition l l') :
    (source'.load files').toOption = (source.load files).toOption := by
  obtain ⟨hrefused, hdefinition⟩ := Layers.same_of_additions hadditions
  cases hload : source.load files with
  | error report =>
    have hfailed := hrefused.mpr ((load_eq_error_iff h).mp ⟨report, hload⟩)
    obtain ⟨report', hload'⟩ := (load_eq_error_iff h').mpr hfailed
    rw [hload']
    rfl
  | ok table =>
    have haccepted := not_refused_of_load h hload
    obtain ⟨table', hload'⟩ := exists_load_eq_ok h' (mt hrefused.mp haccepted)
    have hsame : table'.aggregates = table.aggregates := by
      apply NameMap.ext_get?
      intro key
      rw [get?_of_load h' hload', get?_of_load h hload, hdefinition haccepted]
    rw [hload']
    exact congrArg (fun aggregates => some (TypeTable.mk aggregates)) hsame

/-- Loading fails exactly if a builtin set is unknown, as all but `posix` are, or the listing or the JSON
table is refused. Otherwise a name has the definition of the JSON table, without one that of the last
block of the listing, and without one that of the last builtin set. So what is added to a layer is not
seen where a later layer defines it anyway. -/
theorem load_exact (h : source.Provides files l) :
    ((∃ report, source.load files = .error report) ↔ l.Refused) ∧
    (l.Refused ↔ (∃ set ∈ source.builtin, ¬IsPosixName set) ∨
      (∃ text ∈ l.listing, ∃ e, (empty.addDefinitions text).2 = .error e) ∨
        ∃ text ∈ l.json, ofText? text = none) ∧
    (∀ table, source.load files = .ok table →
      (∀ name, table.get? name = l.definition? (bareName name)) ∧
      ∀ key, l.builtinDefinition? key =
        if source.builtin = [] then none else posixEntries.lookup key) ∧
    ∀ source' files' l', Provides source' files' l' → Relation.ReflTransGen Layers.Addition l l' →
      (source'.load files').toOption = (source.load files).toOption := by
  rw [h.sets]
  refine ⟨load_eq_error_iff h, Layers.refused_iff_of_names, ?_, fun _ _ _ => toOption_load_eq h⟩
  intro table hload
  have haccepted := not_refused_of_load h hload
  rw [Layers.refused_iff_of_names, not_or] at haccepted
  have hknown : ∀ set ∈ l.sets, IsPosixName set := by simpa using haccepted.1
  exact ⟨fun name => get?_of_load h hload (bareName name), Layers.builtinDefinition?_eq hknown⟩

/-- Definitions of every structure of POSIX. -/
def posixBlocks : List String :=
  ["timeval\x7b\x7d", "timespec\x7b\x7d", "timezone\x7b\x7d", "itimerval\x7b\x7d", "tm\x7blong t\x7d",
    "iovec\x7b\x7d", "pollfd\x7b\x7d", "flock\x7b\x7d", "rlimit\x7b\x7d", "in_addr\x7b\x7d", "linger\x7b\x7d"]

def posixFiles : Files where
  read? path := List.lookup path [("once", String.join posixBlocks),
    ("twice", String.join (posixBlocks ++ ["tm\x7blong u\x7d"])),
    ("table", "\x7b\"struct tm\": [\"int x\"]\x7d")]
  canWrite _ := false

/-- A block is added that the JSON table overrides, and the builtin set, which the listing overrides. With
no other source the set answers, and a name that is no set is refused. -/
theorem load_exact_posix :
    let source : TypeSource := ⟨some "table", some "once", [], defaultDepth⟩
    let source' : TypeSource := ⟨some "table", some "twice", ["POSIX"], defaultDepth⟩
    let l : Layers := ⟨[], posixFiles.read? "once", posixFiles.read? "table"⟩
    let l' : Layers := ⟨["POSIX"], posixFiles.read? "twice", posixFiles.read? "table"⟩
    let posix : TypeSource := ⟨none, none, ["PoSiX"], defaultDepth⟩
    let unknown : TypeSource := ⟨some "table", none, ["posix", "plan9"], defaultDepth⟩
    source.Provides posixFiles l ∧ source'.Provides posixFiles l' ∧
    Relation.ReflTransGen Layers.Addition l l' ∧
    (source'.load posixFiles).toOption = (source.load posixFiles).toOption ∧
    (source'.load posixFiles).toOption.bind (·.get? "struct\ttm") = some ⟨["int x"]⟩ ∧
    (∃ table, posix.load posixFiles = .ok table ∧
      table.get? "struct timeval" = some ⟨["long tv_sec", "long tv_usec"]⟩ ∧
      table.get? "stat" = none) ∧
    ∃ report, unknown.load posixFiles = .error report := by
  intro source source' l l' posix unknown
  have hprovides : source.Provides posixFiles l := ⟨rfl, by decide +kernel, by decide +kernel⟩
  have hprovides' : source'.Provides posixFiles l' := ⟨rfl, by decide +kernel, by decide +kernel⟩
  have hjson : l.table? = some (empty.insert "tm" ⟨["int x"]⟩) := by decide +kernel
  have hblocks : l.blocks = posixBlocks := by decide +kernel
  have hblocks' : l'.blocks = posixBlocks ++ ["tm\x7blong u\x7d"] := by decide +kernel
  have hblock : Layers.Addition l ⟨[], l'.listing, l.json⟩ :=
    .block posixBlocks [] (by rw [List.append_nil]; exact hblocks) hblocks' (by decide +kernel)
      ⟨_, hjson, by decide +kernel⟩
  have hbuiltin : builtin? "POSIX" = some (addPosix .empty) := by decide +kernel
  have hset : Layers.Addition ⟨[], l'.listing, l.json⟩ l' := by
    refine .set [] [] hbuiltin fun key hkey => .inr ?_
    show ∃ block ∈ l'.blocks, definedName block = key
    rw [hblocks']
    revert key
    decide +kernel
  have haccepted : ¬l.Refused := by
    rw [Layers.refused_iff, hblocks]
    rintro (⟨set, hset, -⟩ | hmalformed | ⟨text, htext, hnone⟩)
    · cases hset
    · exact absurd hmalformed (by decide +kernel)
    · rw [Layers.table?, htext, Option.bind_some, hnone] at hjson
      cases hjson
  have hdefinition : l.definition? (bareName "struct\ttm") = some ⟨["int x"]⟩ := by
    rw [Layers.definition?, Layers.jsonDefinition?, hjson]
    decide +kernel
  obtain ⟨-, -, hget, hsame⟩ := load_exact hprovides
  have hadditions := (Relation.ReflTransGen.single hblock).tail hset
  have hload := hsame source' posixFiles l' hprovides' hadditions
  obtain ⟨table, htable⟩ := exists_load_eq_ok hprovides haccepted
  have hposix : posix.Provides posixFiles ⟨["PoSiX"], none, none⟩ := ⟨rfl, rfl, rfl⟩
  have hmixed : builtin? "PoSiX" = some (addPosix .empty) := by decide +kernel
  have hposixAccepted : ¬(Layers.mk ["PoSiX"] none none).Refused := by
    simp [Layers.refused_iff_of_names, (builtin?_eq_some_iff.mp hmixed).1]
  obtain ⟨-, -, hposixGet, -⟩ := load_exact hposix
  obtain ⟨posixTable, hposixTable⟩ := exists_load_eq_ok hposix hposixAccepted
  obtain ⟨hnames, -⟩ := hposixGet posixTable hposixTable
  have hunknown : unknown.Provides posixFiles ⟨["posix", "plan9"], none, posixFiles.read? "table"⟩ :=
    ⟨rfl, rfl, by decide +kernel⟩
  have hplan9 : ¬IsPosixName "plan9" := builtin?_eq_none_iff.mp (by decide +kernel)
  obtain ⟨hfailure, hrefused, -, -⟩ := load_exact hunknown
  refine ⟨hprovides, hprovides', hadditions, hload, ?_, ⟨posixTable, hposixTable, ?_, ?_⟩,
    hfailure.mpr (hrefused.mpr (.inl ⟨"plan9", by decide, hplan9⟩))⟩
  · rw [hload, htable]
    exact ((hget table htable).1 "struct\ttm").trans hdefinition
  · exact (hnames _).trans (by decide +kernel)
  · exact (hnames _).trans (by decide +kernel)

end Load

end TypeSource

end CommandLine

end DecompConfig
