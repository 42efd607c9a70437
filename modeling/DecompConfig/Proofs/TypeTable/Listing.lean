import DecompConfig.Proofs.TypeTable.Blocks
import DecompConfig.Proofs.TypeTable.Confinement

namespace DecompConfig

open Text

section Words

variable {s w : List Char}

/-- A word without semicolons stays the last one when a separator in front of the text is left out. -/
theorem getLast?_words_of_cons {c : Char} (hc : isSeparator c = true) (hw : ';' ∉ w)
    (h : (words (c :: s)).getLast? = some w) : (words s).getLast? = some w := by
  by_cases hblank : isBlank c = true
  · have hwords : words (c :: s) = words s := by
      rw [words, pieces, if_pos hblank]
      rfl
    rwa [hwords] at h
  · -- The semicolon is glued to the first word, so that this word is not the last one.
    obtain rfl : c = ';' := by
      simpa [isSeparator, hblank] using hc
    obtain ⟨piece, more, hpieces⟩ := exists_pieces_eq_cons isBlank s
    have hfirst : words (';' :: s) = (';' :: piece) :: more.filter (!·.isEmpty) := by
      rw [words, pieces, if_neg hblank, hpieces]
      rfl
    have hwords : words s = [piece].filter (!·.isEmpty) ++ more.filter (!·.isEmpty) := by
      rw [words, hpieces, ← List.filter_append]
      rfl
    rw [hfirst] at h
    rw [hwords]
    cases hmore : more.filter (!·.isEmpty) with
    | nil =>
      rw [hmore] at h
      obtain rfl := Option.some.inj h
      exact absurd List.mem_cons_self hw
    | cons next rest =>
      rw [hmore, List.getLast?_cons_cons] at h
      rw [List.getLast?_append, h, Option.some_or]

theorem getLast?_words_dropWhile {p : Char → Bool} (hp : ∀ c, p c = true → isSeparator c = true)
    (hw : ';' ∉ w) (h : (words s).getLast? = some w) :
    (words (s.dropWhile p)).getLast? = some w := by
  induction s with
  | nil => exact h
  | cons c s ih =>
    rw [List.dropWhile_cons]
    split
    next hc => exact ih (getLast?_words_of_cons (hp c hc) hw h)
    next => exact h

end Words

section Enclosed

variable {head body tail : List Char}

theorem encloses_enclosed (hhead : ∀ c ∈ head, isBrace c = false)
    (htail : ∀ c ∈ tail, isSeparator c = true) :
    Encloses (enclosed head body tail) head body tail :=
  ⟨rfl, not_mem_of_forall_eq (by decide) hhead, not_mem_of_forall_eq (by decide) htail⟩

theorem definedName_enclosed (hhead : '{' ∉ head) :
    definedName (.ofList (enclosed head body tail)) = .ofList ((words head).getLast?.getD []) := by
  rw [definedName, String.toList_ofList, enclosed, takeWhile_bne_append_cons hhead]

theorem addDefinition_enclosed (hhead : ∀ c ∈ head, isBrace c = false)
    (hbody : ∀ c ∈ body, isBrace c = false) (htail : ∀ c ∈ tail, isSeparator c = true)
    {name : List Char} (hname : (words head).getLast? = some name) (table : TypeTable) :
    table.addDefinition (.ofList (enclosed head body tail)) =
      .ok (.ofList name, table.insert (.ofList name) ⟨Aggregate.membersOf body⟩) := by
  have hopen : '{' ∉ head := not_mem_of_forall_eq (by decide) hhead
  have hread := Aggregate.ofText?_of_encloses (encloses_enclosed hhead htail) hbody
  rw [table.addDefinition_of_some hread, definedName_enclosed hopen, hname, Option.getD_some]

/-- A definition in front of a listing is its first block. -/
theorem blocksFrom_enclosed_append (hhead : ∀ c ∈ head, isBrace c = false)
    (hbody : ∀ c ∈ body, isBrace c = false) (htail : ∀ c ∈ tail, isSeparator c = true)
    (more : List Char) : blocksFrom (enclosed head body tail ++ more) =
      enclosed head body [] :: blocksFrom (more.dropWhile isSeparator) := by
  have hopened : '}' ∉ head ++ '{' :: body := by
    rw [List.mem_append, List.mem_cons, not_or, not_or]
    exact ⟨not_mem_of_forall_eq (by decide) hhead, by decide,
      not_mem_of_forall_eq (by decide) hbody⟩
  have hsplit : enclosed head body tail ++ more =
      (head ++ '{' :: body) ++ '}' :: (tail ++ more) := by
    simp [enclosed]
  rw [hsplit, blocksFrom_append_close hopened, List.dropWhile_append_of_pos htail]
  simp [enclosed]

end Enclosed

/-- The text of one definition: a head that ends in the name, the members between braces, and
nothing but separators after them. -/
structure Definition where
  name : String
  head : List Char
  body : List Char
  tail : List Char
  name_last : (words head).getLast? = some name.toList
  -- A semicolon in front of the head separates it from what stands before it in a listing.
  name_whole : ';' ∉ name.toList
  head_braceless : ∀ c ∈ head, isBrace c = false
  body_braceless : ∀ c ∈ body, isBrace c = false
  tail_separates : ∀ c ∈ tail, isSeparator c = true

namespace Definition

variable (d : Definition)

def chars : List Char := d.head ++ '{' :: (d.body ++ '}' :: d.tail)

def text : String := .ofList d.chars

def aggregate : Aggregate := ⟨Aggregate.membersOf d.body⟩

/-- What a table holds for the definition. -/
def entry : String × Aggregate := (d.name, d.aggregate)

theorem not_isBlank_of_mem_name {c : Char} (hc : c ∈ d.name.toList) : isBlank c = false :=
  not_isBlank_of_mem_words (List.mem_of_getLast? d.name_last) hc

theorem bareName_name : bareName d.name = d.name :=
  bareName_eq_self fun _ => d.not_isBlank_of_mem_name

theorem chars_eq_enclosed : d.chars = enclosed d.head d.body d.tail := rfl

/-- The definition is read whatever name it is asked under. -/
theorem parse_text (name : String) : Aggregate.parse name d.text = .ok d.aggregate := by
  have hread : Aggregate.ofText? d.text = some d.aggregate :=
    Aggregate.ofText?_of_encloses (encloses_enclosed d.head_braceless d.tail_separates)
      d.body_braceless
  rw [Aggregate.parse, hread]

theorem readText_text (name : String) :
    (Oracle.readText name (some d.text)).definition = .ok (some d.aggregate) := by
  have hne : (trim d.text.toList).isEmpty = false := by
    rw [text, String.toList_ofList, chars, trim_append_cons (by decide), List.isEmpty_eq_false_iff]
    exact List.append_ne_nil_of_right_ne_nil _ (List.cons_ne_nil _ _)
  rw [Oracle.readText, hne, if_neg Bool.false_ne_true, d.parse_text]
  rfl

theorem addDefinition_text (table : TypeTable) :
    table.addDefinition d.text = .ok (d.name, table.insert d.name d.aggregate) := by
  rw [text, d.chars_eq_enclosed, addDefinition_enclosed d.head_braceless d.body_braceless
    d.tail_separates d.name_last, String.ofList_toList, aggregate]

/-- The definition without the separators around it. -/
def bare {p : Char → Bool} (hp : ∀ c, p c = true → isSeparator c = true) : Definition where
  name := d.name
  head := d.head.dropWhile p
  body := d.body
  tail := []
  name_last := getLast?_words_dropWhile hp d.name_whole d.name_last
  name_whole := d.name_whole
  head_braceless := fun c hc => d.head_braceless c ((List.dropWhile_sublist p).subset hc)
  body_braceless := d.body_braceless
  tail_separates := nofun

theorem blocksFrom_append {p : Char → Bool} (hp : ∀ c, p c = true → isSeparator c = true)
    (more : List Char) : blocksFrom ((d.chars ++ more).dropWhile p) =
      (d.bare hp).chars :: blocksFrom (more.dropWhile isSeparator) := by
  have hopen : p '{' = false := eq_false_of_ne_true fun h => absurd (hp '{' h) (by decide)
  have hdrop : (d.chars ++ more).dropWhile p =
      enclosed (d.head.dropWhile p) d.body d.tail ++ more := by
    rw [chars, List.append_assoc, List.cons_append, dropWhile_append_cons_of_neg hopen]
    simp [enclosed]
  rw [hdrop]
  exact blocksFrom_enclosed_append (d.bare hp).head_braceless d.body_braceless d.tail_separates more

theorem blocksFrom_flatMap (ds : List Definition) :
    blocksFrom ((ds.flatMap chars).dropWhile isSeparator) =
      ds.map fun d => (d.bare fun _ => id).chars := by
  induction ds with
  | nil => exact blocksFrom_of_not_mem List.not_mem_nil
  | cons d ds ih => rw [List.flatMap_cons, d.blocksFrom_append fun _ => id, ih, List.map_cons]

/-- The blocks of a listing are its definitions, up to the separators around them. -/
theorem blocks_join_text (ds : List Definition) :
    ∃ bare : List Definition, blocks (String.join (ds.map text)) = bare.map text ∧
      bare.map entry = ds.map entry := by
  have hlisting : (String.join (ds.map text)).toList = ds.flatMap chars := by
    simp [String.toList_join, List.flatMap_map, text]
  cases ds with
  | nil =>
    refine ⟨[], ?_, rfl⟩
    rw [blocks, hlisting]
    rw [List.flatMap_nil, trimStart, List.dropWhile_nil, blocksFrom_of_not_mem List.not_mem_nil]
    rfl
  | cons d ds =>
    have hblank : ∀ c, isBlank c = true → isSeparator c = true := fun c hc => by
      rw [isSeparator, hc, Bool.or_true]
    refine ⟨d.bare hblank :: ds.map fun d => d.bare fun _ => id, ?_, ?_⟩
    · rw [blocks, hlisting, List.flatMap_cons, trimStart, d.blocksFrom_append hblank,
        blocksFrom_flatMap]
      simp [text]
    · simp [bare, entry, aggregate]

/-- Answers each name with the text of its definition and other names with nothing. -/
def answer (ds : List Definition) (name : String) : Option String :=
  (ds.find? (·.name == name)).map text

variable {ds : List Definition}

theorem find?_name (hnames : (ds.map name).Nodup) {d : Definition} (hd : d ∈ ds) :
    ds.find? (·.name == d.name) = some d := by
  induction ds with
  | nil => cases hd
  | cons first ds ih =>
    obtain ⟨hfirst, hrest⟩ := List.nodup_cons.mp hnames
    rcases List.mem_cons.mp hd with rfl | hd
    · exact List.find?_cons_of_pos (by simp)
    · have hne : first.name ≠ d.name := fun heq => hfirst (heq ▸ List.mem_map_of_mem hd)
      rw [List.find?_cons_of_neg (by simpa using hne), ih hrest hd]

theorem answer_of_mem (hnames : (ds.map name).Nodup) {d : Definition} (hd : d ∈ ds) :
    answer ds d.name = some d.text := by
  rw [answer, find?_name hnames hd, Option.map_some]

theorem answer_of_not_mem {name : String} (h : name ∉ ds.map Definition.name) :
    answer ds name = none := by
  have hnone : ds.find? (·.name == name) = none := by
    rw [List.find?_eq_none]
    intro d hd heq
    exact h (List.mem_map.mpr ⟨d, hd, by simpa using heq⟩)
  rw [answer, hnone, Option.map_none]

end Definition

namespace TypeTable

variable {ds : List Definition}

theorem get?_insertAll_of_not_mem (table : TypeTable) {name : String}
    (hbare : bareName name = name) (h : name ∉ ds.map Definition.name) :
    (table.insertAll (ds.map Definition.entry)).get? name = table.get? name := by
  induction ds generalizing table with
  | nil => rfl
  | cons d ds ih =>
    rw [List.map_cons, List.mem_cons, not_or] at h
    obtain ⟨hne, hrest⟩ := h
    show ((table.insert d.name d.aggregate).insertAll (ds.map Definition.entry)).get? name = _
    rw [ih _ hrest, get?_insert, hbare, d.bareName_name, if_neg hne]

theorem get?_insertAll_of_mem (table : TypeTable) (hnames : (ds.map Definition.name).Nodup) {d : Definition}
    (hd : d ∈ ds) : (table.insertAll (ds.map Definition.entry)).get? d.name = some d.aggregate := by
  induction ds generalizing table with
  | nil => cases hd
  | cons first ds ih =>
    obtain ⟨hfirst, hrest⟩ := List.nodup_cons.mp hnames
    show ((table.insert first.name first.aggregate).insertAll (ds.map Definition.entry)).get? d.name = _
    rcases List.mem_cons.mp hd with rfl | hd
    · rw [get?_insertAll_of_not_mem _ d.bareName_name hfirst, get?_insert, if_pos rfl]
    · exact ih _ hrest hd

/-- Each text of a list is added in its turn. -/
theorem foldlM_addDefinition (table : TypeTable) (ds : List Definition) :
    (ds.map Definition.text).foldlM (fun table text => Prod.snd <$> table.addDefinition text) table =
      .ok (table.insertAll (ds.map Definition.entry)) := by
  induction ds generalizing table with
  | nil => rfl
  | cons d ds ih =>
    rw [List.map_cons, List.foldlM_cons, d.addDefinition_text]
    exact ih _

theorem addDefinitions_join (table : TypeTable) (ds : List Definition) :
    table.addDefinitions (String.join (ds.map Definition.text)) =
      (table.insertAll (ds.map Definition.entry), .ok (ds.map Definition.name)) := by
  obtain ⟨bare, hblocks, hentries⟩ := Definition.blocks_join_text ds
  have hadded : table.addBlocks (bare.map Definition.text) =
      (table.insertAll (bare.map Definition.entry), .ok ((bare.map Definition.entry).map Prod.fst)) :=
    addBlocks_map (fun d _ table => d.addDefinition_text table) table
  rw [addDefinitions, hblocks, hadded, hentries, List.map_map]
  rfl

variable {σ τ : Type}

/-- A table that holds the definitions, in whatever order they were added, answers as their texts
do. -/
theorem same_insertAll {order : List Definition} (hnames : (ds.map Definition.name).Nodup)
    (horder : order.Perm ds) (depth : Nat) (type : String) (s : σ) (t : τ) :
    (lowerType (.ofQuery fun name s => (Definition.answer ds name, s)) depth type s).Same
      (lowerType (empty.insertAll (order.map Definition.entry)).oracle depth type t) := by
  have hperm := horder.map Definition.name
  have htextual : (Oracle.ofQuery fun name (s : σ) => (Definition.answer ds name, s)).DeterminedBy
      fun q => (Oracle.readText q (Definition.answer ds q)).definition := fun _ _ => rfl
  refine Lowering.same_of_eq_on_queries htextual (answersBy_oracle _) ?_ t
  intro q hq
  obtain ⟨-, hblank, -⟩ := Lowering.canonical_of_mem_queries hq
  by_cases hmem : q ∈ ds.map Definition.name
  · obtain ⟨d, hd, rfl⟩ := List.mem_map.mp hmem
    rw [Definition.answer_of_mem hnames hd, d.readText_text,
      get?_insertAll_of_mem _ (hperm.nodup_iff.mpr hnames) (horder.mem_iff.mpr hd)]
  · have hother : q ∉ order.map Definition.name := fun h => hmem (hperm.mem_iff.mp h)
    rw [Definition.answer_of_not_mem hmem,
      get?_insertAll_of_not_mem _ (bareName_eq_self hblank) hother]
    rfl

/-- Definitions of different names mean the same as texts that are looked up, as texts that are added
to a table one by one and as one listing, the last two in any order. -/
theorem definitions_agree {order listed : List Definition} (hnames : (ds.map Definition.name).Nodup)
    (horder : order.Perm ds) (hlisted : listed.Perm ds) (depth : Nat) (type : String) (s : σ)
    (t : τ) :
    let run := lowerType (.ofQuery fun name s => (Definition.answer ds name, s)) depth type s
    (∃ table, (order.map Definition.text).foldlM
        (fun table text => Prod.snd <$> table.addDefinition text) empty = .ok table ∧
      run.Same (lowerType table.oracle depth type t)) ∧
    ∃ table, empty.addDefinitions (String.join (listed.map Definition.text)) =
        (table, .ok (listed.map Definition.name)) ∧
      run.Same (lowerType table.oracle depth type t) :=
  ⟨⟨_, foldlM_addDefinition empty order, same_insertAll hnames horder depth type s t⟩,
    ⟨_, addDefinitions_join empty listed, same_insertAll hnames hlisted depth type s t⟩⟩

def pointDefinition : Definition where
  name := "p"
  head := ['s', 't', 'r', 'u', 'c', 't', ' ', 'p']
  body := ['i', 'n', 't', ' ', 'x', ';']
  tail := [';']
  name_last := by decide +kernel
  name_whole := by decide
  head_braceless := by simp [isBrace]
  body_braceless := by simp [isBrace]
  tail_separates := by simp [isSeparator]

/-- A definition whose head begins with separators. -/
def lineDefinition : Definition where
  name := "l"
  head := [';', ' ', 'l']
  body := ['p', ' ', 'a', ';', 'p', ' ', 'b']
  tail := []
  name_last := by decide +kernel
  name_whole := by decide
  head_braceless := by simp [isBrace]
  body_braceless := by simp [isBrace]
  tail_separates := nofun

theorem definitions_agree_line :
    let ds := [pointDefinition, lineDefinition]
    let run := lowerType (.ofQuery fun name s => (Definition.answer ds name, s)) 2 "l *" ()
    let listing := "; l\x7bp a;p b\x7dstruct p\x7bint x;\x7d;"
    run.value? = some "\x7b\x7bi32\x7d,\x7bi32\x7d\x7d*" ∧ run.queries = ["l", "p", "p"] ∧
    ∃ table, empty.addDefinitions listing = (table, .ok ["l", "p"]) ∧
      run.Same (lowerType table.oracle 2 "l *" ()) := by
  intro ds run listing
  have hnames : (ds.map Definition.name).Nodup := by decide
  have hlisting : String.join ([lineDefinition, pointDefinition].map Definition.text) = listing := by
    decide +kernel
  obtain ⟨-, table, hadded, hsame⟩ := definitions_agree hnames (.refl ds)
    (.swap pointDefinition lineDefinition []) 2 "l *" () ()
  rw [hlisting] at hadded
  exact ⟨by decide +kernel, by decide +kernel, table, hadded, hsame⟩

end TypeTable

end DecompConfig
