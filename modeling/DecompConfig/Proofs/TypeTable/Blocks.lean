import DecompConfig.Proofs.Aggregate.Reading
import DecompConfig.Proofs.TypeTable.History

namespace DecompConfig

open Text

section Cut

/-- A text cut after each closing brace. What stands behind the last one is a piece too. -/
def cutAfterClose : List Char → List (List Char)
  | [] => [[]]
  | c :: cs => if c = '}' then [c] :: cutAfterClose cs else (cutAfterClose cs).modifyHead (c :: ·)

theorem cutAfterClose_cons_of_ne {c : Char} (hc : c ≠ '}') (s : List Char) :
    cutAfterClose (c :: s) = (cutAfterClose s).modifyHead (c :: ·) := by
  rw [cutAfterClose, if_neg hc]

theorem cutAfterClose_of_not_mem {s : List Char} (h : '}' ∉ s) : cutAfterClose s = [s] := by
  induction s with
  | nil => rfl
  | cons c s ih =>
    rw [List.mem_cons, not_or] at h
    rw [cutAfterClose_cons_of_ne (Ne.symm h.1), ih h.2]
    rfl

theorem cutAfterClose_append_close {before : List Char} (h : '}' ∉ before) (rest : List Char) :
    cutAfterClose (before ++ '}' :: rest) = (before ++ ['}']) :: cutAfterClose rest := by
  induction before with
  | nil => rfl
  | cons c before ih =>
    rw [List.mem_cons, not_or] at h
    rw [List.cons_append, cutAfterClose_cons_of_ne (Ne.symm h.1), ih h.2]
    rfl

/-- Induction on the closing braces of a text. -/
theorem close_induction {motive : List Char → Prop} (unclosed : ∀ s, '}' ∉ s → motive s)
    (close : ∀ before rest, '}' ∉ before → motive rest → motive (before ++ '}' :: rest))
    (s : List Char) : motive s := by
  by_cases hclose : '}' ∈ s
  · obtain ⟨before, rest, hsplit, hbefore⟩ := List.eq_append_cons_of_mem hclose
    have : rest.length < s.length := by
      rw [hsplit, List.length_append, List.length_cons]
      omega
    exact hsplit ▸ close before rest hbefore (close_induction unclosed close rest)
  · exact unclosed s hclose
termination_by s.length

theorem blocksFrom_of_not_mem {s : List Char} (h : '}' ∉ s) :
    blocksFrom s = [s].filter (!·.isEmpty) := by
  rw [blocksFrom]
  split
  · cases s <;> rfl
  next heq =>
    rw [dropWhile_bne_of_not_mem h] at heq
    cases heq

theorem blocksFrom_append_close {before : List Char} (h : '}' ∉ before) (rest : List Char) :
    blocksFrom (before ++ '}' :: rest) =
      (before ++ ['}']) :: blocksFrom (rest.dropWhile isSeparator) := by
  have hdrop : (before ++ '}' :: rest).dropWhile (· != '}') = '}' :: rest :=
    dropWhile_bne_append_cons h rest
  rw [blocksFrom]
  split
  next heq =>
    rw [hdrop] at heq
    cases heq
  next heq =>
    rw [hdrop] at heq
    obtain ⟨rfl, rfl⟩ := List.cons_eq_cons.mp heq
    rw [takeWhile_bne_append_cons h]

end Cut

/-- A text that ends in its only closing brace. -/
def IsClosed (piece : List Char) : Prop := ∃ inner, piece = inner ++ ['}'] ∧ '}' ∉ inner

section Pieces

variable {p : Char → Bool}

/-- Leaves out what stands in front of the pieces of a text. -/
def dropFronts (p : Char → Bool) : List (List Char) → List (List Char)
  | [] => []
  | first :: later => first.dropWhile p :: later.map (·.dropWhile isSeparator)

theorem dropFronts_isSeparator (pieces : List (List Char)) :
    dropFronts isSeparator pieces = pieces.map (·.dropWhile isSeparator) := by
  cases pieces <;> rfl

/-- The pieces of a listing, without the blanks in front of the first and without the separators in
front of the others. -/
def listingPieces (listing : String) : List (List Char) :=
  dropFronts isBlank (cutAfterClose listing.toList)

theorem dropFronts_append_close (hp : p '}' = false) {before : List Char} (h : '}' ∉ before)
    (rest : List Char) : dropFronts p (cutAfterClose (before ++ '}' :: rest)) =
      (before.dropWhile p ++ ['}']) :: dropFronts isSeparator (cutAfterClose rest) := by
  rw [cutAfterClose_append_close h, dropFronts_isSeparator, dropFronts,
    dropWhile_append_cons_of_neg hp]

theorem not_mem_dropWhile {s : List Char} {c : Char} (h : c ∉ s) : c ∉ s.dropWhile p :=
  fun hmem => h ((List.dropWhile_sublist p).subset hmem)

theorem blocksFrom_dropWhile (hp : p '}' = false) (s : List Char) :
    blocksFrom (s.dropWhile p) = (dropFronts p (cutAfterClose s)).filter (!·.isEmpty) := by
  induction s using close_induction generalizing p with
  | unclosed s h => rw [blocksFrom_of_not_mem (not_mem_dropWhile h), cutAfterClose_of_not_mem h]; rfl
  | close before rest h ih =>
    rw [dropFronts_append_close hp h, dropWhile_append_cons_of_neg hp,
      blocksFrom_append_close (not_mem_dropWhile h), ih rfl, List.filter_cons_of_pos (by simp)]

theorem blocks_eq (listing : String) :
    blocks listing = ((listingPieces listing).filter (!·.isEmpty)).map String.ofList := by
  rw [blocks, trimStart, blocksFrom_dropWhile (by decide), listingPieces]

/-- All pieces but the last end in their only closing brace, and the last one has none. -/
theorem exists_dropFronts_eq (hp : p '}' = false) (s : List Char) : ∃ closed rest,
    dropFronts p (cutAfterClose s) = closed ++ [rest] ∧ (∀ piece ∈ closed, IsClosed piece) ∧
      '}' ∉ rest := by
  induction s using close_induction generalizing p with
  | unclosed s h =>
    refine ⟨[], s.dropWhile p, ?_, nofun, not_mem_dropWhile h⟩
    rw [cutAfterClose_of_not_mem h]
    rfl
  | close before rest h ih =>
    obtain ⟨closed, last, hpieces, hclosed, hlast⟩ := ih (p := isSeparator) rfl
    have hfirst : IsClosed (before.dropWhile p ++ ['}']) := ⟨_, rfl, not_mem_dropWhile h⟩
    refine ⟨_ :: closed, last, ?_, List.forall_mem_cons.mpr ⟨hfirst, hclosed⟩, hlast⟩
    rw [dropFronts_append_close hp h, hpieces, List.cons_append]

end Pieces

section Flat

variable {piece head body tail : List Char}

/-- A piece that ends in a closing brace has one opening brace, and any other piece is empty. -/
def IsFlat (piece : List Char) : Prop :=
  if piece.getLast? = some '}' then piece.count '{' = 1 else piece = []

instance : DecidablePred IsFlat := fun piece =>
  inferInstanceAs (Decidable (if piece.getLast? = some '}' then piece.count '{' = 1 else piece = []))

theorem IsClosed.getLast?_eq (h : IsClosed piece) : piece.getLast? = some '}' := by
  obtain ⟨inner, rfl, -⟩ := h
  exact List.getLast?_concat

theorem IsClosed.isFlat_iff (h : IsClosed piece) : IsFlat piece ↔ piece.count '{' = 1 := by
  rw [IsFlat, if_pos h.getLast?_eq]

theorem isFlat_iff_of_not_mem (h : '}' ∉ piece) : IsFlat piece ↔ piece = [] := by
  rw [IsFlat, if_neg fun hlast => h (List.mem_of_getLast? hlast)]

theorem Encloses.tail_eq_nil (h : Encloses piece head body tail)
    (hlast : piece.getLast? = some '}') : tail = [] := by
  by_contra hne
  have hsplit : enclosed head body tail = (head ++ '{' :: (body ++ ['}'])) ++ tail := by
    simp [enclosed]
  rw [h.eq, hsplit, List.getLast?_append_of_ne_nil _ hne] at hlast
  exact h.last (List.mem_of_getLast? hlast)

theorem exists_encloses_of_count_eq_one (h : IsClosed piece) (hcount : piece.count '{' = 1) :
    ∃ head body, Encloses piece head body [] ∧ ∀ c ∈ body, isBrace c = false := by
  obtain ⟨inner, rfl, hinner⟩ := h
  rw [List.count_append, List.count_singleton, if_neg (by decide), Nat.add_zero] at hcount
  have hmem : '{' ∈ inner := List.count_pos_iff.mp (by omega)
  obtain ⟨head, body, rfl, hhead⟩ := List.eq_append_cons_of_mem hmem
  rw [List.count_append, List.count_cons_self, List.count_eq_zero.mpr hhead] at hcount
  have hbody : '{' ∉ body := List.count_eq_zero.mp (by omega)
  refine ⟨head, body, ⟨by simp [enclosed], hhead, List.not_mem_nil⟩, fun c hc => ?_⟩
  rw [isBrace_eq_false_iff]
  constructor
  · rintro rfl
    exact hbody hc
  · rintro rfl
    exact hinner (List.mem_append_right _ (List.mem_cons_of_mem _ hc))

theorem Encloses.count_eq_one (h : Encloses piece head body []) (hbody : '{' ∉ body) :
    piece.count '{' = 1 := by
  rw [h.eq]
  simp [enclosed, List.count_eq_zero.mpr h.first, List.count_eq_zero.mpr hbody]

/-- The pieces of a listing that are no definitions and not empty are those that are not flat. -/
theorem isFlat_iff_ofText? (h : IsClosed piece ∨ '}' ∉ piece) : IsFlat piece ↔
    piece = [] ∨ ∃ aggregate, Aggregate.ofText? (.ofList piece) = some aggregate := by
  simp only [Aggregate.ofText?_eq_some_iff, String.toList_ofList]
  rcases h with hclosed | hopen
  · rw [hclosed.isFlat_iff]
    constructor
    · intro hcount
      obtain ⟨head, body, hs, hbody⟩ := exists_encloses_of_count_eq_one hclosed hcount
      exact .inr ⟨_, head, body, [], hs, hbody, rfl⟩
    · rintro (rfl | ⟨aggregate, head, body, tail, hs, hbody, -⟩)
      · exact absurd hclosed.getLast?_eq nofun
      · obtain rfl := hs.tail_eq_nil hclosed.getLast?_eq
        exact hs.count_eq_one (not_mem_of_forall_eq (by decide) hbody)
  · rw [isFlat_iff_of_not_mem hopen]
    constructor
    · exact .inl
    · rintro (hnil | ⟨aggregate, head, body, tail, hs, -⟩)
      · exact hnil
      · rw [hs.eq] at hopen
        exact absurd (by simp [enclosed]) hopen

/-- What a table holds for a block with one pair of braces: the members between the braces, under the
last word in front of them. -/
def blockEntry (block : List Char) : String × Aggregate :=
  (.ofList ((words (block.takeWhile (· != '{'))).getLast?.getD []),
    ⟨Aggregate.membersOf (block.dropWhile (· != '{')).tail.dropLast⟩)

theorem blockEntry_of_encloses (h : Encloses piece head body []) :
    blockEntry piece = (definedName (.ofList piece), ⟨Aggregate.membersOf body⟩) := by
  have hbody : (piece.dropWhile (· != '{')).tail.dropLast = body := by
    rw [h.eq, enclosed, dropWhile_bne_append_cons h.first, List.tail_cons, List.dropLast_concat]
  rw [blockEntry, hbody, definedName, String.toList_ofList]

end Flat

namespace TypeTable

theorem addDefinition_block {block : List Char} (hclosed : IsClosed block) (h : IsFlat block)
    (table : TypeTable) : table.addDefinition (.ofList block) =
      .ok ((blockEntry block).1, table.insert (blockEntry block).1 (blockEntry block).2) := by
  obtain ⟨head, body, hs, hbody⟩ :=
    exists_encloses_of_count_eq_one hclosed (hclosed.isFlat_iff.mp h)
  rw [table.addDefinition_of_some (Aggregate.ofText?_of_encloses hs hbody), blockEntry_of_encloses hs]

section Entries

variable {ι : Type} {text : ι → String} {entry : ι → String × Aggregate} {is : List ι}

/-- Blocks that each define one entry are added in their turn, and then what stands behind them. -/
theorem addBlocks_map_append (h : ∀ i ∈ is, ∀ table : TypeTable,
      table.addDefinition (text i) = .ok ((entry i).1, table.insert (entry i).1 (entry i).2))
    {table added : TypeTable} {names : Except LoweringError (List String)} (more : List String)
    (hmore : (table.insertAll (is.map entry)).addBlocks more = (added, names)) :
    table.addBlocks (is.map text ++ more) =
      (added, names.map ((is.map entry).map Prod.fst ++ ·)) := by
  induction is generalizing table with
  | nil =>
    refine Eq.trans hmore ?_
    cases names <;> rfl
  | cons i is ih =>
    obtain ⟨hi, his⟩ := List.forall_mem_cons.mp h
    have hrest := ih his hmore
    rw [List.map_cons, List.cons_append, addBlocks, hi]
    dsimp only
    rw [hrest]
    cases names <;> rfl

theorem addBlocks_map (h : ∀ i ∈ is, ∀ table : TypeTable,
      table.addDefinition (text i) = .ok ((entry i).1, table.insert (entry i).1 (entry i).2))
    (table : TypeTable) : table.addBlocks (is.map text) =
      (table.insertAll (is.map entry), .ok ((is.map entry).map Prod.fst)) := by
  have hnone : (table.insertAll (is.map entry)).addBlocks [] =
      (table.insertAll (is.map entry), .ok []) := rfl
  have hadded := addBlocks_map_append h [] hnone
  rwa [List.append_nil, Except.map, List.append_nil] at hadded

end Entries

section Listing

variable {listing : String}

theorem exists_listingPieces_eq (listing : String) : ∃ closed rest,
    listingPieces listing = closed ++ [rest] ∧ (∀ piece ∈ closed, IsClosed piece) ∧ '}' ∉ rest :=
  exists_dropFronts_eq (by decide) listing.toList

theorem filter_of_isClosed {pieces : List (List Char)} (h : ∀ piece ∈ pieces, IsClosed piece) :
    pieces.filter (!·.isEmpty) = pieces := by
  rw [List.filter_eq_self]
  intro piece hpiece
  obtain ⟨inner, rfl, -⟩ := h piece hpiece
  simp

theorem addDefinitions_of_isFlat (h : ∀ piece ∈ listingPieces listing, IsFlat piece)
    (table : TypeTable) : table.addDefinitions listing =
      (table.insertAll ((listingPieces listing).dropLast.map blockEntry),
        .ok (((listingPieces listing).dropLast.map blockEntry).map Prod.fst)) := by
  obtain ⟨closed, rest, hpieces, hclosed, hrest⟩ := exists_listingPieces_eq listing
  rw [addDefinitions, blocks_eq]
  rw [hpieces] at h ⊢
  obtain ⟨hflat, hlast⟩ := List.forall_mem_append.mp h
  obtain rfl : rest = [] := (isFlat_iff_of_not_mem hrest).mp (hlast rest List.mem_cons_self)
  have hblocks : (closed ++ [[]]).filter (!·.isEmpty) = closed := by
    rw [List.filter_append, filter_of_isClosed hclosed]
    exact List.append_nil closed
  rw [hblocks, List.dropLast_concat]
  exact addBlocks_map (fun piece hpiece =>
    addDefinition_block (hclosed piece hpiece) (hflat piece hpiece)) table

/-- The first piece that is not flat ends the listing. -/
theorem addDefinitions_of_not_isFlat {before after : List (List Char)} {bad : List Char}
    (hsplit : listingPieces listing = before ++ bad :: after) (hbefore : ∀ piece ∈ before, IsFlat piece)
    (hbad : ¬IsFlat bad) (table : TypeTable) : table.addDefinitions listing =
      (table.insertAll (before.map blockEntry),
        .error (.malformed (definedName (.ofList bad)) (.ofList bad))) := by
  obtain ⟨closed, rest, hpieces, hclosed, hrest⟩ := exists_listingPieces_eq listing
  -- The pieces in front of it are not the last one, and so they end in a brace.
  have hfront : closed = before ++ (bad :: after).dropLast := by
    rw [← List.dropLast_append_of_ne_nil (List.cons_ne_nil bad after), ← hsplit, hpieces,
      List.dropLast_concat]
  have hends : ∀ piece ∈ before, IsClosed piece := fun piece hpiece =>
    hclosed piece (hfront ▸ List.mem_append_left _ hpiece)
  have hshape : IsClosed bad ∨ '}' ∉ bad := by
    have hmem : bad ∈ closed ++ [rest] := by
      rw [← hpieces, hsplit]
      exact List.mem_append_right _ List.mem_cons_self
    rcases List.mem_append.mp hmem with hmem | hmem
    · exact .inl (hclosed bad hmem)
    · exact .inr (List.mem_singleton.mp hmem ▸ hrest)
  rw [isFlat_iff_ofText? hshape, not_or, not_exists] at hbad
  have hnone : Aggregate.ofText? (.ofList bad) = none := Option.eq_none_iff_forall_ne_some.mpr hbad.2
  have hblocks : blocks listing = before.map String.ofList ++
      .ofList bad :: (after.filter (!·.isEmpty)).map String.ofList := by
    rw [blocks_eq, hsplit, List.filter_append, filter_of_isClosed hends,
      List.filter_cons_of_pos (by simpa using hbad.1), List.map_append, List.map_cons]
  have hstop (table : TypeTable) (more : List String) : table.addBlocks (.ofList bad :: more) =
      (table, .error (.malformed (definedName (.ofList bad)) (.ofList bad))) := by
    rw [addBlocks, addDefinition_of_none _ hnone]
  rw [addDefinitions, hblocks]
  exact addBlocks_map_append
    (fun piece hpiece => addDefinition_block (hends piece hpiece) (hbefore piece hpiece)) _ (hstop _ _)

/-- A list whose members do not all have a property has a first one without it. -/
theorem exists_first_not {α : Type} {P : α → Prop} [DecidablePred P] {as : List α}
    (h : ¬∀ a ∈ as, P a) :
    ∃ before bad after, as = before ++ bad :: after ∧ (∀ a ∈ before, P a) ∧ ¬P bad := by
  cases hfind : as.find? (¬P ·) with
  | none => exact absurd (by simpa using hfind) h
  | some bad =>
    obtain ⟨hbad, before, after, hsplit, hbefore⟩ := List.find?_eq_some_iff_append.mp hfind
    exact ⟨before, bad, after, hsplit, by simpa using hbefore, by simpa using hbad⟩

end Listing

theorem addDefinitions_eq_ok_iff (table : TypeTable) (listing : String) :
    (∃ names, (table.addDefinitions listing).2 = .ok names) ↔
      ∀ piece ∈ listingPieces listing, IsFlat piece := by
  constructor
  · rintro ⟨names, hnames⟩
    by_contra h
    obtain ⟨before, bad, after, hsplit, hbefore, hbad⟩ := exists_first_not h
    rw [addDefinitions_of_not_isFlat hsplit hbefore hbad] at hnames
    cases hnames
  · intro h
    exact ⟨_, congrArg Prod.snd (addDefinitions_of_isFlat h table)⟩

/-- The name of a block is a word, and so the block is found under it. -/
theorem get?_insertAll_blockEntry (table : TypeTable) (applied : List (List Char)) (key : String) :
    (table.insertAll (applied.map blockEntry)).get? key =
      ((applied.map blockEntry).reverse.lookup (bareName key)).or (table.get? key) := by
  have hbare (block : List Char) :
      (bareName (blockEntry block).1, (blockEntry block).2) = blockEntry block := by
    have hname : (blockEntry block).1 = definedName (.ofList block) := by
      rw [definedName, String.toList_ofList, blockEntry]
    rw [hname, bareName_definedName, ← hname]
  rw [get?_insertAll, List.map_map]
  congr 4
  exact funext hbare

/-- A listing is cut after each closing brace. It is accepted if each block has one pair of braces and
nothing but separators stand behind the last one; then every block is defined in its turn under the
last word in front of its opening brace. Otherwise the first piece that is not flat is malformed, and
the blocks in front of it stay defined. In both cases the last of these blocks that has a name is found
under it, and what the table held under the other names. -/
theorem addDefinitions_exact (table : TypeTable) (listing : String) :
    let pieces := listingPieces listing
    ((∃ names, (table.addDefinitions listing).2 = .ok names) ↔ ∀ piece ∈ pieces, IsFlat piece) ∧
    ((∀ piece ∈ pieces, IsFlat piece) → table.addDefinitions listing =
      (table.insertAll (pieces.dropLast.map blockEntry),
        .ok ((pieces.dropLast.map blockEntry).map Prod.fst)) ∧
      ∀ key, (table.addDefinitions listing).1.get? key =
        ((pieces.dropLast.map blockEntry).reverse.lookup (bareName key)).or (table.get? key)) ∧
    ∀ before bad after, pieces = before ++ bad :: after → (∀ piece ∈ before, IsFlat piece) →
      ¬IsFlat bad → table.addDefinitions listing = (table.insertAll (before.map blockEntry),
        .error (.malformed (definedName (.ofList bad)) (.ofList bad))) ∧
      ∀ key, (table.addDefinitions listing).1.get? key =
        ((before.map blockEntry).reverse.lookup (bareName key)).or (table.get? key) := by
  intro pieces
  refine ⟨addDefinitions_eq_ok_iff table listing, ?_, ?_⟩
  · intro h
    have hadded := addDefinitions_of_isFlat h table
    refine ⟨hadded, fun key => ?_⟩
    rw [hadded, get?_insertAll_blockEntry]
  · intro before bad after hsplit hbefore hbad
    have hadded := addDefinitions_of_not_isFlat hsplit hbefore hbad table
    refine ⟨hadded, fun key => ?_⟩
    rw [hadded, get?_insertAll_blockEntry]

/-- A block without a name, a name that is defined twice, more separators than blocks, and a block in a
block. -/
theorem addDefinitions_exact_nested :
    let listing := " a \x7bint x;\x7d;\n;\x7b int y \x7d struct a\x7bchar z\x7d"
    let entries := [("a", ⟨["int x"]⟩), ("", ⟨["int y"]⟩), ("a", ⟨["char z"]⟩)]
    (empty.addDefinitions listing = (empty.insertAll entries, .ok ["a", "", "a"]) ∧
      (empty.addDefinitions listing).1.get? "struct a" = some ⟨["char z"]⟩ ∧
      (empty.addDefinitions listing).1.get? "" = some ⟨["int y"]⟩ ∧
      (empty.addDefinitions listing).1.get? "b" = none) ∧
    empty.addDefinitions (listing ++ "b \x7b\x7b\x7d\x7d") =
      (empty.insertAll entries, .error (.malformed "b" "b \x7b\x7b\x7d")) ∧
    (empty.addDefinitions (listing ++ "b \x7b\x7b\x7d\x7d")).1.get? "a" = some ⟨["char z"]⟩ := by
  intro listing entries
  constructor
  · obtain ⟨-, hok, -⟩ := addDefinitions_exact empty listing
    have hflat : ∀ piece ∈ listingPieces listing, IsFlat piece := by decide +kernel
    obtain ⟨hadded, hget⟩ := hok hflat
    have hentries : (listingPieces listing).dropLast.map blockEntry = entries := by decide +kernel
    rw [hentries] at hadded hget
    refine ⟨hadded, ?_, ?_, ?_⟩
    · rw [hget]
      decide +kernel
    · rw [hget]
      decide +kernel
    · rw [hget]
      decide +kernel
  · obtain ⟨-, -, herror⟩ := addDefinitions_exact empty (listing ++ "b \x7b\x7b\x7d\x7d")
    let blocks := ["a \x7bint x;\x7d".toList, "\x7b int y \x7d".toList, "struct a\x7bchar z\x7d".toList]
    have hsplit : listingPieces (listing ++ "b \x7b\x7b\x7d\x7d") =
        blocks ++ "b \x7b\x7b\x7d".toList :: ["\x7d".toList, []] := by decide +kernel
    have hflat : ∀ piece ∈ blocks, IsFlat piece := by decide +kernel
    have hentries : blocks.map blockEntry = entries := by decide +kernel
    obtain ⟨hadded, hget⟩ := herror _ _ _ hsplit hflat (by decide +kernel)
    rw [hentries] at hadded hget
    refine ⟨hadded.trans (by decide +kernel), ?_⟩
    rw [hget]
    decide +kernel

end TypeTable

end DecompConfig
