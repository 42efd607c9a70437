import DecompConfig.Json.Reading
import DecompConfig.Proofs.Json.Lexeme

namespace DecompConfig.Json

mutual

/-- The lexemes that a value is written with. -/
def toLexemes : Json → List Lexeme
  | string s => [.string (some s)]
  | array [] => [.openArray, .closeArray]
  | array (j :: js) => .openArray :: (j.toLexemes ++ (itemLexemes js ++ [.closeArray]))
  | object [] => [.openObject, .closeObject]
  | object ((name, j) :: fields) =>
    .openObject :: .string (some name) :: .colon ::
      (j.toLexemes ++ (fieldLexemes fields ++ [.closeObject]))
  | unreadable => [.string none]
  | j => [.scalar j]

def itemLexemes : List Json → List Lexeme
  | [] => []
  | j :: js => .comma :: (j.toLexemes ++ itemLexemes js)

def fieldLexemes : List (String × Json) → List Lexeme
  | [] => []
  | (name, j) :: fields =>
    .comma :: .string (some name) :: .colon :: (j.toLexemes ++ fieldLexemes fields)

end

mutual

/-- How many containers stand inside one another. -/
def nesting : Json → Nat
  | array items => itemNesting items + 1
  | object fields => fieldNesting fields + 1
  | _ => 0

def itemNesting : List Json → Nat
  | [] => 0
  | j :: js => max j.nesting (itemNesting js)

def fieldNesting : List (String × Json) → Nat
  | [] => 0
  | (_, j) :: fields => max j.nesting (fieldNesting fields)

end

theorem itemNesting_le {items : List Json} {n : Nat} :
    itemNesting items ≤ n ↔ ∀ j ∈ items, j.nesting ≤ n := by
  induction items with
  | nil => simp [itemNesting]
  | cons j js ih => rw [itemNesting, Nat.max_le, List.forall_mem_cons, ih]

theorem fieldNesting_le {fields : List (String × Json)} {n : Nat} :
    fieldNesting fields ≤ n ↔ ∀ field ∈ fields, field.2.nesting ≤ n := by
  induction fields with
  | nil => simp [fieldNesting]
  | cons field fields ih => rw [fieldNesting, Nat.max_le, List.forall_mem_cons, ih]

section Lexemes

/-- Up to the end of a number, a text is cut into known lexemes whatever follows it. -/
def Spells (s : List Char) (xs : List Lexeme) : Prop :=
  ∀ rest, Ends rest → lexemes? (s ++ rest) = (lexemes? rest).map (xs ++ ·)

variable {s t : List Char} {xs ys : List Lexeme} {x : Lexeme} {c : Char}

theorem Ends.append (hs : Ends s) (ht : Ends t) : Ends (s ++ t) := by
  cases s with
  | nil => exact ht
  | cons c s => exact hs

theorem Ends.blank (h : ∀ c ∈ s, isSpace c = true) : Ends s := by
  intro c hc
  have hspace := h c (List.mem_of_mem_head? hc)
  simp only [isSpace, Bool.or_eq_true, beq_iff_eq] at hspace
  obtain ((rfl | rfl) | rfl) | rfl := hspace <;> decide

namespace Spells

theorem append (hs : Spells s xs) (ht : Spells t ys) (hends : Ends t) :
    Spells (s ++ t) (xs ++ ys) := by
  intro rest hrest
  rw [List.append_assoc, hs _ (hends.append hrest), ht rest hrest, Option.map_map]
  congr 1
  funext zs
  rw [List.append_assoc]
  rfl

theorem blank (hs : ∀ c ∈ s, isSpace c = true) (ht : Spells t ys) : Spells (s ++ t) ys := by
  intro rest hrest
  rw [List.append_assoc, lexemes?_spaces hs, ht rest hrest]

/-- A mark of one character ends whatever follows it. -/
theorem mark (hx : ∀ rest, Lexeme.first? (c :: rest) = some (x, rest)) (hc : isSpace c = false)
    (ht : Spells t ys) : Spells (c :: t) (x :: ys) := by
  intro rest hrest
  rw [List.cons_append, lexemes?_of_first? (hx (t ++ rest)) hc, ht rest hrest, Option.map_map]
  rfl

theorem nil : Spells [] [] := by
  intro rest _
  rw [List.nil_append]
  cases lexemes? rest <;> rfl

theorem of_first? (hx : ∀ rest, Ends rest → Lexeme.first? (c :: s ++ rest) = some (x, rest))
    (hc : isSpace c = false) : Spells (c :: s) [x] := by
  intro rest hrest
  exact lexemes?_of_first? (hx rest hrest) hc

theorem of_number? {j : Json} (hne : ∃ c cs, s = c :: cs ∧ (c = '-' ∨ c.isDigit = true))
    (hj : ∀ rest, Ends rest → number? (s ++ rest) = some (j, rest)) : Spells s [.scalar j] := by
  obtain ⟨c, s, rfl, hc⟩ := hne
  refine of_first? (fun rest hrest => first?_of_number? (hj rest hrest)) ?_
  obtain rfl | hc := hc
  · rfl
  · exact not_isSpace_of_isDigit hc

end Spells

theorem spells_string (s : String) : Spells (writeString s) [.string (some s)] := by
  have hfirst : ∀ rest, Lexeme.first? (writeString s ++ rest) = some (.string (some s), rest) := by
    intro rest
    have hunits := stringUnits?_flatMap_escapeChar s.toList rest
    have hdecode := decodeUnits?_map_toNat s.toList
    simp only [writeString, List.cons_append, List.append_assoc, List.nil_append, Lexeme.first?,
      hunits, Option.bind_eq_bind, Option.bind_some, hdecode, Option.map_some, String.ofList_toList]
    rfl
  exact Spells.of_first? (fun rest _ => hfirst rest) rfl

theorem spells_decimal (m e : Int) :
    Spells (Text.decimal m ++ 'e' :: Text.decimal e) [.scalar (decimal m e)] := by
  obtain ⟨c, cs, heq, hc⟩ := exists_decimal_eq_cons m
  refine Spells.of_number? ⟨c, cs ++ 'e' :: Text.decimal e, by rw [heq]; rfl, hc⟩ ?_
  intro rest hrest
  rw [List.append_assoc]
  exact number?_decimal m e hrest

theorem spells_unreadable (l : Layout) (depth : Nat) :
    Spells (unreadable.write l depth) [.string none] := by
  have hunit : codeUnit? 'd' '8' '0' '0' = some 0xd800 := by decide
  have hdecode : decodeUnits? [0xd800] = none := by decide
  have hfirst : ∀ rest, Lexeme.first? ('"' :: ['\\', 'u', 'd', '8', '0', '0', '"'] ++ rest) =
      some (.string none, rest) := by
    intro rest
    simp only [List.cons_append, List.nil_append, Lexeme.first?, stringUnits?, hunit,
      Option.bind_eq_bind, Option.bind_some, Option.pure_def, hdecode, Option.map_none]
  exact Spells.of_first? (fun rest _ => hfirst rest) rfl

/-- The layout adds only blanks, before the entries of a container and after the colons. -/
structure Layout.Spaced (l : Layout) : Prop where
  breakLine : ∀ depth, ∀ c ∈ l.breakLine depth, isSpace c = true
  colon : ∃ gap, l.colon = ':' :: gap ∧ ∀ c ∈ gap, isSpace c = true

theorem Layout.spaced_compact : Layout.compact.Spaced where
  breakLine := by simp [compact]
  colon := ⟨[], rfl, by simp⟩

theorem Layout.spaced_pretty : Layout.pretty.Spaced where
  breakLine := by
    intro depth c hc
    obtain rfl | hc := List.mem_cons.mp hc
    · rfl
    · rw [List.eq_of_mem_replicate hc]
      rfl
  colon := ⟨[' '], rfl, by simp [isSpace]⟩

variable {l : Layout}

theorem ends_cons (h : c.isDigit = false ∧ c ≠ '.' ∧ c ≠ 'e' ∧ c ≠ 'E') : Ends (c :: s) := by
  intro d hd
  obtain rfl := Option.some.inj hd
  exact h

theorem ends_writeItems (depth : Nat) (js : List Json) : Ends (writeItems l depth js) := by
  cases js with
  | nil => exact fun _ h => nomatch h
  | cons j js =>
    rw [writeItems, List.cons_append, List.cons_append]
    exact ends_cons (by decide)

theorem ends_writeFields (depth : Nat) (fields : List (String × Json)) :
    Ends (writeFields l depth fields) := by
  cases fields with
  | nil => exact fun _ h => nomatch h
  | cons field fields =>
    simp only [writeFields, List.cons_append]
    exact ends_cons (by decide)

theorem ends_breakLine_append (hl : l.Spaced) (depth : Nat) (hs : Ends s) :
    Ends (l.breakLine depth ++ s) :=
  (Ends.blank (hl.breakLine depth)).append hs

/-- The end of a container, on a line of its own. -/
theorem spells_end (hl : l.Spaced) (depth : Nat) (hends : Ends [c]) (hc : isSpace c = false)
    (hx : ∀ rest, Lexeme.first? (c :: rest) = some (x, rest)) (hs : Spells s xs) :
    Spells (s ++ (l.breakLine depth ++ [c])) (xs ++ [x]) :=
  hs.append (.blank (hl.breakLine depth) (.mark hx hc .nil)) (ends_breakLine_append hl depth hends)

theorem spells_field (hl : l.Spaced) (name : String) (ht : Spells t ys) :
    Spells (writeString name ++ (l.colon ++ t)) (.string (some name) :: .colon :: ys) := by
  obtain ⟨gap, hcolon, hgap⟩ := hl.colon
  rw [hcolon, List.cons_append]
  have hvalue : Spells (':' :: (gap ++ t)) (.colon :: ys) :=
    .mark (fun _ => rfl) rfl (.blank hgap ht)
  exact (spells_string name).append hvalue (ends_cons (by decide))

mutual

/-- The text of a value, in any layout, is cut into the lexemes it was written with. -/
theorem spells_write (hl : l.Spaced) (depth : Nat) :
    ∀ j : Json, Spells (j.write l depth) j.toLexemes
  | null => .of_first? (fun _ _ => rfl) rfl
  | bool true => .of_first? (fun _ _ => rfl) rfl
  | bool false => .of_first? (fun _ _ => rfl) rfl
  | integer n => .of_number? (exists_decimal_eq_cons n) fun _ => number?_integer n
  | negativeZero => .of_number? ⟨'-', ['0'], rfl, .inl rfl⟩ fun _ => number?_negativeZero
  | decimal m e => spells_decimal m e
  | string s => spells_string s
  | unreadable => spells_unreadable l depth
  | array [] => .mark (fun _ => rfl) rfl (.mark (fun _ => rfl) rfl .nil)
  | array (j :: js) => by
    -- Each item may be a number, which goes on unless what follows ends it.
    have hends : Ends [']'] := ends_cons (by decide)
    have hrest := spells_end hl depth hends rfl (fun _ => rfl) (spells_writeItems hl (depth + 1) js)
    have hitems := (spells_write hl (depth + 1) j).append hrest
      ((ends_writeItems (depth + 1) js).append (ends_breakLine_append hl depth hends))
    simp only [write, toLexemes, List.cons_append, List.append_assoc]
    exact .mark (fun _ => rfl) rfl (.blank (hl.breakLine (depth + 1)) hitems)
  | object [] => .mark (fun _ => rfl) rfl (.mark (fun _ => rfl) rfl .nil)
  | object ((name, j) :: fields) => by
    have hends : Ends ['}'] := ends_cons (by decide)
    have hrest :=
      spells_end hl depth hends rfl (fun _ => rfl) (spells_writeFields hl (depth + 1) fields)
    have hfields := (spells_write hl (depth + 1) j).append hrest
      ((ends_writeFields (depth + 1) fields).append (ends_breakLine_append hl depth hends))
    simp only [write, toLexemes, List.cons_append, List.append_assoc]
    exact .mark (fun _ => rfl) rfl
      (.blank (hl.breakLine (depth + 1)) (spells_field hl name hfields))

theorem spells_writeItems (hl : l.Spaced) (depth : Nat) :
    ∀ js : List Json, Spells (writeItems l depth js) (itemLexemes js)
  | [] => .nil
  | j :: js => by
    have hitems := (spells_write hl depth j).append (spells_writeItems hl depth js)
      (ends_writeItems depth js)
    simp only [writeItems, itemLexemes, List.cons_append, List.append_assoc]
    exact .mark (fun _ => rfl) rfl (.blank (hl.breakLine depth) hitems)

theorem spells_writeFields (hl : l.Spaced) (depth : Nat) :
    ∀ fields : List (String × Json), Spells (writeFields l depth fields) (fieldLexemes fields)
  | [] => .nil
  | (name, j) :: fields => by
    have hfields := (spells_write hl depth j).append (spells_writeFields hl depth fields)
      (ends_writeFields depth fields)
    simp only [writeFields, fieldLexemes, List.cons_append, List.append_assoc]
    exact .mark (fun _ => rfl) rfl (.blank (hl.breakLine depth) (spells_field hl name hfields))

end

theorem lexemes?_write (hl : l.Spaced) (depth : Nat) (j : Json) :
    lexemes? (j.write l depth) = some j.toLexemes := by
  have hspells := spells_write hl depth j [] fun _ h => nomatch h
  rw [List.append_nil, lexemes?_nil, Option.map_some, List.append_nil] at hspells
  exact hspells

end Lexemes

section Values

/-- A field as the reader keeps it in a container that is open. -/
def openField (field : String × Json) : Option String × Json := (some field.1, field.2)

theorem mapM_openField {close : Option String × Json → Option (String × Json)}
    (h : ∀ field, close (openField field) = some field) (fields : List (String × Json)) :
    (fields.map openField).mapM close = some fields := by
  induction fields with
  | nil => rfl
  | cons field fields ih =>
    rw [List.map_cons, List.mapM_cons, h, ih]
    rfl

theorem toJson_map_openField (fields : List (String × Json)) :
    (Entries.object (fields.map openField)).toJson = object fields.reverse := by
  rw [Entries.toJson, mapM_openField fun _ => rfl]

theorem close_of_fits (entries : Entries) (stack : List Frame) (h : stack.length < maxNesting) :
    Reader.close entries stack = Reader.put entries.toJson stack := by
  rw [Reader.close_eq, if_pos h]

/-- A value may stand first in an array wherever it may stand further back. -/
theorem foldlM_toLexemes_opened (j : Json) (stack : List Frame) :
    j.toLexemes.foldlM Reader.step (.opened (.array []) stack) =
      j.toLexemes.foldlM Reader.step (.value (.item [] :: stack)) := by
  unfold toLexemes
  split <;> rfl

mutual

/-- The reader takes the lexemes of a value that can be held for this value. -/
theorem foldlM_toLexemes : ∀ (j : Json) (stack : List Frame),
    stack.length + j.nesting ≤ maxNesting →
      j.toLexemes.foldlM Reader.step (.value stack) = some (.put j stack)
  | null, _, _ | bool _, _, _ | integer _, _, _ | negativeZero, _, _ | decimal _ _, _, _
  | string _, _, _ | unreadable, _, _ => rfl
  | array [], stack, h => by
    have hfits : stack.length < maxNesting := by
      rw [nesting] at h
      omega
    exact congrArg some (close_of_fits (.array []) stack hfits)
  | array (j :: js), stack, h => by
    simp only [nesting, itemNesting] at h
    -- The reader holds the items with the last one first.
    have hfirst := foldlM_toLexemes j (.item [] :: stack) (by rw [List.length_cons]; omega)
    have hitems := foldlM_itemLexemes js [j] stack (by omega)
    have hclose := close_of_fits (.array (js.reverse ++ [j])) stack (by omega)
    rw [toLexemes, List.foldlM_cons]
    show List.foldlM Reader.step (.opened (.array []) stack) _ = _
    rw [List.foldlM_append, foldlM_toLexemes_opened, hfirst]
    show List.foldlM Reader.step (.entry (.array [j]) stack) _ = _
    rw [List.foldlM_append, hitems]
    show some (Reader.close (.array (js.reverse ++ [j])) stack) = _
    rw [hclose, Entries.toJson, List.reverse_append, List.reverse_reverse]
    rfl
  | object [], stack, h => by
    have hfits : stack.length < maxNesting := by
      rw [nesting] at h
      omega
    exact congrArg some (close_of_fits (.object []) stack hfits)
  | object ((name, j) :: fields), stack, h => by
    simp only [nesting, fieldNesting] at h
    have hfirst := foldlM_toLexemes j (.field [] (some name) :: stack)
      (by rw [List.length_cons]; omega)
    have hfields := foldlM_fieldLexemes fields [(name, j)] stack (by omega)
    have hclose := close_of_fits (.object ((fields.reverse ++ [(name, j)]).map openField)) stack
      (by omega)
    rw [toLexemes, List.foldlM_cons]
    show List.foldlM Reader.step (.value (.field [] (some name) :: stack)) _ = _
    rw [List.foldlM_append, hfirst]
    show List.foldlM Reader.step (.entry (.object ([(name, j)].map openField)) stack) _ = _
    rw [List.foldlM_append, hfields]
    show some (Reader.close (.object ((fields.reverse ++ [(name, j)]).map openField)) stack) = _
    rw [hclose, toJson_map_openField, List.reverse_append, List.reverse_reverse]
    rfl

theorem foldlM_itemLexemes : ∀ (js items : List Json) (stack : List Frame),
    stack.length + itemNesting js + 1 ≤ maxNesting →
      (itemLexemes js).foldlM Reader.step (.entry (.array items) stack) =
        some (.entry (.array (js.reverse ++ items)) stack)
  | [], _, _, _ => rfl
  | j :: js, items, stack, h => by
    rw [itemNesting] at h
    have hfirst := foldlM_toLexemes j (.item items :: stack) (by rw [List.length_cons]; omega)
    have hitems := foldlM_itemLexemes js (j :: items) stack (by omega)
    rw [itemLexemes, List.foldlM_cons]
    show List.foldlM Reader.step (.value (.item items :: stack)) _ = _
    rw [List.foldlM_append, hfirst]
    show List.foldlM Reader.step (.entry (.array (j :: items)) stack) _ = _
    rw [hitems, List.reverse_cons, List.append_assoc]
    rfl

theorem foldlM_fieldLexemes : ∀ (fields before : List (String × Json)) (stack : List Frame),
    stack.length + fieldNesting fields + 1 ≤ maxNesting →
      (fieldLexemes fields).foldlM Reader.step (.entry (.object (before.map openField)) stack) =
        some (.entry (.object ((fields.reverse ++ before).map openField)) stack)
  | [], _, _, _ => rfl
  | (name, j) :: fields, before, stack, h => by
    rw [fieldNesting] at h
    have hfirst := foldlM_toLexemes j (.field (before.map openField) (some name) :: stack)
      (by rw [List.length_cons]; omega)
    have hfields := foldlM_fieldLexemes fields ((name, j) :: before) stack (by omega)
    rw [fieldLexemes, List.foldlM_cons]
    show List.foldlM Reader.step
      (.value (.field (before.map openField) (some name) :: stack)) _ = _
    rw [List.foldlM_append, hfirst]
    show List.foldlM Reader.step (.entry (.object (((name, j) :: before).map openField)) stack) _ = _
    rw [hfields, List.reverse_cons, List.append_assoc]
    rfl

end

theorem ofLexemes?_toLexemes {j : Json} (h : j.nesting ≤ maxNesting) :
    ofLexemes? j.toLexemes = some j := by
  have hfold := foldlM_toLexemes j [] (by simpa using h)
  rw [ofLexemes?, hfold]
  rfl

end Values

/-- A value that can be held is read back from its text, in any layout. -/
theorem parse?_write {l : Layout} (hl : l.Spaced) {j : Json} (h : j.nesting ≤ maxNesting) :
    parse? (.ofList (j.write l 0)) = some j := by
  have hlexemes := lexemes?_write hl 0 j
  rw [parse?, String.toList_ofList, hlexemes]
  exact ofLexemes?_toLexemes h

end DecompConfig.Json
