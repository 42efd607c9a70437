import DecompConfig.Proofs.Json.Spelling

/-!
What a reader has read can be told from where it stands. Main statement: a value that can be held is
read from the lexemes it is written with, and from no others.
-/

namespace DecompConfig.Json

/-- What has been read of an array up to the place of a further item. The last item stands first. -/
def itemsBefore : List Json → List Lexeme
  | [] => [.openArray]
  | j :: items => itemsBefore items ++ (j.toLexemes ++ [.comma])

/-- What has been read of an object up to the place of a further field. The last field stands first. -/
def fieldsBefore : List (Option String × Json) → List Lexeme
  | [] => [.openObject]
  | (name, j) :: fields => fieldsBefore fields ++ .string name :: .colon :: (j.toLexemes ++ [.comma])

namespace Entries

/-- What has been read of a container up to the end of its last entry. -/
def read : Entries → List Lexeme
  | array [] => [.openArray]
  | array (j :: items) => itemsBefore items ++ j.toLexemes
  | object [] => [.openObject]
  | object ((name, j) :: fields) => fieldsBefore fields ++ .string name :: .colon :: j.toLexemes

/-- The mark that ends a container. -/
def mark : Entries → Lexeme
  | array _ => .closeArray
  | object _ => .closeObject

/-- Every entry can be held. -/
def Held : Entries → Prop
  | array items => ∀ j ∈ items, j.isReadable = true
  | object fields => ∀ field ∈ fields, field.1.isSome = true ∧ field.2.isReadable = true

def IsEmpty : Entries → Prop
  | array items => items = []
  | object fields => fields = []

end Entries

namespace Frame

def read : Frame → List Lexeme
  | item items => itemsBefore items
  | field fields name => fieldsBefore fields ++ [.string name, .colon]

def Held : Frame → Prop
  | item items => (Entries.array items).Held
  | field fields name => (Entries.object fields).Held ∧ name.isSome = true

/-- What has been read of the containers around a value. -/
def readAll : List Frame → List Lexeme
  | [] => []
  | frame :: stack => readAll stack ++ frame.read

end Frame

namespace Reader

/-- The lexemes that have been read. -/
def read : Reader → List Lexeme
  | value stack => Frame.readAll stack
  | opened entries stack | entry entries stack => Frame.readAll stack ++ entries.read
  | further fields stack => Frame.readAll stack ++ fieldsBefore fields
  | colon fields name stack => Frame.readAll stack ++ (fieldsBefore fields ++ [.string name])
  | done j => j.toLexemes

/-- Everything that has been read can be held. -/
def Held : Reader → Prop
  | value stack => ∀ frame ∈ stack, frame.Held
  | opened entries stack | entry entries stack => entries.Held ∧ ∀ frame ∈ stack, frame.Held
  | further fields stack => (Entries.object fields).Held ∧ ∀ frame ∈ stack, frame.Held
  | colon fields name stack =>
    (Entries.object fields).Held ∧ name.isSome = true ∧ ∀ frame ∈ stack, frame.Held
  | done j => j.isReadable = true

/-- A container that has just been opened is empty, and one with an entry is not. -/
def Proper : Reader → Prop
  | opened entries _ => entries.IsEmpty
  | entry entries _ => ¬entries.IsEmpty
  | _ => True

end Reader

theorem areReadable_iff {items : List Json} :
    areReadable items = true ↔ ∀ j ∈ items, j.isReadable = true := by
  induction items with
  | nil => simp [areReadable]
  | cons j items ih => rw [areReadable, Bool.and_eq_true, ih, List.forall_mem_cons]

theorem fieldsAreReadable_iff {fields : List (String × Json)} :
    fieldsAreReadable fields = true ↔ ∀ field ∈ fields, field.2.isReadable = true := by
  induction fields with
  | nil => simp [fieldsAreReadable]
  | cons field fields ih => rw [fieldsAreReadable, Bool.and_eq_true, ih, List.forall_mem_cons]

section Containers

/-- The items of an array that are still to be read follow those in front of them. -/
theorem itemsBefore_append (items : List Json) (j : Json) (js : List Json) :
    itemsBefore items ++ (j.toLexemes ++ (itemLexemes js ++ [.closeArray])) =
      (array (items.reverse ++ j :: js)).toLexemes := by
  induction items generalizing j js with
  | nil => rfl
  | cons i items ih =>
    have hitems := ih i (j :: js)
    simp only [itemsBefore, itemLexemes, List.reverse_cons, List.append_assoc, List.cons_append,
      List.nil_append] at hitems ⊢
    exact hitems

theorem fieldsBefore_append (fields : List (String × Json)) (name : String) (j : Json)
    (rest : List (String × Json)) :
    fieldsBefore (fields.map openField) ++
        .string (some name) :: .colon :: (j.toLexemes ++ (fieldLexemes rest ++ [.closeObject])) =
      (object (fields.reverse ++ (name, j) :: rest)).toLexemes := by
  induction fields generalizing name j rest with
  | nil => rfl
  | cons field fields ih =>
    have hfields := ih field.1 field.2 ((name, j) :: rest)
    simp only [List.map_cons, openField, fieldsBefore, fieldLexemes, List.reverse_cons,
      List.append_assoc, List.cons_append, List.nil_append] at hfields ⊢
    exact hfields

/-- Where every value is read from one source only, a list is read from the list of the sources. -/
theorem mapM_eq_some_iff_eq_map {α β : Type} {read : α → Option β} {write : β → α}
    (h : ∀ a b, read a = some b ↔ a = write b) {l : List α} {l' : List β} :
    l.mapM read = some l' ↔ l = l'.map write := by
  induction l generalizing l' with
  | nil => cases l' <;> simp
  | cons a l ih =>
    rw [List.mapM_cons]
    cases l' with
    | nil => simp [Option.bind_eq_some_iff]
    | cons b l' => simp [h, ih, Option.bind_eq_some_iff]

theorem closeField_eq_some_iff (field : Option String × Json) (closed : String × Json) :
    field.1.map (·, field.2) = some closed ↔ field = openField closed := by
  obtain ⟨name, j⟩ := field
  rw [Option.map_eq_some_iff, openField]
  constructor
  · rintro ⟨name, rfl, rfl⟩
    rfl
  · rintro h
    obtain ⟨rfl, rfl⟩ := Prod.mk.inj h
    exact ⟨closed.1, rfl, rfl⟩

/-- An object that can be held has names for all its fields. -/
theorem exists_eq_map_openField {fields : List (Option String × Json)}
    (h : (Entries.object fields).toJson.isReadable = true) :
    ∃ closed : List (String × Json), fields = closed.map openField := by
  rw [Entries.toJson] at h
  split at h
  next closed hclosed => exact ⟨closed, (mapM_eq_some_iff_eq_map closeField_eq_some_iff).mp hclosed⟩
  next => cases h

/-- A container whose value can be held was read as its value is written. -/
theorem Entries.read_append_mark {entries : Entries} (h : entries.toJson.isReadable = true) :
    entries.Held ∧ entries.read ++ [entries.mark] = entries.toJson.toLexemes := by
  cases entries with
  | array items =>
    have hheld : ∀ j ∈ items, j.isReadable = true := fun j hj =>
      areReadable_iff.mp h j (List.mem_reverse.mpr hj)
    refine ⟨hheld, ?_⟩
    cases items with
    | nil => rfl
    | cons j items =>
      have hwritten := itemsBefore_append items j []
      rw [itemLexemes, List.nil_append] at hwritten
      rw [read, mark, toJson, List.reverse_cons, ← hwritten, List.append_assoc]
  | object fields =>
    obtain ⟨closed, rfl⟩ := exists_eq_map_openField h
    rw [toJson_map_openField] at h ⊢
    refine ⟨?_, ?_⟩
    · intro opened hopened
      obtain ⟨field, hfield, rfl⟩ := List.mem_map.mp hopened
      exact ⟨rfl, fieldsAreReadable_iff.mp h field (List.mem_reverse.mpr hfield)⟩
    · cases closed with
      | nil => rfl
      | cons field closed =>
        have hwritten := fieldsBefore_append closed field.1 field.2 []
        rw [fieldLexemes, List.nil_append] at hwritten
        rw [List.reverse_cons, ← hwritten, List.map_cons, openField, read, mark, List.append_assoc]
        rfl

end Containers

namespace Reader

variable {r r' : Reader} {x : Lexeme} {stack : List Frame} {j : Json} {entries : Entries}

theorem proper_put : (put j stack).Proper := by
  match stack with
  | [] => trivial
  | .item _ :: _ | .field _ _ :: _ => exact List.cons_ne_nil _ _

theorem held_put (h : (put j stack).Held) :
    j.isReadable = true ∧ ∀ frame ∈ stack, frame.Held := by
  match stack with
  | [] => exact ⟨h, by simp⟩
  | .item items :: stack =>
    obtain ⟨hitems, hstack⟩ := h
    obtain ⟨hj, hitems⟩ := List.forall_mem_cons.mp hitems
    exact ⟨hj, List.forall_mem_cons.mpr ⟨hitems, hstack⟩⟩
  | .field fields name :: stack =>
    obtain ⟨hfields, hstack⟩ := h
    obtain ⟨hj, hfields⟩ := List.forall_mem_cons.mp hfields
    exact ⟨hj.2, List.forall_mem_cons.mpr ⟨⟨hfields, hj.1⟩, hstack⟩⟩

theorem read_put : (put j stack).read = Frame.readAll stack ++ j.toLexemes := by
  match stack with
  | [] => rfl
  | .item items :: stack =>
    simp only [put, read, Entries.read, Frame.readAll, Frame.read, List.append_assoc]
  | .field fields name :: stack =>
    simp only [put, read, Entries.read, Frame.readAll, Frame.read, List.append_assoc, List.cons_append,
      List.nil_append]

theorem proper_start (h : start stack x = some r) : r.Proper := by
  unfold start at h
  split at h
  case h_5 => cases h
  all_goals obtain rfl := Option.some.inj h
  · exact proper_put
  · exact proper_put
  · rfl
  · rfl

/-- A value that begins can be held only inside containers that can. -/
theorem read_start (hx : x.IsAtom) (h : start stack x = some r) (hheld : r.Held) :
    (∀ frame ∈ stack, frame.Held) ∧ r.read = Frame.readAll stack ++ [x] := by
  unfold start at h
  split at h
  case h_5 => cases h
  all_goals obtain rfl := Option.some.inj h
  case h_1 j =>
    rw [read_put, hx]
    exact ⟨(held_put hheld).2, rfl⟩
  case h_2 s =>
    obtain ⟨hs, hstack⟩ := held_put hheld
    cases s with
    | none => cases hs
    | some s =>
      rw [read_put]
      exact ⟨hstack, rfl⟩
  · exact ⟨hheld.2, rfl⟩
  · exact ⟨hheld.2, rfl⟩

theorem read_close (hheld : (close entries stack).Held) :
    entries.Held ∧ (∀ frame ∈ stack, frame.Held) ∧
      (close entries stack).read = Frame.readAll stack ++ (entries.read ++ [entries.mark]) := by
  rw [close_eq] at hheld ⊢
  obtain ⟨hj, hstack⟩ := held_put hheld
  split at hj
  next hfits =>
    obtain ⟨hentries, hread⟩ := Entries.read_append_mark hj
    rw [if_pos hfits, read_put, hread]
    exact ⟨hentries, hstack, rfl⟩
  next => cases hj

theorem proper_step (h : r.step x = some r') : r'.Proper := by
  unfold step at h
  split at h
  case h_1 => exact proper_start h
  case h_3 => exact proper_start h
  case h_12 => cases h
  all_goals
    obtain rfl := Option.some.inj h
    first
    | exact proper_put
    | trivial

/-- One step reads its lexeme, and what can be held after it can be held before it. -/
theorem read_step (hr : r.Proper) (hx : x.IsAtom) (h : r.step x = some r') (hheld : r'.Held) :
    r.Held ∧ r'.read = r.read ++ [x] := by
  unfold step at h
  split at h
  case h_1 => exact read_start hx h hheld
  case h_3 items stack _ =>
    -- The array has just been opened, so that the place of a further item is that of the first.
    obtain rfl : items = [] := hr
    obtain ⟨hstack, hread⟩ := read_start hx h hheld
    exact ⟨⟨by simp [Entries.Held], (List.forall_mem_cons.mp hstack).2⟩, hread⟩
  case h_12 => cases h
  all_goals obtain rfl := Option.some.inj h
  case h_2 | h_4 | h_6 | h_8 =>
    obtain ⟨hentries, hstack, hread⟩ := read_close hheld
    exact ⟨⟨hentries, hstack⟩, by rw [hread, read, List.append_assoc]; rfl⟩
  case h_5 fields stack s =>
    obtain rfl : fields = [] := hr
    exact ⟨⟨hheld.1, hheld.2.2⟩, by simp only [read, Entries.read, fieldsBefore, List.append_assoc]⟩
  case h_7 items stack =>
    obtain ⟨hitems, hstack⟩ := List.forall_mem_cons.mp hheld
    cases items with
    | nil => exact absurd rfl hr
    | cons j items =>
      refine ⟨⟨hitems, hstack⟩, ?_⟩
      simp only [read, Entries.read, Frame.readAll, Frame.read, itemsBefore, List.append_assoc]
  case h_9 fields stack =>
    cases fields with
    | nil => exact absurd rfl hr
    | cons field fields =>
      refine ⟨hheld, ?_⟩
      simp only [read, Entries.read, fieldsBefore, List.append_assoc, List.cons_append]
  case h_10 fields stack s =>
    exact ⟨⟨hheld.1, hheld.2.2⟩, by rw [read, read, List.append_assoc]⟩
  case h_11 fields s stack =>
    obtain ⟨⟨hfields, hs⟩, hstack⟩ := List.forall_mem_cons.mp hheld
    refine ⟨⟨hfields, hs, hstack⟩, ?_⟩
    simp only [read, Frame.readAll, Frame.read, List.append_assoc, List.cons_append, List.nil_append]

theorem read_foldlM {xs : List Lexeme} (hr : r.Proper) (hxs : ∀ x ∈ xs, x.IsAtom)
    (h : xs.foldlM step r = some r') (hheld : r'.Held) : r.Held ∧ r'.read = r.read ++ xs := by
  induction xs generalizing r with
  | nil =>
    cases h
    exact ⟨hheld, (List.append_nil _).symm⟩
  | cons x xs ih =>
    rw [List.foldlM_cons] at h
    obtain ⟨next, hstep, h⟩ := Option.bind_eq_some_iff.mp h
    obtain ⟨hx, hxs⟩ := List.forall_mem_cons.mp hxs
    obtain ⟨hnext, hread⟩ := ih (proper_step hstep) hxs h
    obtain ⟨hr', hread'⟩ := read_step hr hx hstep hnext
    exact ⟨hr', by rw [hread, hread', List.append_assoc, List.singleton_append]⟩

end Reader

/-- A value that can be held is read from no lexemes but those it is written with. -/
theorem eq_toLexemes_of_ofLexemes? {xs : List Lexeme} {j : Json} (hxs : ∀ x ∈ xs, x.IsAtom)
    (h : ofLexemes? xs = some j) (hj : j.isReadable = true) : xs = j.toLexemes := by
  obtain ⟨r, hrun, hresult⟩ := Option.bind_eq_some_iff.mp h
  unfold Reader.result? at hresult
  split at hresult
  next =>
    obtain rfl := Option.some.inj hresult
    exact (Reader.read_foldlM (r := .value []) trivial hxs hrun hj).2.symm
  next => cases hresult

/-- The texts of a value that can be held. -/
theorem parse?_eq_some_iff {text : String} {j : Json} (hj : j.isReadable = true)
    (hnesting : j.nesting ≤ maxNesting) :
    parse? text = some j ↔ lexemes? text.toList = some j.toLexemes := by
  rw [parse?]
  constructor
  · intro h
    obtain ⟨xs, hxs, h⟩ := Option.bind_eq_some_iff.mp h
    rw [hxs, eq_toLexemes_of_ofLexemes? (isAtom_of_lexemes? hxs) h hj]
  · intro h
    rw [h]
    exact ofLexemes?_toLexemes hnesting

end DecompConfig.Json
