namespace DecompConfig

/-- A finite map from names to values. The entries stand in the order of their names, so that a map is
determined by what its names are bound to. -/
structure NameMap (α : Type) where
  entries : List (String × α)
  sorted : entries.Pairwise fun a b => a.1 < b.1
  deriving DecidableEq

namespace NameMap

variable {α : Type}

/-- Binds a name in an ordered list of entries. -/
def insertEntry (name : String) (value : α) : List (String × α) → List (String × α)
  | [] => [(name, value)]
  | entry :: rest =>
    if name < entry.1 then (name, value) :: entry :: rest
    else if name = entry.1 then (name, value) :: rest
    else entry :: insertEntry name value rest

theorem mem_insertEntry {name : String} {value : α} {entry : String × α} {l : List (String × α)}
    (h : entry ∈ insertEntry name value l) : entry = (name, value) ∨ entry ∈ l := by
  induction l with
  | nil => simpa [insertEntry] using h
  | cons first rest ih =>
    rw [insertEntry] at h
    split at h
    · simpa using h
    · split at h
      · rcases List.mem_cons.mp h with h | h
        · exact .inl h
        · exact .inr (List.mem_cons_of_mem _ h)
      · rcases List.mem_cons.mp h with h | h
        · exact .inr (h ▸ List.mem_cons_self)
        · exact (ih h).imp id (List.mem_cons_of_mem _)

theorem lt_of_not_lt_of_ne {a b : String} (hlt : ¬a < b) (hne : a ≠ b) : b < a :=
  Decidable.byContradiction fun h => hne (String.le_antisymm h hlt)

theorem sorted_insertEntry (name : String) (value : α) {l : List (String × α)}
    (h : l.Pairwise fun a b => a.1 < b.1) :
    (insertEntry name value l).Pairwise fun a b => a.1 < b.1 := by
  induction l with
  | nil => simp [insertEntry]
  | cons first rest ih =>
    obtain ⟨hfirst, hrest⟩ := List.pairwise_cons.mp h
    rw [insertEntry]
    split
    next hlt =>
      refine List.pairwise_cons.mpr ⟨fun entry hentry => ?_, h⟩
      rcases List.mem_cons.mp hentry with rfl | hentry
      · exact hlt
      · exact String.lt_trans hlt (hfirst entry hentry)
    next hlt =>
      split
      next heq =>
        exact List.pairwise_cons.mpr ⟨fun entry hentry => heq ▸ hfirst entry hentry, hrest⟩
      next hne =>
        refine List.pairwise_cons.mpr ⟨fun entry hentry => ?_, ih hrest⟩
        rcases mem_insertEntry hentry with rfl | hentry
        · exact lt_of_not_lt_of_ne hlt hne
        · exact hfirst entry hentry

def empty : NameMap α := ⟨[], .nil⟩

def insert (m : NameMap α) (name : String) (value : α) : NameMap α :=
  ⟨insertEntry name value m.entries, sorted_insertEntry name value m.sorted⟩

def get? (m : NameMap α) (name : String) : Option α := m.entries.lookup name

/-- The bound names in increasing order. -/
def names (m : NameMap α) : List String := m.entries.map Prod.fst

def size (m : NameMap α) : Nat := m.entries.length

/-- Binds the names of a list of entries one after the other, so that the last entry of a name
counts. -/
def insertAll (m : NameMap α) (entries : List (String × α)) : NameMap α :=
  entries.foldl (fun m entry => m.insert entry.1 entry.2) m

/-- Both maps together, where the bindings of `other` win. -/
def merge (m other : NameMap α) : NameMap α := m.insertAll other.entries

@[simp] theorem get?_empty (name : String) : (empty : NameMap α).get? name = none := rfl

theorem lookup_cons (name : String) (entry : String × α) (l : List (String × α)) :
    (entry :: l).lookup name = if name = entry.1 then some entry.2 else l.lookup name := by
  rw [List.lookup_cons]
  by_cases h : name = entry.1
  · simp [h]
  · simp [beq_eq_false_iff_ne.mpr h, h]

theorem get?_insert (m : NameMap α) (name : String) (value : α) (other : String) :
    (m.insert name value).get? other = if other = name then some value else m.get? other := by
  show (insertEntry name value m.entries).lookup other = if _ then _ else m.entries.lookup other
  induction m.entries with
  | nil => simp [insertEntry, lookup_cons]
  | cons first rest ih =>
    rw [insertEntry]
    split
    · rw [lookup_cons]
    · split
      next hname => simp only [lookup_cons, ← hname]; split <;> rfl
      next hname =>
        rw [lookup_cons, ih, lookup_cons]
        by_cases h : other = first.1
        · simp [h, Ne.symm hname]
        · simp [h]

end NameMap

end DecompConfig
