import DecompConfig.NameMap
import DecompConfig.Proofs.Text.ByteOrder
import Mathlib.Data.List.Nodup

namespace DecompConfig.NameMap

variable {α : Type}

section Entries

variable {entries : List (String × α)}

/-- Among entries of distinct names a name has the value that stands with it. -/
theorem lookup_eq_some_iff_mem (h : entries.Pairwise fun a b => a.1 ≠ b.1) {name : String} {value : α} :
    entries.lookup name = some value ↔ (name, value) ∈ entries := by
  induction entries with
  | nil => simp
  | cons entry entries ih =>
    obtain ⟨hfirst, hrest⟩ := List.pairwise_cons.mp h
    rw [lookup_cons, List.mem_cons]
    by_cases hname : name = entry.1
    · have hnot : (name, value) ∉ entries := fun hmem => hfirst _ hmem hname.symm
      rw [if_pos hname, Option.some.injEq, or_iff_left hnot, Prod.ext_iff]
      exact ⟨fun heq => ⟨hname, heq.symm⟩, fun heq => heq.2.symm⟩
    · rw [if_neg hname, ih hrest]
      exact (or_iff_right fun heq => hname (congrArg Prod.fst heq)).symm

theorem pairwise_ne_of_sorted (h : entries.Pairwise fun a b => a.1 < b.1) :
    entries.Pairwise fun a b => a.1 ≠ b.1 := by
  apply h.imp
  intro a b hlt heq
  rw [heq] at hlt
  exact String.lt_irrefl _ hlt

end Entries

section Maps

variable (m : NameMap α)

theorem mem_entries_iff {name : String} {value : α} :
    (name, value) ∈ m.entries ↔ m.get? name = some value :=
  (lookup_eq_some_iff_mem (pairwise_ne_of_sorted m.sorted)).symm

theorem mem_names_iff {name : String} : name ∈ m.names ↔ (m.get? name).isSome := by
  rw [names, List.mem_map, Option.isSome_iff_exists]
  constructor
  · intro h
    obtain ⟨entry, hentry, rfl⟩ := h
    exact ⟨entry.2, m.mem_entries_iff.mp hentry⟩
  · intro h
    obtain ⟨value, hvalue⟩ := h
    exact ⟨(name, value), m.mem_entries_iff.mpr hvalue, rfl⟩

theorem mem_names_of_get? {name : String} {value : α} (h : m.get? name = some value) :
    name ∈ m.names :=
  m.mem_names_iff.mpr (Option.isSome_of_eq_some h)

/-- An entry stands between those of lesser and those of greater names. -/
theorem lt_of_entries_eq {before after : List (String × α)} {entry : String × α}
    (h : m.entries = before ++ entry :: after) :
    (∀ other ∈ before, other.1 < entry.1) ∧ ∀ other ∈ after, entry.1 < other.1 := by
  have hsorted := m.sorted
  rw [h, List.pairwise_append, List.pairwise_cons] at hsorted
  exact ⟨fun other hother => hsorted.2.2 other hother entry List.mem_cons_self, hsorted.2.1.1⟩

theorem names_bytes_increasing : (m.names.map Text.utf8).Pairwise (· < ·) := by
  rw [names, List.map_map, List.pairwise_map]
  exact m.sorted.imp fun hlt => Text.utf8_lt_utf8_iff.mpr hlt

/-- Maps are equal if they bind every name to the same value. -/
theorem ext_get? {m m' : NameMap α} (h : ∀ name, m.get? name = m'.get? name) : m = m' := by
  have hmem : ∀ entry, entry ∈ m.entries ↔ entry ∈ m'.entries := fun entry => by
    rw [m.mem_entries_iff, m'.mem_entries_iff, h]
  have hnodup (m : NameMap α) : m.entries.Nodup :=
    (pairwise_ne_of_sorted m.sorted).imp fun hne heq => hne (congrArg Prod.fst heq)
  have hperm := (List.perm_ext_iff_of_nodup (hnodup m) (hnodup m')).mpr hmem
  have hentries : m.entries = m'.entries := by
    apply hperm.eq_of_pairwise ?_ m.sorted m'.sorted
    intro a b _ _ hab hba
    exact absurd (String.lt_trans hab hba) (String.lt_irrefl _)
  cases m
  cases m'
  congr

theorem insertAll_nil : m.insertAll [] = m := rfl

theorem insertAll_cons (entry : String × α) (entries : List (String × α)) :
    m.insertAll (entry :: entries) = (m.insert entry.1 entry.2).insertAll entries := rfl

/-- Of the entries that are bound one after the other the last one of a name counts. -/
theorem get?_insertAll (entries : List (String × α)) (name : String) :
    (m.insertAll entries).get? name = (entries.reverse.lookup name).or (m.get? name) := by
  induction entries generalizing m with
  | nil => rw [insertAll_nil, List.reverse_nil, List.lookup_nil, Option.none_or]
  | cons entry entries ih =>
    rw [insertAll_cons, ih, get?_insert, List.reverse_cons, List.lookup_append, lookup_cons,
      Option.or_assoc]
    congr 1
    by_cases hname : name = entry.1
    · rw [if_pos hname, if_pos hname, Option.some_or]
    · rw [if_neg hname, if_neg hname, List.lookup_nil, Option.none_or]

theorem exists_mem_of_mem_names_insertAll {entries : List (String × α)} {name : String}
    (h : name ∈ (m.insertAll entries).names) :
    (∃ value, (name, value) ∈ entries) ∨ name ∈ m.names := by
  rw [mem_names_iff, get?_insertAll, Option.isSome_or, Bool.or_eq_true, ← mem_names_iff] at h
  refine h.imp_left fun hsome => ?_
  obtain ⟨value, hvalue⟩ := Option.isSome_iff_exists.mp hsome
  obtain ⟨later, earlier, heq, -⟩ := List.lookup_eq_some_iff.mp hvalue
  have hmem : (name, value) ∈ entries.reverse := by simp [heq]
  exact ⟨value, List.mem_reverse.mp hmem⟩

theorem get?_merge (other : NameMap α) (name : String) :
    (m.merge other).get? name = (other.get? name).or (m.get? name) := by
  have hdistinct := pairwise_ne_of_sorted other.sorted
  have hreverse : other.entries.reverse.Pairwise fun a b => a.1 ≠ b.1 :=
    List.pairwise_reverse.mpr (hdistinct.imp Ne.symm)
  have hlookup : other.entries.reverse.lookup name = other.get? name := by
    apply Option.ext
    intro value
    rw [← other.mem_entries_iff, ← List.mem_reverse, ← lookup_eq_some_iff_mem hreverse]
  rw [merge, get?_insertAll, hlookup]

theorem empty_merge : empty.merge m = m :=
  ext_get? fun name => by rw [get?_merge, get?_empty, Option.or_none]

theorem merge_self : m.merge m = m :=
  ext_get? fun name => by rw [get?_merge, Option.or_self]

theorem merge_merge_self (other : NameMap α) : (m.merge other).merge other = m.merge other :=
  ext_get? fun name => by rw [get?_merge, get?_merge, ← Option.or_assoc, Option.or_self]

theorem merge_assoc (other more : NameMap α) :
    (m.merge other).merge more = m.merge (other.merge more) :=
  ext_get? fun name => by rw [get?_merge, get?_merge, get?_merge, get?_merge, Option.or_assoc]

end Maps

end DecompConfig.NameMap
