import DecompConfig.Proofs.TypeTable.History
import DecompConfig.TypeTable.Builtin
import Mathlib.Data.List.Forall2

namespace DecompConfig

namespace Text

variable {c small capital : Char}

theorem toNat_toLower (c : Char) : c.toLower.toNat =
    if 65 ≤ c.toNat ∧ c.toNat ≤ 90 then c.toNat + 32 else c.toNat := by
  have hrange : (c.val ≥ 'A'.val ∧ c.val ≤ 'Z'.val) ↔ 65 ≤ c.toNat ∧ c.toNat ≤ 90 := by
    simp [UInt32.le_iff_toNat_le]
  delta Char.toLower
  split
  next h =>
    obtain ⟨hge, hle⟩ := hrange.mp h
    have hval : c.val.toNat = c.toNat := rfl
    have hstep : (32 : UInt32).toNat = 32 := rfl
    rw [if_pos ⟨hge, hle⟩]
    show (c.val + 32).toNat = c.toNat + 32
    rw [UInt32.toNat_add, Nat.mod_eq_of_lt (by omega), hval, hstep]
  next h => rw [if_neg (mt hrange.mpr h)]

/-- A letter of the alphabet, small and capital. -/
def IsLetter (small capital : Char) : Prop :=
  65 ≤ capital.toNat ∧ capital.toNat ≤ 90 ∧ small.toNat = capital.toNat + 32

theorem IsLetter.toLower_eq_iff (h : IsLetter small capital) :
    c.toLower = small ↔ c = small ∨ c = capital := by
  obtain ⟨hge, hle, hsmall⟩ := h
  simp only [← Char.toNat_inj, toNat_toLower]
  split <;> omega

theorem map_toLower_eq_iff {s : List Char} {letters : List (Char × Char)}
    (h : ∀ letter ∈ letters, IsLetter letter.1 letter.2) :
    s.map Char.toLower = letters.map Prod.fst ↔
      List.Forall₂ (fun c letter => c = letter.1 ∨ c = letter.2) s letters := by
  induction letters generalizing s with
  | nil => simp
  | cons letter letters ih =>
    obtain ⟨hletter, hletters⟩ := List.forall_mem_cons.mp h
    cases s with
    | nil => simp
    | cons c s =>
      rw [List.map_cons, List.map_cons, List.cons_eq_cons, List.forall₂_cons, ih hletters,
        hletter.toLower_eq_iff]

end Text

namespace TypeTable

open Text

/-- The letters of `posix`, each small or capital. -/
def IsPosixName (set : String) : Prop :=
  List.Forall₂ (fun c letter => c = letter.1 ∨ c = letter.2) set.toList
    [('p', 'P'), ('o', 'O'), ('s', 'S'), ('i', 'I'), ('x', 'X')]

/-- The structures of POSIX are the only builtin set. -/
theorem builtin?_eq_some_iff {set : String} {table : TypeTable} :
    builtin? set = some table ↔ IsPosixName set ∧ table = addPosix .empty := by
  have hletters : ∀ letter ∈ [('p', 'P'), ('o', 'O'), ('s', 'S'), ('i', 'I'), ('x', 'X')],
      IsLetter letter.1 letter.2 := by
    simp only [IsLetter]
    decide
  rw [builtin?, IsPosixName, ← map_toLower_eq_iff hletters]
  show (if set.toList.map Char.toLower = "posix".toList then _ else _) = some table ↔
    set.toList.map Char.toLower = "posix".toList ∧ _
  split <;> simp_all [eq_comm]

theorem builtin?_eq_none_iff {set : String} : builtin? set = none ↔ ¬IsPosixName set := by
  rw [Option.eq_none_iff_forall_ne_some]
  simp [builtin?_eq_some_iff]

theorem get?_addPosix (key : String) :
    (addPosix .empty).aggregates.get? key = posixEntries.lookup key := by
  have hbare : posixEntries.map (fun entry => (bareName entry.1, entry.2)) = posixEntries := by
    decide +kernel
  have hdistinct : posixEntries.Pairwise fun a b => a.1 ≠ b.1 := by decide +kernel
  have hreverse : posixEntries.reverse.Pairwise fun a b => a.1 ≠ b.1 :=
    List.pairwise_reverse.mpr (hdistinct.imp Ne.symm)
  rw [addPosix, insertAll_aggregates, hbare, NameMap.get?_insertAll]
  apply Option.ext
  intro aggregate
  rw [empty, NameMap.get?_empty, Option.or_none, NameMap.lookup_eq_some_iff_mem hreverse,
    NameMap.lookup_eq_some_iff_mem hdistinct, List.mem_reverse]

end TypeTable

end DecompConfig
