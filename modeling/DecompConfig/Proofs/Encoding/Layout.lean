import DecompConfig.Lowering
import Mathlib.Data.List.Basic

namespace DecompConfig.Encoding

/-- Every brace of the text has its partner, and wherever the text is cut, no more than `depth` braces
are open. -/
structure Balanced (depth : Nat) (s : List Char) : Prop where
  closed : s.count '}' = s.count '{'
  within : ∀ p q, s = p ++ q → p.count '}' ≤ p.count '{' ∧ p.count '{' ≤ p.count '}' + depth

namespace Balanced

variable {depth : Nat} {s t : List Char}

theorem of_braceless (depth : Nat) (hopen : '{' ∉ s) (hclose : '}' ∉ s) : Balanced depth s where
  closed := by rw [List.count_eq_zero_of_not_mem hopen, List.count_eq_zero_of_not_mem hclose]
  within := by
    intro p q hcut
    subst hcut
    have hopened : p.count '{' = 0 := List.count_eq_zero_of_not_mem (by simp_all)
    have hclosed : p.count '}' = 0 := List.count_eq_zero_of_not_mem (by simp_all)
    omega

theorem append (hs : Balanced depth s) (ht : Balanced depth t) : Balanced depth (s ++ t) where
  closed := by rw [List.count_append, List.count_append, hs.closed, ht.closed]
  within := by
    intro p q hcut
    rcases List.append_eq_append_iff.mp hcut with ⟨r, rfl, hsecond⟩ | ⟨r, hfirst, -⟩
    · have hopen := ht.within r q hsecond
      have hclosed := hs.closed
      simp only [List.count_append]
      omega
    · exact hs.within p r hfirst

theorem mono {depth' : Nat} (h : Balanced depth s) (hle : depth ≤ depth') : Balanced depth' s where
  closed := h.closed
  within := by
    intro p q hcut
    have hopen := h.within p q hcut
    omega

/-- With a pair of braces around it, one brace more of a text is open. -/
theorem wrap (h : Balanced depth s) : Balanced (depth + 1) ('{' :: (s ++ ['}'])) where
  closed := by simp [h.closed]
  within := by
    intro p q hcut
    cases p with
    | nil => simp
    | cons c p =>
      obtain ⟨rfl, hrest⟩ := List.cons_eq_cons.mp hcut
      have hopened : ('{' :: p).count '{' = p.count '{' + 1 := List.count_cons_self
      have hclosed : ('{' :: p).count '}' = p.count '}' := List.count_cons_of_ne (by decide)
      rcases List.append_eq_append_iff.mp hrest with ⟨r, rfl, hlast⟩ | ⟨r, hinner, -⟩
      · have hall := h.closed
        rcases List.append_eq_singleton_iff.mp hlast.symm with ⟨rfl, -⟩ | ⟨rfl, -⟩
        · simp [hall]
        · simp [hall]
      · have hopen := h.within p r hinner
        omega

end Balanced

/-- The commas of a text that stand outside of its braces, where `level` braces are open in front of
it. -/
def outerCommas : (level : Nat) → List Char → Nat
  | _, [] => 0
  | level, '{' :: s => outerCommas (level + 1) s
  | level, '}' :: s => outerCommas (level - 1) s
  | level, ',' :: s => (if level = 0 then 1 else 0) + outerCommas level s
  | level, _ :: s => outerCommas level s

/-- The `j`-th opening brace, counted from zero, begins a group with `commas` commas of its own. -/
def HasGroup (depth : Nat) (s : List Char) (j commas : Nat) : Prop :=
  ∃ before inner after, s = before ++ '{' :: (inner ++ '}' :: after) ∧ before.count '{' = j ∧
    Balanced depth inner ∧ outerCommas 0 inner = commas

namespace HasGroup

variable {depth j commas : Nat} {s : List Char}

theorem around (h : HasGroup depth s j commas) (before after : List Char) :
    HasGroup depth (before ++ (s ++ after)) (before.count '{' + j) commas := by
  obtain ⟨front, inner, rest, rfl, rfl, hinner, hcommas⟩ := h
  exact ⟨before ++ front, inner, rest ++ after, by simp, by simp, hinner, hcommas⟩

theorem mono {depth' : Nat} (h : HasGroup depth s j commas) (hle : depth ≤ depth') :
    HasGroup depth' s j commas := by
  obtain ⟨before, inner, after, hs, hbefore, hinner, hcommas⟩ := h
  exact ⟨before, inner, after, hs, hbefore, hinner.mono hle, hcommas⟩

end HasGroup

/-- How a text is divided: braces are open at most `depth` deep, `own` commas stand outside of them, and
`groups` tells the number of commas that each group has of its own, in the order of the opening
braces. -/
structure Layout (depth : Nat) (groups : List Nat) (own : Nat) (s : List Char) : Prop where
  balanced : Balanced depth s
  count : s.count '{' = groups.length
  commas : ∀ level rest, outerCommas level (s ++ rest) =
    (if level = 0 then own else 0) + outerCommas level rest
  hasGroup : ∀ j commas, groups[j]? = some commas → HasGroup depth s j commas

namespace Layout

variable {depth own own' : Nat} {groups groups' : List Nat} {s t : List Char}

theorem of_unpunctuated (depth : Nat) (hopen : '{' ∉ s) (hclose : '}' ∉ s) (hcomma : ',' ∉ s) :
    Layout depth [] 0 s where
  balanced := .of_braceless depth hopen hclose
  count := List.count_eq_zero_of_not_mem hopen
  commas := by
    intro level rest
    rw [ite_self, Nat.zero_add]
    induction s with
    | nil => rfl
    | cons c s ih =>
      simp only [List.mem_cons, not_or] at hopen hclose hcomma
      rw [List.cons_append, outerCommas]
      · exact ih hopen.2 hclose.2 hcomma.2
      · exact Ne.symm hopen.1
      · exact Ne.symm hclose.1
      · exact Ne.symm hcomma.1
  hasGroup := by simp

theorem comma (depth : Nat) : Layout depth [] 1 [','] where
  balanced := .of_braceless depth (by decide) (by decide)
  count := rfl
  commas _ _ := rfl
  hasGroup := by simp

theorem append (hs : Layout depth groups own s) (ht : Layout depth groups' own' t) :
    Layout depth (groups ++ groups') (own + own') (s ++ t) where
  balanced := hs.balanced.append ht.balanced
  count := by rw [List.count_append, List.length_append, hs.count, ht.count]
  commas := by
    intro level rest
    rw [List.append_assoc, hs.commas, ht.commas]
    split <;> omega
  hasGroup := by
    intro j commas hj
    rcases Nat.lt_or_ge j groups.length with hlt | hge
    · rw [List.getElem?_append_left hlt] at hj
      simpa using (hs.hasGroup j commas hj).around [] t
    · rw [List.getElem?_append_right hge] at hj
      have h := (ht.hasGroup _ commas hj).around s []
      rw [hs.count, Nat.add_sub_cancel' hge, List.append_nil] at h
      exact h

theorem wrap (h : Layout depth groups own s) :
    Layout (depth + 1) (own :: groups) 0 ('{' :: (s ++ ['}'])) where
  balanced := h.balanced.wrap
  count := by simp [h.count]
  commas := by
    intro level rest
    have hinner := h.commas (level + 1) ('}' :: rest)
    simpa [outerCommas] using hinner
  hasGroup := by
    intro j commas hj
    cases j with
    | zero =>
      obtain rfl : own = commas := by simpa using hj
      have hown := h.commas 0 []
      exact ⟨[], s, [], by simp, rfl, h.balanced.mono (Nat.le_succ depth), by simpa [outerCommas] using hown⟩
    | succ j =>
      have hinner := (h.hasGroup j commas (by simpa using hj)).around ['{'] ['}']
      have hj : ['{'].count '{' + j = j + 1 := Nat.add_comm 1 j
      rw [hj] at hinner
      exact hinner.mono (Nat.le_succ depth)

end Layout

end DecompConfig.Encoding
