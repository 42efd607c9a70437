import DecompConfig.Proofs.Token.Reading
import DecompConfig.TypeTable

namespace DecompConfig

open Text

/-- The keyword that may stand in front of the name of an aggregate. -/
def keyword : List Char := Qualifier.struct.word.toList

/-- A text that begins with the keyword as a word of its own, with more behind it. -/
def AfterKeyword (s rest : List Char) : Prop := ∃ c, isBlank c = true ∧ s = keyword ++ c :: rest

/-- A name that still begins with the keyword when one keyword is left out. -/
def RepeatsKeyword (name : String) : Prop :=
  ∃ w more, words name.toList = keyword :: keyword :: w :: more

instance : DecidablePred RepeatsKeyword := fun name =>
  match h : words name.toList with
  | first :: second :: w :: more =>
    decidable_of_iff (first = keyword ∧ second = keyword) (by simp [RepeatsKeyword, h])
  | [] | [_] | [_, _] => .isFalse (by simp [RepeatsKeyword, h])

theorem bareName_cases (name : String) :
    (∃ rest, AfterKeyword (trim name.toList) rest ∧ bareName name = .ofList (trimStart rest)) ∨
    (¬∃ rest, AfterKeyword (trim name.toList) rest) ∧ bareName name = .ofList (trim name.toList) := by
  rw [bareName]
  split
  next c rest heq =>
    by_cases hc : isBlank c = true
    · rw [if_pos hc]
      exact .inl ⟨rest, ⟨c, hc, heq⟩, rfl⟩
    · rw [if_neg hc]
      refine .inr ⟨?_, rfl⟩
      rintro ⟨rest', c', hc', heq'⟩
      rw [heq] at heq'
      obtain ⟨rfl, -⟩ : c = c' ∧ rest = rest' := by simpa [keyword, Qualifier.word] using heq'
      exact hc hc'
  next hnot =>
    refine .inr ⟨?_, rfl⟩
    rintro ⟨rest, c, -, heq⟩
    exact hnot c rest heq

theorem bareName_eq_self {name : String} (h : ∀ c ∈ name.toList, isBlank c = false) :
    bareName name = name := by
  rw [bareName, trim_eq_self h]
  split
  next c rest heq =>
    rw [if_neg (by simp [h c (by simp [heq])]), String.ofList_toList]
  next => exact String.ofList_toList

theorem words_keyword : words keyword = [keyword] := by decide

theorem AfterKeyword.words_eq {s rest : List Char} (h : AfterKeyword s rest) :
    words s = keyword :: words rest := by
  obtain ⟨c, hc, rfl⟩ := h
  rw [words_append_blank hc, words_keyword]
  rfl

theorem exists_afterKeyword {s next : List Char} {more : List (List Char)}
    (hhead : ∀ c ∈ s.head?, isBlank c = false) (h : words s = keyword :: next :: more) :
    ∃ rest, AfterKeyword s rest := by
  obtain ⟨c, rest, heq, hc⟩ := exists_of_words_eq_cons_cons hhead h
  exact ⟨rest, c, hc, heq⟩

section BareName

variable (name : String)

theorem not_isBlank_of_mem_head?_bareName {c : Char} (hc : c ∈ (bareName name).toList.head?) :
    isBlank c = false := by
  rcases bareName_cases name with ⟨rest, -, hbare⟩ | ⟨-, hbare⟩
  · rw [hbare, String.toList_ofList] at hc
    exact not_isBlank_of_mem_head?_trimStart hc
  · rw [hbare, String.toList_ofList] at hc
    exact not_isBlank_of_mem_head?_trim hc

theorem not_isBlank_of_mem_getLast?_bareName {c : Char} (hc : c ∈ (bareName name).toList.getLast?) :
    isBlank c = false := by
  rcases bareName_cases name with ⟨rest, ⟨d, -, hname⟩, hbare⟩ | ⟨-, hbare⟩
  · rw [hbare, String.toList_ofList] at hc
    have hne : trimStart rest ≠ [] := by
      intro hnil
      rw [hnil] at hc
      cases hc
    have hrest : rest ≠ [] := by
      rintro rfl
      exact hne rfl
    have hlast : (trim name.toList).getLast? = rest.getLast? := by
      rw [hname, List.getLast?_append_of_ne_nil _ (List.cons_ne_nil d rest),
        ← List.singleton_append, List.getLast?_append_of_ne_nil _ hrest]
    rw [getLast?_trimStart hne, ← hlast] at hc
    exact not_isBlank_of_mem_getLast?_trim hc
  · rw [hbare, String.toList_ofList] at hc
    exact not_isBlank_of_mem_getLast?_trim hc

theorem trim_bareName : trim (bareName name).toList = (bareName name).toList :=
  trim_eq_self_of_ends (fun _ => not_isBlank_of_mem_head?_bareName name)
    fun _ => not_isBlank_of_mem_getLast?_bareName name

/-- At most one keyword is left out. -/
theorem words_bareName : words name.toList = words (bareName name).toList ∨
    words name.toList = keyword :: words (bareName name).toList := by
  rcases bareName_cases name with ⟨rest, hafter, hbare⟩ | ⟨-, hbare⟩
  · right
    rw [hbare, String.toList_ofList, words_trimStart, ← hafter.words_eq, words_trim]
  · left
    rw [hbare, String.toList_ofList, words_trim]

/-- The bare form of a name is bare if it does not begin with the keyword. -/
theorem bareName_bareName_iff :
    bareName (bareName name) = bareName name ↔ ¬∃ rest, AfterKeyword (bareName name).toList rest := by
  rcases bareName_cases (bareName name) with ⟨rest, hafter, hbare⟩ | ⟨hnot, hbare⟩
  · rw [trim_bareName] at hafter
    refine iff_of_false (fun heq => ?_) (not_not_intro ⟨rest, hafter⟩)
    -- The keyword and the blank behind it are missing.
    obtain ⟨c, -, hname⟩ := hafter
    have hlength : (trimStart rest).length ≤ rest.length := (List.dropWhile_sublist _).length_le
    rw [heq] at hbare
    rw [hbare, String.toList_ofList] at hname
    have hlong := congrArg List.length hname
    rw [List.length_append, List.length_cons] at hlong
    omega
  · rw [trim_bareName] at hnot hbare
    rw [String.ofList_toList] at hbare
    exact iff_of_true hbare hnot

theorem repeatsKeyword_iff :
    RepeatsKeyword name ↔ ∃ rest, AfterKeyword (bareName name).toList rest := by
  have hhead : ∀ c ∈ (bareName name).toList.head?, isBlank c = false := fun _ =>
    not_isBlank_of_mem_head?_bareName name
  constructor
  · intro h
    obtain ⟨w, more, hwords⟩ := h
    rcases bareName_cases name with ⟨rest, hafter, hbare⟩ | ⟨hnot, hbare⟩
    · rw [← words_trim, hafter.words_eq] at hwords
      have hrest : words (bareName name).toList = keyword :: w :: more := by
        rw [hbare, String.toList_ofList, words_trimStart]
        exact (List.cons_eq_cons.mp hwords).2
      exact exists_afterKeyword hhead hrest
    · have htrim : trim name.toList = (bareName name).toList := by rw [hbare, String.toList_ofList]
      rw [← words_trim, htrim] at hwords
      exact exists_afterKeyword hhead hwords
  · intro h
    obtain ⟨rest, hafter⟩ := h
    have hmore : words rest ≠ [] := by
      intro hnil
      -- The name would end in a blank.
      obtain ⟨c, hc, hname⟩ := hafter
      have hblank : ∀ d ∈ c :: rest, isBlank d = true :=
        List.forall_mem_cons.mpr ⟨hc, words_eq_nil_iff.mp hnil⟩
      have hlast : (c :: rest).getLast (List.cons_ne_nil c rest) ∈ (bareName name).toList.getLast? := by
        rw [hname, List.getLast?_append_of_ne_nil _ (List.cons_ne_nil c rest)]
        exact List.getLast?_eq_some_getLast _
      have hunblank := not_isBlank_of_mem_getLast?_bareName name hlast
      rw [hblank _ (List.getLast_mem _)] at hunblank
      cases hunblank
    obtain ⟨w, more, hrest⟩ := List.exists_cons_of_ne_nil hmore
    have hbare := hafter.words_eq
    rw [hrest] at hbare
    rcases bareName_cases name with ⟨rest', hafter', hname⟩ | ⟨hnot, hname⟩
    · refine ⟨w, more, ?_⟩
      rw [← words_trim, hafter'.words_eq, ← words_trimStart, ← hbare, hname, String.toList_ofList]
    · rw [hname, String.toList_ofList] at hafter
      exact absurd ⟨rest, hafter⟩ hnot

end BareName

end DecompConfig
