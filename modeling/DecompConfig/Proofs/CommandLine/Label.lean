import DecompConfig.Proofs.CommandLine.Printing
import DecompConfig.Proofs.NameMap

namespace DecompConfig

open Text

section Spelled

variable {name : String} {rest : List Char}

theorem bareName_of_afterKeyword (h : AfterKeyword (trim name.toList) rest) :
    bareName name = .ofList (trimStart rest) := by
  rcases bareName_cases name with ⟨rest', ⟨c', -, hrest'⟩, hbare⟩ | ⟨hnot, -⟩
  · obtain ⟨c, -, hrest⟩ := h
    rw [hrest, List.append_cancel_left_eq, List.cons_eq_cons] at hrest'
    rw [hbare, hrest'.2]
  · exact absurd ⟨rest, h⟩ hnot

theorem bareName_of_not_afterKeyword (h : ¬∃ rest, AfterKeyword (trim name.toList) rest) :
    bareName name = .ofList (trim name.toList) := by
  rcases bareName_cases name with ⟨rest, hafter, -⟩ | ⟨-, hbare⟩
  · exact absurd ⟨rest, hafter⟩ h
  · exact hbare

/-- What stands behind a keyword and a space is the bare name, without the blanks around it. -/
theorem bareName_of_keyword (h : name.toList = keyword ++ ' ' :: rest) (hrest : trim rest ≠ []) :
    bareName name = .ofList (trim rest) := by
  obtain ⟨before, after, hsplit, hbefore, hafter⟩ := exists_trim_between rest
  let core := keyword ++ ' ' :: (before ++ trim rest)
  have hname : name.toList = [] ++ core ++ after := by
    rw [h]
    conv_lhs => rw [hsplit]
    simp [core]
  have hlast : core.getLast? = (trim rest).getLast? := by
    rw [List.getLast?_append_of_ne_nil _ (List.cons_ne_nil _ _), ← List.cons_append,
      List.getLast?_append_of_ne_nil _ hrest]
  have hends : trim core = core := by
    apply trim_eq_self_of_ends
    · intro c hc
      obtain rfl := Option.some.inj hc
      rfl
    · intro c hc
      rw [hlast] at hc
      exact not_isBlank_of_mem_getLast?_trim hc
  have hcore : trim name.toList = core := by
    rw [hname]
    exact trim_between (by simp) hafter hends
  have hbody : trimStart (before ++ trim rest) = trim rest := by
    rw [trimStart, List.dropWhile_append_of_pos hbefore, ← trimStart,
      trimStart_eq_self fun _ => not_isBlank_of_mem_head?_trim]
  have hafterKeyword : AfterKeyword (trim name.toList) (before ++ trim rest) := ⟨' ', rfl, hcore⟩
  rw [bareName_of_afterKeyword hafterKeyword, hbody]

end Spelled

namespace CommandLine

/-- A name that is shown as it is looked up. Either one keyword with a space behind it stands in front
of it, at the very beginning, or no keyword does, whatever blanks are around the name. -/
def ShownBare (name : String) : Prop :=
  (∃ rest, name.toList = keyword ++ ' ' :: rest ∧ trim rest ≠ [] ∧
    ¬∃ more, rest = keyword ++ ' ' :: more) ∨
  (¬∃ rest, name.toList = keyword ++ ' ' :: rest) ∧ ¬∃ rest, AfterKeyword (trim name.toList) rest

section Shown

variable {name : String} {s rest : List Char}

theorem withoutKeyword_keyword (rest : List Char) :
    shownName.withoutKeyword (keyword ++ ' ' :: rest) = shownName.withoutKeyword rest := rfl

theorem withoutKeyword_eq_self (h : ¬∃ rest, s = keyword ++ ' ' :: rest) :
    shownName.withoutKeyword s = s := by
  rw [shownName.withoutKeyword]
  exact fun rest heq => h ⟨rest, heq⟩

theorem shownName_of_not_keyword (h : ¬∃ rest, name.toList = keyword ++ ' ' :: rest) :
    shownName name = .ofList (trim name.toList) := by
  rw [shownName, withoutKeyword_eq_self h]

theorem shownName_of_keyword (h : name.toList = keyword ++ ' ' :: rest) :
    shownName name = shownName (.ofList rest) := by
  rw [shownName, shownName, h, withoutKeyword_keyword, String.toList_ofList]

/-- Two keywords are left out of what is shown, but only one of the bare name. -/
theorem shownName_ne_bareName_of_keywords (h : name.toList = keyword ++ ' ' :: rest)
    (hrest : ∃ more, rest = keyword ++ ' ' :: more) : shownName name ≠ bareName name := by
  intro heq
  obtain ⟨more, rfl⟩ := hrest
  have hspace : isBlank ' ' = true := by decide
  have hwords : words name.toList = keyword :: keyword :: words more := by
    rw [h, words_append_blank hspace, words_append_blank hspace, words_keyword]
    rfl
  have hshown : shownName name = shownName (.ofList more) := by
    rw [shownName_of_keyword h, shownName_of_keyword (String.toList_ofList)]
  obtain ⟨n, hmore⟩ := words_shownName (.ofList more)
  rw [String.toList_ofList, ← hshown, heq] at hmore
  have hlength := congrArg List.length hmore
  rw [List.length_append] at hlength
  rcases words_bareName name with hbare | hbare
  · have := congrArg List.length (hwords.symm.trans hbare)
    simp only [List.length_cons] at this
    omega
  · have := congrArg List.length (hwords.symm.trans hbare)
    simp only [List.length_cons] at this
    omega

/-- With nothing behind it the keyword is a name of its own, but it is not shown. -/
theorem shownName_ne_bareName_of_blank (h : name.toList = keyword ++ ' ' :: rest)
    (hrest : trim rest = []) : shownName name ≠ bareName name := by
  obtain ⟨before, after, hsplit, hbefore, hafter⟩ := exists_trim_between rest
  have hblank : ∀ c ∈ ' ' :: rest, isBlank c = true := by
    rw [hsplit, hrest, List.append_nil, List.forall_mem_cons, List.forall_mem_append]
    exact ⟨rfl, hbefore, hafter⟩
  have hkeyword : trim name.toList = keyword := by
    have hbetween : trim ([] ++ keyword ++ ' ' :: rest) = keyword :=
      trim_between (by simp) hblank (by decide)
    rwa [List.nil_append, ← h] at hbetween
  have hnot : ¬∃ rest, AfterKeyword (trim name.toList) rest := by
    rintro ⟨rest', c, -, heq⟩
    rw [hkeyword] at heq
    simp at heq
  have hled : ¬∃ more, rest = keyword ++ ' ' :: more := by
    rintro ⟨more, rfl⟩
    have hs := hblank 's' (by simp [keyword, Qualifier.word])
    exact absurd hs (by decide)
  rw [shownName, bareName_of_not_afterKeyword hnot, h, withoutKeyword_keyword,
    withoutKeyword_eq_self hled, hrest, ← h, hkeyword]
  decide

theorem shownName_eq_bareName_iff (name : String) :
    shownName name = bareName name ↔ ShownBare name := by
  by_cases hname : ∃ rest, name.toList = keyword ++ ' ' :: rest
  · have hother : ¬((¬∃ rest, name.toList = keyword ++ ' ' :: rest) ∧
        ¬∃ rest, AfterKeyword (trim name.toList) rest) := fun h => h.1 hname
    rw [ShownBare, or_iff_left hother]
    obtain ⟨rest, hrest⟩ := hname
    constructor
    · intro heq
      exact ⟨rest, hrest, fun hblank => shownName_ne_bareName_of_blank hrest hblank heq,
        fun hmore => shownName_ne_bareName_of_keywords hrest hmore heq⟩
    · rintro ⟨rest, hrest, hne, hmore⟩
      rw [bareName_of_keyword hrest hne, shownName_of_keyword hrest,
        shownName_of_not_keyword (by rwa [String.toList_ofList]), String.toList_ofList]
  · have hother : ¬∃ rest, name.toList = keyword ++ ' ' :: rest ∧ trim rest ≠ [] ∧
        ¬∃ more, rest = keyword ++ ' ' :: more := fun ⟨rest, hrest, _⟩ => hname ⟨rest, hrest⟩
    rw [ShownBare, or_iff_right hother, and_iff_right hname, shownName_of_not_keyword hname]
    constructor
    · rintro heq ⟨rest, hafter⟩
      -- The bare name has lost the keyword.
      rw [bareName_of_afterKeyword hafter] at heq
      obtain ⟨c, -, htrim⟩ := hafter
      have hlength := congrArg List.length (String.ofList_injective heq)
      have hle : (trimStart rest).length ≤ rest.length := (List.dropWhile_sublist _).length_le
      rw [htrim, List.length_append, List.length_cons] at hlength
      omega
    · intro hnot
      exact (bareName_of_not_afterKeyword hnot).symm

end Shown

/-- A command that shows an aggregate prints the definition that its table holds for the bare name. The
first line names it by the key of the definition exactly if the name is spelled with one keyword and a
space at its very beginning, or without the keyword. -/
theorem label_is_key_iff {files : Files} {args : List String} {name : String} {source : TypeSource}
    {verbosity : Nat} (hargs : Invocation.ofArguments? args = some ⟨.showType name source, verbosity⟩)
    (hstatus : (run files args).status = 0) :
    ∃ loaded aggregate label, source.load files = .ok loaded ∧
      (bareName name, aggregate) ∈ loaded.aggregates.entries ∧
      (run files args).stdout = String.join ((aggregate.lines label).map (· ++ "\n")) ∧
      (aggregate.lines label).head? = some ("struct " ++ label ++ " \x7b") ∧
      (label = bareName name ↔ ShownBare name) := by
  obtain ⟨loaded, aggregate, hload, hget, hstdout⟩ := stdout_showType hargs hstatus
  exact ⟨loaded, aggregate, shownName name, hload, loaded.aggregates.mem_entries_iff.mpr hget, hstdout,
    rfl, shownName_eq_bareName_iff name⟩

def noFiles : Files := ⟨fun _ => none, fun _ => false⟩

theorem label_is_key_iff_timeval :
    let args := ["types", "show", "struct  timeval\n", "-b", "posix"]
    Invocation.ofArguments? args =
      some ⟨.showType "struct  timeval\n" ⟨none, none, ["posix"], defaultDepth⟩, 0⟩ ∧
    (run noFiles args).status = 0 ∧ ShownBare "struct  timeval\n" ∧
    ∃ aggregate : Aggregate, (run noFiles args).stdout = aggregate.listing "timeval" := by
  intro args
  have hargs : Invocation.ofArguments? args =
      some ⟨.showType "struct  timeval\n" ⟨none, none, ["posix"], defaultDepth⟩, 0⟩ := by
    decide +kernel
  have hstatus : (run noFiles args).status = 0 := by decide +kernel
  have hbare : bareName "struct  timeval\n" = "timeval" := by decide +kernel
  have hshown : ShownBare "struct  timeval\n" := by
    rw [← shownName_eq_bareName_iff]
    decide +kernel
  obtain ⟨-, aggregate, label, -, -, hstdout, -, hlabel⟩ := label_is_key_iff hargs hstatus
  have hkey : label = "timeval" := (hlabel.mpr hshown).trans hbare
  exact ⟨hargs, hstatus, hshown, aggregate, hkey ▸ hstdout⟩

/-- A tab behind the keyword is a blank to the table, but not to the label. -/
theorem tab_stays_in_label :
    let result := run noFiles ["types", "show", "struct\ttimeval", "-b", "posix"]
    bareName "struct\ttimeval" = "timeval" ∧ result.status = 0 ∧
      result.stdout = "struct struct\ttimeval \x7b\n    long tv_sec;\n    long tv_usec;\n\x7d\n" := by
  decide +kernel

end CommandLine

end DecompConfig
