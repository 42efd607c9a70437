import DecompConfig.Proofs.Text.Blank
import DecompConfig.Token.Reading
import Mathlib.Tactic.SplitIfs

namespace DecompConfig

open Text

theorem mem_of_mem_spaced {apart : Char → Char → Bool} {s : List Char} {c : Char}
    (hc : c ∈ spaced apart s) (hblank : isBlank c = false) : c ∈ s := by
  fun_induction spaced apart s with
  | case1 a b rest _ ih =>
    rcases List.mem_cons.mp hc with rfl | hc
    · exact List.mem_cons_self
    · rcases List.mem_cons.mp hc with rfl | hc
      · exact absurd hblank (by decide)
      · exact List.mem_cons_of_mem a (ih hc)
  | case2 a b rest _ ih =>
    rcases List.mem_cons.mp hc with rfl | hc
    · exact List.mem_cons_self
    · exact List.mem_cons_of_mem a (ih hc)
  | case3 rest => exact hc

/-- A token is spelled by its word. -/
theorem Token.text_ofWord (word : String) : (Token.ofWord word).text = word := by
  unfold Token.ofWord
  split
  next q hq => exact Qualifier.word_of_ofWord? hq
  next =>
    split_ifs with hopen hclose hcomma hstars
    · exact hopen.symm
    · exact hclose.symm
    · exact hcomma.symm
    · apply String.toList_inj.mp
      have hall : ∀ c ∈ word.toList, c = '*' := by simpa using hstars.2
      simpa [Token.text, String.length_toList] using (List.eq_replicate_of_mem hall).symm
    · rfl

section Tokens

variable {s : List Char} {t : Token} {c : Char}

theorem exists_word_of_mem_tokensOf (ht : t ∈ tokensOf s) (hc : c ∈ t.text.toList) :
    ∃ word ∈ words (spaced starsAfterName s), c ∈ word := by
  obtain ⟨word, hword, rfl⟩ := List.mem_map.mp ht
  exact ⟨word, hword, by simpa [Token.text_ofWord] using hc⟩

theorem not_isBlank_of_mem_tokensOf (ht : t ∈ tokensOf s) (hc : c ∈ t.text.toList) :
    isBlank c = false := by
  obtain ⟨word, hword, hc⟩ := exists_word_of_mem_tokensOf ht hc
  exact not_isBlank_of_mem_words hword hc

theorem mem_of_mem_tokensOf (ht : t ∈ tokensOf s) (hc : c ∈ t.text.toList) : c ∈ s := by
  have hblank := not_isBlank_of_mem_tokensOf ht hc
  obtain ⟨word, hword, hc⟩ := exists_word_of_mem_tokensOf ht hc
  exact mem_of_mem_spaced (mem_of_mem_words hword hc) hblank

end Tokens

theorem not_isBlank_of_mem_typeTokens {type name : String} (hname : .name name ∈ typeTokens type)
    {c : Char} (hc : c ∈ name.toList) : isBlank c = false :=
  not_isBlank_of_mem_tokensOf hname hc

/-- The tokens of a member declaration, its declared name included. -/
def declarationTokens (declaration : String) : List Token :=
  tokensOf (spaced nameAfterStars declaration.toList)

/-- What is dropped from a declaration is its last token, and only if it can be a declared name behind
tokens that give a type. -/
theorem dropDeclarator_cases (tokens : List Token) :
    dropDeclarator tokens = tokens ∨ ∃ last, tokens = dropDeclarator tokens ++ [last] ∧
      last.isDeclarator = true ∧ ∃ t ∈ dropDeclarator tokens, t.isTypeWord = true := by
  unfold dropDeclarator
  split
  next last hlast =>
    split
    next hdrop =>
      rw [Bool.and_eq_true, List.any_eq_true] at hdrop
      refine .inr ⟨last, ?_, hdrop⟩
      exact (List.dropLast_append_getLast? last hlast).symm
    next => exact .inl rfl
  next => exact .inl rfl

theorem dropDeclarator_sublist (tokens : List Token) : (dropDeclarator tokens).Sublist tokens := by
  rcases dropDeclarator_cases tokens with heq | ⟨last, heq, -⟩
  · rw [heq]
  · conv_rhs => rw [heq]
    exact List.sublist_append_left _ _

theorem dropDeclarator_eq_nil_iff {tokens : List Token} :
    dropDeclarator tokens = [] ↔ tokens = [] := by
  rcases dropDeclarator_cases tokens with heq | ⟨last, heq, -, t, ht, -⟩
  · rw [heq]
  · exact iff_of_false (List.ne_nil_of_mem ht) (heq ▸ List.concat_ne_nil last _)

theorem mem_tokensOf_of_mem_memberTokens {declaration : String} {t : Token}
    (ht : t ∈ memberTokens declaration) :
    t ∈ tokensOf (spaced nameAfterStars declaration.toList) :=
  (dropDeclarator_sublist _).subset ht

theorem not_isBlank_of_mem_memberTokens {declaration name : String}
    (hname : .name name ∈ memberTokens declaration) {c : Char} (hc : c ∈ name.toList) :
    isBlank c = false :=
  not_isBlank_of_mem_tokensOf (mem_tokensOf_of_mem_memberTokens hname) hc

/-- The tokens of a declaration are spelled by its characters. -/
theorem mem_of_mem_memberTokens {declaration : String} {t : Token} (ht : t ∈ memberTokens declaration)
    {c : Char} (hc : c ∈ t.text.toList) : c ∈ declaration.toList := by
  have ht := mem_tokensOf_of_mem_memberTokens ht
  exact mem_of_mem_spaced (mem_of_mem_tokensOf ht hc) (not_isBlank_of_mem_tokensOf ht hc)

end DecompConfig
