import DecompConfig.Proofs.Token.Spelling

namespace DecompConfig

open Text

section Juncture

variable {apart : Char → Char → Bool} {s t : List Char}

theorem getLast?_spaced (apart : Char → Char → Bool) (s : List Char) :
    (spaced apart s).getLast? = s.getLast? := by
  fun_induction spaced apart s with
  | case1 a b rest _ ih => simp [List.getLast?_cons, ih]
  | case2 a b rest _ ih => simp [List.getLast?_cons, ih]
  | case3 rest => rfl

theorem forall_isBlank_iff : (∀ c ∈ s, isBlank c = true) ↔ s.filter (!isBlank ·) = [] := by
  simp [List.filter_eq_nil_iff]

theorem tokensOf_eq_nil_iff : tokensOf s = [] ↔ ∀ c ∈ s, isBlank c = true := by
  rw [tokensOf, List.map_eq_nil_iff, words_eq_nil_iff, forall_isBlank_iff, filter_spaced,
    ← forall_isBlank_iff]

/-- Two texts have a character in front of the place where they meet and one behind it, or one of them
is empty. -/
theorem eq_nil_or_meet (s t : List Char) :
    s = [] ∨ t = [] ∨ ∃ a b, s.getLast? = some a ∧ t.head? = some b := by
  cases hs : s.getLast? with
  | none => exact .inl (List.getLast?_eq_none_iff.mp hs)
  | some a =>
    cases t with
    | nil => exact .inr (.inl rfl)
    | cons b t => exact .inr (.inr ⟨a, b, rfl, rfl⟩)

/-- No token reaches over a place where a blank stands or a name ends and stars begin. -/
theorem tokensOf_append (h : ∀ a ∈ s.getLast?, ∀ b ∈ t.head?,
      isBlank a = true ∨ isBlank b = true ∨ starsAfterName a b = true) :
    tokensOf (s ++ t) = tokensOf s ++ tokensOf t := by
  rcases eq_nil_or_meet s t with rfl | rfl | ⟨a, b, hs, ht⟩
  · rfl
  · rw [List.append_nil]
    exact (List.append_nil _).symm
  · rw [tokensOf, spaced_append hs ht]
    split
    next =>
      rw [words_append_blank (by decide), List.map_append]
      rfl
    next hnot =>
      have hblank : (∃ c ∈ (spaced starsAfterName s).getLast?, isBlank c = true) ∨
          ∃ c ∈ (spaced starsAfterName t).head?, isBlank c = true := by
        rw [getLast?_spaced, head?_spaced, hs, ht]
        rcases h a hs b ht with ha | hb | hab
        · exact .inl ⟨a, rfl, ha⟩
        · exact .inr ⟨b, rfl, hb⟩
        · exact absurd hab hnot
      rw [words_append hblank, List.map_append]
      rfl

end Juncture

/-- Blanks between two neighbours in a declaration change nothing: one of the two is a blank, or a name
touches the stars behind or in front of it. -/
def Loose (a b : Char) : Prop :=
  isBlank a = true ∨ isBlank b = true ∨ (isWordChar a = true ∧ b = '*') ∨
    (a = '*' ∧ isWordChar b = true)

instance (a b : Char) : Decidable (Loose a b) := inferInstanceAs (Decidable (_ ∨ _))

/-- Blanks are written at the two ends of a text and between loose neighbours, where `last?` is what
stands in front of the text. -/
inductive Loosened : (last? : Option Char) → (s loosened : List Char) → Prop where
  | done {last? blanks} : (∀ b ∈ blanks, isBlank b = true) → Loosened last? [] blanks
  | char {last? blanks c s loosened} : (∀ b ∈ blanks, isBlank b = true) →
      (blanks = [] ∨ ∀ a ∈ last?, Loose a c) → Loosened (some c) s loosened →
      Loosened last? (c :: s) (blanks ++ c :: loosened)

namespace Loosened

variable {last? : Option Char} {a c : Char} {blanks s loosened : List Char}

theorem next (h : Loosened (some c) s loosened) : Loosened last? (c :: s) (c :: loosened) :=
  @char last? [] c s loosened nofun (.inl rfl) h

theorem between (hblank : ∀ b ∈ blanks, isBlank b = true) (hloose : Loose a c)
    (h : Loosened (some c) s loosened) : Loosened (some a) (c :: s) (blanks ++ c :: loosened) := by
  refine .char hblank (.inr ?_) h
  rintro _ ⟨⟩
  exact hloose

end Loosened

section Declaration

variable {before after blanks : List Char}

theorem tokensOf_spaced_append (h : ∀ a ∈ before.getLast?, ∀ b ∈ after.head?, Loose a b) :
    tokensOf (spaced nameAfterStars (before ++ after)) =
      tokensOf (spaced nameAfterStars before) ++ tokensOf (spaced nameAfterStars after) := by
  rcases eq_nil_or_meet before after with rfl | rfl | ⟨a, b, hbefore, hafter⟩
  · rfl
  · rw [List.append_nil]
    exact (List.append_nil _).symm
  · rw [spaced_append hbefore hafter]
    split
    next => exact tokensOf_append_space _ _
    next hnot =>
      apply tokensOf_append
      rw [getLast?_spaced, head?_spaced]
      intro a' ha b' hb
      obtain rfl := Option.mem_unique hbefore ha
      obtain rfl := Option.mem_unique hafter hb
      rcases h a ha b hb with hblank | hblank | ⟨hword, rfl⟩ | ⟨rfl, hword⟩
      · exact .inl hblank
      · exact .inr (.inl hblank)
      · exact .inr (.inr (by simp [starsAfterName, hword]))
      · exact absurd (by simp [nameAfterStars, hword]) hnot

theorem tokensOf_spaced_eq_nil_iff {s : List Char} :
    tokensOf (spaced nameAfterStars s) = [] ↔ ∀ c ∈ s, isBlank c = true := by
  rw [tokensOf_eq_nil_iff, forall_isBlank_iff, filter_spaced, ← forall_isBlank_iff]

/-- Blanks between loose neighbours leave no trace. -/
theorem tokensOf_spaced_insert (before after : List Char) (hblank : ∀ c ∈ blanks, isBlank c = true)
    (h : ∀ a ∈ before.getLast?, ∀ b ∈ after.head?, Loose a b) :
    tokensOf (spaced nameAfterStars (before ++ (blanks ++ after))) =
      tokensOf (spaced nameAfterStars (before ++ after)) := by
  cases blanks with
  | nil => rfl
  | cons d blanks =>
    have hfront : ∀ a ∈ before.getLast?, ∀ b ∈ (d :: blanks ++ after).head?, Loose a b := by
      intro a _ b hb
      obtain rfl := Option.some.inj hb
      exact .inr (.inl (hblank d List.mem_cons_self))
    have hback : ∀ a ∈ (d :: blanks).getLast?, ∀ b ∈ after.head?, Loose a b :=
      fun a ha _ _ => .inl (hblank a (List.mem_of_getLast? ha))
    rw [tokensOf_spaced_append hfront, tokensOf_spaced_append hback, tokensOf_spaced_eq_nil_iff.mpr hblank,
      List.nil_append, tokensOf_spaced_append h]

theorem tokensOf_spaced_of_loosened {last? : Option Char} {s loosened : List Char}
    (h : Loosened last? s loosened) (before : List Char) (hlast : before.getLast? = last?) :
    tokensOf (spaced nameAfterStars (before ++ loosened)) =
      tokensOf (spaced nameAfterStars (before ++ s)) := by
  induction h generalizing before with
  | @done last? blanks hblank =>
    have hinsert := tokensOf_spaced_insert before [] hblank nofun
    rwa [List.append_nil] at hinsert
  | @char last? blanks c s loosened hblank hloose _ ih =>
    -- What follows the character is loosened behind all that was written so far.
    have hrest := ih (before ++ blanks ++ [c]) (by simp)
    simp only [List.append_assoc, List.singleton_append] at hrest
    rw [hrest]
    rcases hloose with rfl | hloose
    · rfl
    · apply tokensOf_spaced_insert before (c :: s) hblank
      intro a ha b hb
      obtain rfl := Option.some.inj hb
      exact hloose a (hlast ▸ ha)

end Declaration

/-- How a declaration is spaced around its stars does not matter. Blanks at its ends, beside its
blanks and between stars and names that touch leave no trace. Of its tokens at most the last one is
dropped, behind tokens that give a type, so that none are left only if nothing but blanks was there. -/
theorem memberTokens_loosened (declaration : String) :
    (∀ loosened : String, Loosened none declaration.toList loosened.toList →
      memberTokens loosened = memberTokens declaration) ∧
    (memberTokens declaration = declarationTokens declaration ∨
      ∃ last, declarationTokens declaration = memberTokens declaration ++ [last] ∧
        last.isDeclarator = true ∧ ∃ t ∈ memberTokens declaration, t.isTypeWord = true) ∧
    (memberTokens declaration = [] ↔ ∀ c ∈ declaration.toList, isBlank c = true) := by
  refine ⟨?_, dropDeclarator_cases (declarationTokens declaration), ?_⟩
  · intro loosened h
    have htokens : declarationTokens loosened = declarationTokens declaration :=
      tokensOf_spaced_of_loosened h [] rfl
    exact congrArg dropDeclarator htokens
  · exact dropDeclarator_eq_nil_iff.trans tokensOf_spaced_eq_nil_iff

theorem memberTokens_loosened_pointer :
    Loosened none "a **x".toList " a \t ** x".toList ∧
    memberTokens " a \t ** x" = [.name "a", .stars 2] ∧
    declarationTokens "a **x" = [.name "a", .stars 2, .name "x"] := by
  have hspace : ∀ b ∈ [' '], isBlank b = true := List.all_eq_true.mp (by decide)
  have hblanks : ∀ b ∈ ['\t', ' '], isBlank b = true := List.all_eq_true.mp (by decide)
  have hpointer : Loosened (some ' ') ['*', '*', 'x'] ['\t', ' ', '*', '*', ' ', 'x'] :=
    .between hblanks (by decide)
      (.next (.between hspace (by decide) (.done (List.forall_mem_nil _))))
  have hloosened : Loosened none ['a', ' ', '*', '*', 'x']
      [' ', 'a', ' ', '\t', ' ', '*', '*', ' ', 'x'] :=
    .char hspace (.inr nofun) (.next hpointer)
  have hlists : "a **x".toList = ['a', ' ', '*', '*', 'x'] ∧
      " a \t ** x".toList = [' ', 'a', ' ', '\t', ' ', '*', '*', ' ', 'x'] := by decide
  rw [← hlists.1, ← hlists.2] at hloosened
  have htokens : memberTokens "a **x" = [.name "a", .stars 2] := by decide +kernel
  obtain ⟨hsame, -⟩ := memberTokens_loosened "a **x"
  exact ⟨hloosened, (hsame _ hloosened).trans htokens, by decide +kernel⟩

end DecompConfig
