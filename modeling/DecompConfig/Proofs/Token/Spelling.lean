import DecompConfig.Proofs.Token.Reading
import Mathlib.Data.List.Chain

namespace DecompConfig

open Text

section Spaced

variable {apart : Char → Char → Bool} {s : List Char}

theorem filter_spaced (apart : Char → Char → Bool) (s : List Char) :
    (spaced apart s).filter (!isBlank ·) = s.filter (!isBlank ·) := by
  have hspace : isBlank ' ' = true := by decide
  have hcons (a : Char) {s t : List Char} (h : s.filter (!isBlank ·) = t.filter (!isBlank ·)) :
      (a :: s).filter (!isBlank ·) = (a :: t).filter (!isBlank ·) := by
    rw [List.filter_cons, List.filter_cons, h]
  fun_induction spaced apart s with
  | case1 a b rest _ ih =>
    apply hcons
    rw [List.filter_cons_of_neg (by simp [hspace]), ih]
  | case2 a b rest _ ih => exact hcons a ih
  | case3 rest => rfl

theorem head?_spaced (apart : Char → Char → Bool) (s : List Char) :
    (spaced apart s).head? = s.head? := by
  fun_cases spaced apart s <;> rfl

/-- Where no neighbours are kept apart, nothing is written. -/
theorem spaced_eq_self (h : s.IsChain fun a b => apart a b = false) : spaced apart s = s := by
  fun_induction spaced apart s with
  | case1 a b rest hab _ => simp [hab] at h
  | case2 a b rest _ ih => rw [ih (List.isChain_cons_cons.mp h).2]
  | case3 rest => rfl

/-- The space keeps no distance from its neighbours. -/
def SparesSpace (apart : Char → Char → Bool) : Prop :=
  ∀ c, apart c ' ' = false ∧ apart ' ' c = false

theorem sparesSpace_starsAfterName : SparesSpace starsAfterName := by
  have hspace : isWordChar ' ' = false := by decide
  intro c
  simp [starsAfterName, hspace]

theorem sparesSpace_nameAfterStars : SparesSpace nameAfterStars := by
  have hspace : isWordChar ' ' = false := by decide
  intro c
  simp [nameAfterStars, hspace]

theorem isChain_spaced (hspace : SparesSpace apart) (s : List Char) :
    (spaced apart s).IsChain fun a b => apart a b = false := by
  fun_induction spaced apart s with
  | case1 a b rest _ ih =>
    -- The new space has two neighbours, and it keeps a distance from neither.
    refine List.isChain_cons_cons.mpr ⟨(hspace a).1, List.isChain_cons.mpr ⟨?_, ih⟩⟩
    exact fun c _ => (hspace c).2
  | case2 a b rest hab ih =>
    refine List.isChain_cons.mpr ⟨fun c hc => ?_, ih⟩
    obtain rfl : b = c := by simpa [head?_spaced] using hc
    simpa using hab
  | case3 rest hrest =>
    cases rest with
    | nil => exact .nil
    | cons a rest =>
      cases rest with
      | nil => exact .singleton a
      | cons b rest => exact absurd rfl (hrest a b rest)

theorem spaced_append {t : List Char} {a b : Char} (hs : s.getLast? = some a)
    (ht : t.head? = some b) : spaced apart (s ++ t) =
      spaced apart s ++ if apart a b then ' ' :: spaced apart t else spaced apart t := by
  induction s with
  | nil => simp at hs
  | cons c s ih =>
    cases s with
    | nil =>
      obtain rfl : c = a := by simpa using hs
      obtain ⟨t, rfl⟩ := List.head?_eq_some_iff.mp ht
      rw [List.singleton_append, spaced]
      split <;> rfl
    | cons d s =>
      have hrest := ih (by simpa using hs)
      rw [List.cons_append] at hrest
      rw [List.cons_append, List.cons_append, spaced, spaced, hrest]
      split <;> rfl

theorem spaced_append_space (hspace : SparesSpace apart) (s t : List Char) :
    spaced apart (s ++ ' ' :: t) = spaced apart s ++ ' ' :: spaced apart t := by
  have hfront : spaced apart (' ' :: t) = ' ' :: spaced apart t := by
    cases t with
    | nil => rfl
    | cons b t => rw [spaced, if_neg (by simp [(hspace b).2])]
  cases hs : s.getLast? with
  | none =>
    obtain rfl := List.getLast?_eq_none_iff.mp hs
    exact hfront
  | some a => rw [spaced_append hs rfl, if_neg (by simp [(hspace a).1]), hfront]

end Spaced

/-- A space ends a word and keeps the characters around it apart. -/
theorem tokensOf_append_space (s t : List Char) :
    tokensOf (s ++ ' ' :: t) = tokensOf s ++ tokensOf t := by
  have hblank : isBlank ' ' = true := by decide
  rw [tokensOf, spaced_append_space sparesSpace_starsAfterName, words_append_blank hblank,
    List.map_append]
  rfl

/-- What a character sequence without blanks must be like to be read as one word. -/
structure IsWord (w : List Char) : Prop where
  ne_nil : w ≠ []
  unblank : ∀ c ∈ w, isBlank c = false
  unsplit : w.IsChain fun a b => starsAfterName a b = false

instance : DecidablePred IsWord := fun w =>
  have := List.decidableBAll (isBlank · = false) w
  decidable_of_iff (w ≠ [] ∧ (∀ c ∈ w, isBlank c = false) ∧
      w.IsChain fun a b => starsAfterName a b = false)
    ⟨fun ⟨hne, hblank, hchain⟩ => ⟨hne, hblank, hchain⟩, fun h => ⟨h.ne_nil, h.unblank, h.unsplit⟩⟩

theorem isWord_of_mem_words {s w : List Char} (hw : w ∈ words (spaced starsAfterName s)) :
    IsWord w where
  ne_nil := ne_nil_of_mem_words hw
  unblank := fun _ hc => not_isBlank_of_mem_words hw hc
  unsplit :=
    have hchain := isChain_spaced sparesSpace_starsAfterName s
    List.IsChain.infix hchain (infix_of_mem_words hw)

theorem IsWord.tokensOf {w : List Char} (h : IsWord w) : tokensOf w = [.ofWord (.ofList w)] := by
  rw [DecompConfig.tokensOf, spaced_eq_self h.unsplit, words_of_unblank h.ne_nil h.unblank]
  rfl

namespace Token

/-- The tokens that have a spelling of their own: stars are not missing, and a name is a word, not
read as anything else, in which no word character stands before a star. -/
def Canonical : Token → Prop
  | name word => word ≠ "" ∧ (∀ c ∈ word.toList, isBlank c = false) ∧
      Qualifier.ofWord? word = none ∧ word ≠ "\x7b" ∧ word ≠ "\x7d" ∧ word ≠ "," ∧
      (∃ c ∈ word.toList, c ≠ '*') ∧
      word.toList.IsChain fun a b => ¬(isWordChar a = true ∧ b = '*')
  | stars count => 1 ≤ count
  | _ => True

instance : DecidablePred Canonical
  | name word =>
    have := List.decidableBAll (isBlank · = false) word.toList
    have := List.decidableBEx (· ≠ '*') word.toList
    inferInstanceAs (Decidable (_ ∧ _))
  | stars _ => inferInstanceAs (Decidable (_ ≤ _))
  | qualifier _ | openBrace | closeBrace | comma => inferInstanceAs (Decidable True)

theorem isWord_text {t : Token} (h : t.Canonical) : IsWord t.text.toList := by
  cases t with
  | qualifier q => cases q <;> decide
  | name word =>
    obtain ⟨hne, hblank, -, -, -, -, -, hchain⟩ := h
    refine ⟨by simpa [text] using hne, hblank, hchain.imp ?_⟩
    intro a b hab
    simpa [starsAfterName] using hab
  | stars count =>
    have hstar : isBlank '*' = false ∧ starsAfterName '*' '*' = false := by decide
    have htext : (stars count).text.toList = List.replicate count '*' := String.toList_ofList
    rw [htext]
    refine ⟨?_, ?_, List.isChain_replicate_of_rel count hstar.2⟩
    · have hpos : 1 ≤ count := h
      simp only [ne_eq, List.replicate_eq_nil_iff]
      omega
    · intro c hc
      rw [(List.mem_replicate.mp hc).2]
      exact hstar.1
  | _ => decide

theorem ofWord_of_star {word : String} (hstar : '*' ∈ word.toList) :
    ofWord word = if word.toList.all (· == '*') then stars word.length else name word := by
  have hqualifier : Qualifier.ofWord? word = none := by
    cases hq : Qualifier.ofWord? word with
    | none => rfl
    | some q =>
      rw [← Qualifier.word_of_ofWord? hq] at hstar
      exact absurd hstar (by cases q <;> decide)
  have hne {mark : String} (hmark : '*' ∉ mark.toList) : word ≠ mark := by
    rintro rfl
    exact hmark hstar
  simp only [ofWord, hqualifier]
  have hempty : word ≠ "" := hne (by decide)
  rw [if_neg (hne (by decide)), if_neg (hne (by decide)), if_neg (hne (by decide))]
  simp [hempty]

theorem ofWord_of_not_stars {word : String} (h : ∃ c ∈ word.toList, c ≠ '*')
    (hqualifier : Qualifier.ofWord? word = none) (hopen : word ≠ openBrace.text)
    (hclose : word ≠ closeBrace.text) (hcomma : word ≠ comma.text) : ofWord word = name word := by
  have hall : word.toList.all (· == '*') = false := by simpa using h
  simp only [ofWord, hqualifier]
  rw [if_neg hopen, if_neg hclose, if_neg hcomma]
  simp [hall]

theorem ofWord_text {t : Token} (h : t.Canonical) : ofWord t.text = t := by
  cases t with
  | qualifier q => simp [ofWord, text, Qualifier.ofWord?_word]
  | name word =>
    obtain ⟨-, -, hqualifier, hopen, hclose, hcomma, hstar, -⟩ := h
    exact ofWord_of_not_stars hstar hqualifier hopen hclose hcomma
  | stars count =>
    have hpos : count ≠ 0 := Nat.one_le_iff_ne_zero.mp h
    rw [ofWord_of_star (by simp [text, hpos])]
    simp [text]
  | _ => rfl

theorem canonical_ofWord {w : List Char} (h : IsWord w) : (ofWord (.ofList w)).Canonical := by
  unfold ofWord
  split
  · trivial
  next hqualifier =>
    split_ifs with hopen hclose hcomma hstars
    · trivial
    · trivial
    · trivial
    · show 1 ≤ (String.ofList w).length
      rw [String.length_ofList]
      exact List.length_pos_iff.mpr h.ne_nil
    · have hne : String.ofList w ≠ "" := by simpa using h.ne_nil
      have hstar : ∃ c ∈ w, c ≠ '*' := by simpa [hne] using hstars
      refine ⟨hne, by simpa using h.unblank, hqualifier, hopen, hclose, hcomma,
        by simpa using hstar, ?_⟩
      rw [String.toList_ofList]
      apply h.unsplit.imp
      intro a b hab
      simpa [starsAfterName] using hab

end Token

/-- The spellings of tokens with single spaces between them. -/
def spelling (tokens : List Token) : String := " ".intercalate (tokens.map Token.text)

theorem canonical_of_mem_tokensOf {s : List Char} {t : Token} (ht : t ∈ tokensOf s) :
    t.Canonical := by
  obtain ⟨w, hw, rfl⟩ := List.mem_map.mp ht
  exact Token.canonical_ofWord (isWord_of_mem_words hw)

theorem flatMap_text_tokensOf (s : List Char) :
    (tokensOf s).flatMap (·.text.toList) = s.filter (!isBlank ·) := by
  have htext (w : List Char) : (Token.ofWord (.ofList w)).text.toList = w := by
    rw [Token.text_ofWord, String.toList_ofList]
  rw [tokensOf, List.flatMap_map]
  simp only [htext]
  rw [List.flatMap_id', flatten_words, filter_spaced]

theorem tokensOf_text {t : Token} (h : t.Canonical) : tokensOf t.text.toList = [t] := by
  rw [(Token.isWord_text h).tokensOf, String.ofList_toList, Token.ofWord_text h]

theorem typeTokens_spelling {tokens : List Token} (h : ∀ t ∈ tokens, t.Canonical) :
    typeTokens (spelling tokens) = tokens := by
  induction tokens with
  | nil => rfl
  | cons t tokens ih =>
    obtain ⟨ht, htokens⟩ := List.forall_mem_cons.mp h
    have hrest := ih htokens
    cases tokens with
    | nil => simpa [typeTokens, spelling] using tokensOf_text ht
    | cons next tokens =>
      have hcons : (spelling (t :: next :: tokens)).toList =
          t.text.toList ++ ' ' :: (spelling (next :: tokens)).toList := by
        simp [spelling]
      rw [typeTokens, hcons, tokensOf_append_space, tokensOf_text ht]
      exact congrArg (t :: ·) hrest

/-- Reading a type loses nothing but blanks, and it undoes spelling: the tokens of a type spell its
characters, they are canonical, and exactly the lists of canonical tokens are read off their own
spellings. -/
theorem typeTokens_inverts_spelling (type : String) (tokens : List Token) :
    String.join ((typeTokens type).map Token.text) = .ofList (type.toList.filter (!isBlank ·)) ∧
    (∀ t ∈ typeTokens type, t.Canonical) ∧
    typeTokens (spelling (typeTokens type)) = typeTokens type ∧
    (typeTokens (spelling tokens) = tokens ↔ ∀ t ∈ tokens, t.Canonical) := by
  have hcanonical (type : String) : ∀ t ∈ typeTokens type, t.Canonical := fun _ =>
    canonical_of_mem_tokensOf
  refine ⟨?_, hcanonical type, typeTokens_spelling (hcanonical type), ?_, typeTokens_spelling⟩
  · apply String.toList_inj.mp
    rw [String.toList_join, List.flatMap_map, String.toList_ofList]
    exact flatMap_text_tokensOf type.toList
  · intro h
    rw [← h]
    exact hcanonical (spelling tokens)

theorem typeTokens_inverts_spelling_glued :
    let tokens := [Token.qualifier .const, .name "(*x", .stars 2, .name "\x7bint", .stars 1, .comma]
    (∀ t ∈ tokens, t.Canonical) ∧ typeTokens "const (*x ** \x7bint * ," = tokens ∧
      String.join (tokens.map Token.text) = "const(*x**\x7bint*," ∧
      ¬(Token.name "int*").Canonical := by
  intro tokens
  obtain ⟨hjoin, hcanonical, -, hiff⟩ :=
    typeTokens_inverts_spelling " const\t(*x** \x7bint*  ," tokens
  have htokens : typeTokens " const\t(*x** \x7bint*  ," = tokens := by decide +kernel
  rw [htokens] at hjoin hcanonical
  have hspelling : spelling tokens = "const (*x ** \x7bint * ," := by decide +kernel
  rw [hspelling] at hiff
  exact ⟨hcanonical, hiff.mpr hcanonical, hjoin.trans (by decide +kernel), by decide +kernel⟩

end DecompConfig
