import DecompConfig.Proofs.Lowering.Agreement
import DecompConfig.Proofs.Lowering.Unfolding
import DecompConfig.Proofs.Token.Spelling

namespace DecompConfig

open Text

variable {σ τ : Type}

/-- A word that is the declared name wherever it ends a declaration that has a type before it. -/
structure IsDeclaredName (word : String) : Prop where
  ne_empty : word ≠ ""
  unblank : ∀ c ∈ word.toList, isBlank c = false
  unstarred : '*' ∉ word.toList
  not_primitive : Primitive.ofWord? word = none
  not_qualifier : Qualifier.ofWord? word = none
  not_mark : word ≠ "\x7b" ∧ word ≠ "\x7d" ∧ word ≠ ","

/-- A declaration is made of a type and a name, which may touch the stars that end the type. -/
inductive Declares (type declaration : String) : Prop where
  | apart {word} (heq : declaration = type ++ " " ++ word) (hword : IsDeclaredName word)
      (htype : (declarationTokens type).any Token.isTypeWord = true)
  | touching {word} (heq : declaration = type ++ word) (hword : IsDeclaredName word)
      (hstar : type.toList.getLast? = some '*')
      (hfirst : ∃ c ∈ word.toList.head?, isWordChar c = true)

theorem isChain_of_forall_mem {α : Type} {R : α → α → Prop} {l : List α}
    (h : ∀ a ∈ l, ∀ b ∈ l, R a b) : l.IsChain R := by
  apply List.isChain_iff_forall_rel_of_append_cons_cons.mpr
  rintro a b before after rfl
  exact h a (by simp) b (by simp)

theorem dropDeclarator_append {tokens : List Token} (htype : tokens.any Token.isTypeWord = true)
    {word : String} (hword : Primitive.ofWord? word = none) :
    dropDeclarator (tokens ++ [.name word]) = tokens := by
  have hdeclarator : (Token.name word).isDeclarator = true := by simp [Token.isDeclarator, hword]
  simp [dropDeclarator, hdeclarator, htype]

/-- Stars give a type. -/
theorem any_isTypeWord_of_star {declaration : String} (h : '*' ∈ declaration.toList) :
    (declarationTokens declaration).any Token.isTypeWord = true := by
  have hblank : isBlank '*' = false := by decide
  have hmem : '*' ∈ (declarationTokens declaration).flatMap (·.text.toList) := by
    rw [declarationTokens, flatMap_text_tokensOf, filter_spaced]
    exact List.mem_filter.mpr ⟨h, by rw [hblank]; rfl⟩
  obtain ⟨t, ht, hstar⟩ := List.mem_flatMap.mp hmem
  refine List.any_eq_true.mpr ⟨t, ht, ?_⟩
  cases t with
  | name word => rfl
  | stars count => rfl
  | qualifier q => exact absurd hstar (by cases q <;> decide)
  | _ => exact absurd hstar (by decide)

namespace IsDeclaredName

variable {word : String}

theorem spaced_eq_self (h : IsDeclaredName word) :
    spaced nameAfterStars word.toList = word.toList := by
  apply DecompConfig.spaced_eq_self
  apply isChain_of_forall_mem
  intro a ha b _
  have hne : a ≠ '*' := fun heq => h.unstarred (heq ▸ ha)
  simp [nameAfterStars, hne]

theorem canonical (h : IsDeclaredName word) : (Token.name word).Canonical := by
  obtain ⟨hopen, hclose, hcomma⟩ := h.not_mark
  have hstar : ∃ c ∈ word.toList, c ≠ '*' := by
    obtain ⟨c, hc⟩ := List.exists_mem_of_ne_nil word.toList (by simpa using h.ne_empty)
    exact ⟨c, hc, fun heq => h.unstarred (heq ▸ hc)⟩
  refine ⟨h.ne_empty, h.unblank, h.not_qualifier, hopen, hclose, hcomma, hstar, ?_⟩
  apply isChain_of_forall_mem
  intro a _ b hb hab
  exact h.unstarred (hab.2 ▸ hb)

instance : DecidablePred IsDeclaredName := fun word =>
  decidable_of_iff ((Token.name word).Canonical ∧ '*' ∉ word.toList ∧
      Primitive.ofWord? word = none)
    ⟨fun ⟨⟨hne, hblank, hqualifier, hopen, hclose, hcomma, _⟩, hstar, hprimitive⟩ =>
      ⟨hne, hblank, hstar, hprimitive, hqualifier, hopen, hclose, hcomma⟩,
    fun h => ⟨h.canonical, h.unstarred, h.not_primitive⟩⟩

theorem tokensOf_eq (h : IsDeclaredName word) : tokensOf word.toList = [.name word] := by
  have htext := tokensOf_text h.canonical
  rwa [Token.text] at htext

end IsDeclaredName

/-- What is left of a declaration without its name are the tokens of its type. -/
theorem memberTokens_of_declares {type declaration : String} (h : Declares type declaration) :
    memberTokens declaration = declarationTokens type := by
  -- With or without a space between them, type and name are spaced apart and read by themselves.
  have hdrop {word : String} (hword : IsDeclaredName word)
      (htype : (declarationTokens type).any Token.isTypeWord = true) {declaration : String}
      (hspaced : spaced nameAfterStars declaration.toList =
        spaced nameAfterStars type.toList ++ ' ' :: spaced nameAfterStars word.toList) :
      memberTokens declaration = declarationTokens type := by
    rw [memberTokens, hspaced, tokensOf_append_space, hword.spaced_eq_self, hword.tokensOf_eq]
    exact dropDeclarator_append htype hword.not_primitive
  cases h with
  | @apart word heq hword htype =>
    apply hdrop hword htype
    have hlist : declaration.toList = type.toList ++ ' ' :: word.toList := by simp [heq]
    rw [hlist, spaced_append_space sparesSpace_nameAfterStars]
  | @touching word heq hword hstar hfirst =>
    obtain ⟨c, hc, hchar⟩ := hfirst
    apply hdrop hword (any_isTypeWord_of_star (List.mem_of_getLast? hstar))
    have hapart : nameAfterStars '*' c = true := by simp [nameAfterStars, hchar]
    rw [heq, String.toList_append, spaced_append hstar hc, if_pos hapart]

/-- The aggregates differ in nothing but the declared names of their members. -/
def Renamed (aggregate other : Aggregate) : Prop :=
  List.Forall₂ (fun member member' => ∃ type, Declares type member ∧ Declares type member')
    aggregate.members other.members

namespace Lowering

theorem memberTypes_eq_of_renamed {aggregate? other? : Option Aggregate}
    (h : Option.Rel Renamed aggregate? other?) : memberTypes aggregate? = memberTypes other? := by
  have hmap {members others : List String} (h : List.Forall₂ (fun member member' =>
      ∃ type, Declares type member ∧ Declares type member') members others) :
      members.map memberTokens = others.map memberTokens := by
    induction h with
    | nil => rfl
    | cons hfirst _ ih =>
      obtain ⟨type, hdeclares, hdeclares'⟩ := hfirst
      rw [List.map_cons, List.map_cons, ih, memberTokens_of_declares hdeclares,
        memberTokens_of_declares hdeclares']
  cases h with
  | none => rfl
  | some h => simp [memberTypes, hmap h]

/-- The declared names of members do not matter: where two oracles answer with definitions that differ
in these names only, every type comes to the same result with the same queries, be it an error. -/
theorem lowerType_renamed {oracle : Oracle σ} {oracle' : Oracle τ}
    {find? find?' : String → Option Aggregate} (horacle : oracle.AnswersBy find?)
    (horacle' : oracle'.AnswersBy find?')
    (hrenamed : ∀ name, Option.Rel Renamed (find? name) (find?' name)) (depth : Nat)
    (type : String) (s : σ) (t : τ) :
    (lowerType oracle depth type s).Same (lowerType oracle' depth type t) := by
  have hagrees : (lowerType oracle depth type).Agrees (fun _ => True) Eq
      (lowerType oracle' depth type) := by
    apply agrees_lowerTokens
    intro name _ s t
    have htypes := memberTypes_eq_of_renamed (hrenamed name)
    rw [horacle name s, horacle' name t, Except.map, Except.map, htypes]
  exact hagrees.same (fun _ _ => trivial) t

def ring : String → Option Aggregate
  | "ring" => some ⟨["unsigned size", "struct ring *next"]⟩
  | _ => none

def renamedRing : String → Option Aggregate
  | "ring" => some ⟨["unsigned n[2]", "struct ring * _r"]⟩
  | _ => none

theorem renamed_ring (name : String) : Option.Rel Renamed (ring name) (renamedRing name) := by
  have hword : ∀ word ∈ ["size", "n[2]", "next", "_r"], IsDeclaredName word := by decide +kernel
  have hunsigned : (declarationTokens "unsigned").any Token.isTypeWord = true := by decide +kernel
  have hring : (declarationTokens "struct ring *").any Token.isTypeWord = true := by decide +kernel
  have hfirst : isWordChar 'n' = true := by decide
  unfold ring renamedRing
  split
  · refine .some (.cons ⟨"unsigned", ?_, ?_⟩ (.cons ⟨"struct ring *", ?_, ?_⟩ .nil))
    · exact .apart (by decide) (hword "size" (by simp)) hunsigned
    · exact .apart (by decide) (hword "n[2]" (by simp)) hunsigned
    · exact .touching (by decide) (hword "next" (by simp)) (by decide) ⟨'n', by decide, hfirst⟩
    · exact .apart (by decide) (hword "_r" (by simp)) hring
  · exact .none

theorem lowerType_renamed_ring :
    (∀ name, Option.Rel Renamed (ring name) (renamedRing name)) ∧
    (lowerType (.ofFun ring) 3 "struct ring" ()).Same
      (lowerType (.ofFun renamedRing) 3 "struct ring" ()) ∧
    (lowerType (.ofFun renamedRing) 3 "struct ring" ()).failure? =
      some (.cyclic "ring" ["ring", "ring"]) := by
  have hring : (Oracle.ofFun ring : Oracle Unit).AnswersBy ring := fun _ _ => rfl
  have hrenamed : (Oracle.ofFun renamedRing : Oracle Unit).AnswersBy renamedRing := fun _ _ => rfl
  refine ⟨renamed_ring, ?_, by decide +kernel⟩
  exact lowerType_renamed hring hrenamed renamed_ring 3 "struct ring" () ()

end Lowering

end DecompConfig
