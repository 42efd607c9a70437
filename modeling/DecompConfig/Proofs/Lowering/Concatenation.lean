import DecompConfig.Proofs.Lowering.Expansion
import DecompConfig.Proofs.Token.Spacing

namespace DecompConfig

open Text

/-- Stars and punctuation marks: no spelling goes on behind them, and no sign keyword waits in front of
them. -/
def Token.isMark : Token → Bool
  | .stars _ | .openBrace | .closeBrace | .comma => true
  | .qualifier _ | .name _ => false

/-- One of the token lists is empty or has a mark where they meet. -/
def Detached (before after : List Token) : Prop :=
  (∀ t ∈ before.getLast?, t.isMark = true) ∨ ∀ t ∈ after.head?, t.isMark = true

instance (before after : List Token) : Decidable (Detached before after) :=
  inferInstanceAs (Decidable (_ ∨ _))

section Parts

variable {t : Token}

theorem parts_append_of_isMark (h : t.isMark = true) (before after : List Token) :
    parts false (before ++ t :: after) = parts false before ++ parts false (t :: after) := by
  apply parts_append_mark
  · cases t <;> first | rfl | cases h
  · cases t <;> first | rfl | cases h

theorem parts_cons_of_isMark (h : t.isMark = true) (after : List Token) :
    parts false (t :: after) = parts false [t] ++ parts false after := by
  cases t with
  | qualifier q => cases h
  | name word => cases h
  | _ => simp [parts, signPart]

theorem parts_append_of_detached {before after : List Token} (h : Detached before after) :
    parts false (before ++ after) = parts false before ++ parts false after := by
  have hnil : parts false [] = [] := by simp [parts, signPart]
  rcases h with hbefore | hafter
  · cases hlast : before.getLast? with
    | none =>
      obtain rfl := List.getLast?_eq_none_iff.mp hlast
      rw [hnil, List.nil_append, List.nil_append]
    | some t =>
      have ht := hbefore t hlast
      obtain ⟨before, rfl⟩ := List.getLast?_eq_some_iff.mp hlast
      rw [List.append_assoc, List.singleton_append, parts_append_of_isMark ht,
        parts_cons_of_isMark ht, ← List.append_assoc, ← parts_append_of_isMark ht]
  · cases after with
    | nil => rw [hnil, List.append_nil, List.append_nil]
    | cons t after => exact parts_append_of_isMark (hafter t rfl) before after

end Parts

/-- Stars behind a word or a blank are a token of their own. -/
theorem typeTokens_append_stars {type : String} {count : Nat}
    (h : ∀ c ∈ type.toList.getLast?, isWordChar c = true ∨ isBlank c = true) (hcount : 1 ≤ count) :
    typeTokens (type ++ (Token.stars count).text) = typeTokens type ++ [.stars count] := by
  have hcanonical : (Token.stars count).Canonical := hcount
  rw [typeTokens, String.toList_append, tokensOf_append, tokensOf_text hcanonical]
  · rfl
  · intro a ha b hb
    have hstar : b = '*' := by
      rw [Token.text, String.toList_ofList] at hb
      exact List.eq_of_mem_replicate (List.mem_of_mem_head? hb)
    rcases h a ha with hword | hblank
    · exact .inr (.inr (by simp [starsAfterName, hword, hstar]))
    · exact .inl hblank

namespace Lowering

variable {σ : Type}

theorem lowerTokens_append {before after : List Token} (h : Detached before after)
    (oracle : Oracle σ) (depth : Nat) :
    lowerTokens oracle depth (before ++ after) = lowerTokens oracle depth before >>= fun a =>
      lowerTokens oracle depth after >>= fun b => pure (a ++ b) := by
  rw [lowerTokens, parts_append_of_detached h, lowerParts_append]
  rfl

theorem lowerTokens_append_of_error {before after : List Token} (h : Detached before after)
    {oracle : Oracle σ} {depth : Nat} {s : σ} {e : LoweringError}
    (he : (lowerTokens oracle depth before s).result = .error e) :
    lowerTokens oracle depth (before ++ after) s = ⟨.error e,
      (lowerTokens oracle depth before s).state, (lowerTokens oracle depth before s).events⟩ := by
  rw [lowerTokens_append h, Run.bind_of_error he]

theorem lowerTokens_append_of_ok {before after : List Token} (h : Detached before after)
    {oracle : Oracle σ} {depth : Nat} {s : σ} {a : String}
    (ha : (lowerTokens oracle depth before s).result = .ok a) :
    lowerTokens oracle depth (before ++ after) s =
      ((lowerTokens oracle depth after (lowerTokens oracle depth before s).state).map (a ++ ·)).after
        (lowerTokens oracle depth before s).events := by
  rw [lowerTokens_append h, Run.bind_of_ok ha, Run.bind_pure_apply]

theorem lowerTokens_append_stars (oracle : Oracle σ) (depth : Nat) (tokens : List Token)
    (count : Nat) (s : σ) : lowerTokens oracle depth (tokens ++ [.stars count]) s =
      (lowerTokens oracle depth tokens s).map (· ++ (Token.stars count).text) := by
  have hstars : lowerTokens oracle depth [.stars count] = pure (Token.stars count).text := by
    rw [lowerTokens]
    simp [parts, signPart, lowerParts_singleton, lowerPart]
  rw [lowerTokens_append (.inr (by simp [Token.isMark])), hstars]
  simp only [pure_bind]
  exact Run.bind_pure_apply _ _ s

theorem lowerType_append_stars (oracle : Oracle σ) (depth : Nat) {type : String}
    (h : ∀ c ∈ type.toList.getLast?, isWordChar c = true ∨ isBlank c = true) (count : Nat) (s : σ) :
    lowerType oracle depth (type ++ (Token.stars count).text) s =
      (lowerType oracle depth type s).map (· ++ (Token.stars count).text) := by
  cases count with
  | zero =>
    have hnone : (Token.stars 0).text = "" := rfl
    simp [hnone]
  | succ count =>
    rw [lowerType, typeTokens_append_stars h (Nat.succ_le_succ (Nat.zero_le count)),
      lowerTokens_append_stars]
    rfl

/-- Lowering goes through a token list from left to right, so that lists that meet at a mark are
lowered one after the other: their encodings and their queries are joined, and the first error is the
error of the whole. In particular stars at the end of a type are appended to its encoding. -/
theorem lowerTokens_concatenates (oracle : Oracle σ) (depth : Nat) (s : σ) :
    (∀ before after, Detached before after →
      let first := lowerTokens oracle depth before s
      let second := lowerTokens oracle depth after first.state
      let whole := lowerTokens oracle depth (before ++ after) s
      (∀ e, first.result = .error e →
        whole.result = .error e ∧ whole.queries = first.queries ∧ whole.state = first.state) ∧
      ∀ a, first.result = .ok a →
        (∀ b, second.result = .ok b → whole.result = .ok (a ++ b)) ∧
        (∀ e, second.result = .error e → whole.result = .error e) ∧
        whole.queries = first.queries ++ second.queries ∧ whole.state = second.state) ∧
    (∀ tokens count, lowerTokens oracle depth (tokens ++ [.stars count]) s =
      (lowerTokens oracle depth tokens s).map (· ++ .ofList (List.replicate count '*'))) ∧
    ∀ type : String, (∀ c ∈ type.toList.getLast?, isWordChar c = true ∨ isBlank c = true) →
      ∀ count, lowerType oracle depth (type ++ .ofList (List.replicate count '*')) s =
        (lowerType oracle depth type s).map (· ++ .ofList (List.replicate count '*')) := by
  refine ⟨?_, fun tokens count => lowerTokens_append_stars oracle depth tokens count s,
    fun type htype count => lowerType_append_stars oracle depth htype count s⟩
  intro before after hdetached first second whole
  constructor
  · intro e he
    have hwhole : whole = ⟨.error e, first.state, first.events⟩ :=
      lowerTokens_append_of_error hdetached he
    rw [hwhole]
    exact ⟨rfl, rfl, rfl⟩
  · intro a ha
    have hwhole : whole = (second.map (a ++ ·)).after first.events :=
      lowerTokens_append_of_ok hdetached ha
    rw [hwhole]
    refine ⟨fun b hb => ?_, fun e he => ?_, ?_, rfl⟩
    · exact Outcome.result_map_eq_ok_iff.mpr ⟨b, hb, rfl⟩
    · exact Outcome.result_map_eq_error_iff.mpr he
    · rw [Outcome.queries_after, Outcome.queries_map]
      rfl

/-- Every aggregate has as many members as questions were asked before. -/
def growing : Oracle Nat := fun _ asked =>
  (⟨.ok (some ⟨List.replicate asked "int"⟩), none⟩, asked + 1)

theorem lowerTokens_concatenates_growing :
    let before := [Token.name "p", .qualifier .unsigned, .comma]
    let after := [Token.qualifier .signed, .name "p", .qualifier .unsigned]
    let whole := lowerTokens growing 1 (before ++ after) 0
    Detached before after ∧ whole.result = .ok "\x7b\x7di32,\x7bi32\x7di32" ∧
    whole.queries = ["p", "p"] ∧
    (lowerTokens growing 1 (before ++ [.stars 2]) 0).value? = some "\x7b\x7di32,**" ∧
    (lowerType growing 1 "unsigned \t**" 0).value? = some "i32**" := by
  intro before after whole
  let first := lowerTokens growing 1 before 0
  have hdetached : Detached before after := .inl (by decide)
  obtain ⟨hjoin, hstars, htype⟩ := lowerTokens_concatenates growing 1 0
  have hfirst : first.value? = some "\x7b\x7di32," := by decide +kernel
  have hsecond : (lowerTokens growing 1 after first.state).value? = some "\x7bi32\x7di32" := by
    decide +kernel
  obtain ⟨hok, -, hqueries, -⟩ :=
    (hjoin before after hdetached).2 _ (Outcome.value?_eq_some_iff.mp hfirst)
  have hasked : first.queries ++ (lowerTokens growing 1 after first.state).queries = ["p", "p"] := by
    decide +kernel
  refine ⟨hdetached, hok _ (Outcome.value?_eq_some_iff.mp hsecond), hqueries.trans hasked, ?_, ?_⟩
  · rw [hstars before 2]
    decide +kernel
  · have htext : "unsigned \t**" = "unsigned \t" ++ .ofList (List.replicate 2 '*') := by decide
    have hlast : ∀ c ∈ "unsigned \t".toList.getLast?, isWordChar c = true ∨ isBlank c = true := by
      rintro _ ⟨⟩
      decide
    rw [htext, htype _ hlast 2]
    decide +kernel

end Lowering

end DecompConfig
