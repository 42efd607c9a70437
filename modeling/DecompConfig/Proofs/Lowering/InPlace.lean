import DecompConfig.Proofs.Lowering.Refinement

namespace DecompConfig

variable {σ : Type} {oracle : Oracle σ} {find? : String → Option Aggregate}

/-- An aggregate as the types of its members between braces. -/
def Aggregate.writtenOut (aggregate : Aggregate) : List Token :=
  .openBrace :: [.comma].intercalate (aggregate.members.map memberTokens) ++ [.closeBrace]

theorem parts_intercalate_comma (types : List (List Token)) :
    parts false ([.comma].intercalate types) = [.comma].intercalate (types.map (parts false)) := by
  induction types with
  | nil => simp [parts, signPart]
  | cons type types ih =>
    cases types with
    | nil => simp
    | cons next types =>
      have hcomma (rest : List Token) : parts false (.comma :: rest) = .comma :: parts false rest := by
        simp [parts, signPart]
      rw [List.intercalate_cons_cons, List.append_assoc, List.singleton_append,
        parts_append_mark false type _ rfl rfl, hcomma, ih]
      simp [List.intercalate_cons_cons]

/-- What an aggregate that is written out is read as, between any other tokens. -/
theorem parts_writtenOut (before after : List Token) (aggregate : Aggregate) :
    parts false (before ++ aggregate.writtenOut ++ after) =
      parts false before ++ .openBrace :: ([.comma].intercalate
        (aggregate.members.map fun member => parts false (memberTokens member)) ++
        .closeBrace :: parts false after) := by
  have hopen (rest : List Token) :
      parts false (.openBrace :: rest) = .openBrace :: parts false rest := by
    simp [parts, signPart]
  have hclose : parts false (.closeBrace :: after) = .closeBrace :: parts false after := by
    simp [parts, signPart]
  rw [Aggregate.writtenOut, List.append_assoc, List.cons_append, List.cons_append,
    parts_append_mark false before _ rfl rfl, hopen, List.append_assoc, List.singleton_append,
    parts_append_mark false _ after rfl rfl, hclose, parts_intercalate_comma, List.map_map]
  rfl

namespace Lowering

section Around

variable (expand : String → Run σ LoweringError String)

/-- Types with commas between them come to what the members with these types come to. -/
theorem lowerParts_intercalate_comma (members : List String) :
    lowerParts expand
        ([.comma].intercalate (members.map fun member => parts false (memberTokens member))) =
      lowerMembers expand members >>= fun texts => pure (commaSeparated texts) := by
  induction members with
  | nil => rfl
  | cons member members ih =>
    cases members with
    | nil =>
      simp only [List.map_cons, List.map_nil, List.intercalate_singleton, lowerMembers_cons,
        lowerMembers_nil, pure_bind, bind_assoc, commaSeparated, bind_pure]
    | cons next members =>
      have hcomma : lowerParts expand [.comma] = pure "," := lowerParts_singleton expand .comma
      rw [List.map_cons] at ih ⊢
      rw [List.map_cons, List.intercalate_cons_cons, lowerParts_append, lowerParts_append, hcomma, ih]
      simp only [lowerMembers_cons, bind_assoc, pure_bind, commaSeparated]

/-- The encodings of the tokens on both sides of `x`, around its own. -/
def around (expand : String → Run σ LoweringError String) (before after : List Token)
    (x : Run σ LoweringError String) : Run σ LoweringError String := do
  let a ← lowerParts expand (parts false before)
  let b ← x
  let c ← lowerParts expand (parts false after)
  return a ++ (b ++ c)

theorem lowerParts_named {before : List Token}
    (hlast : ∀ t ∈ before.getLast?, t.isQualifier = false) {name : String}
    (hname : Primitive.ofWord? name = none) (after : List Token) :
    lowerParts expand (parts false (before ++ [.name name] ++ after)) =
      around expand before after (expand name) := by
  have hpart : lowerPart expand (.aggregate name) = expand name := rfl
  rw [List.append_assoc, List.singleton_append, parts_append_aggregate hlast hname,
    lowerParts_append, lowerParts_cons, hpart]
  simp only [around, bind_assoc, pure_bind]

theorem lowerParts_writtenOut (before after : List Token) (aggregate : Aggregate) :
    lowerParts expand (parts false (before ++ aggregate.writtenOut ++ after)) =
      around expand before after
        (lowerMembers expand aggregate.members >>= fun texts => pure (braced texts)) := by
  have hopen : lowerPart expand .openBrace = pure "\x7b" := rfl
  have hclose : lowerPart expand .closeBrace = pure "\x7d" := rfl
  rw [parts_writtenOut, lowerParts_append, lowerParts_cons, lowerParts_append, lowerParts_cons,
    lowerParts_intercalate_comma, hopen, hclose]
  simp only [around, bind_assoc, pure_bind, braced, String.append_assoc]

variable {expand}

theorem yields_around_iff {before after : List Token} {x : Run σ LoweringError String} {s : σ}
    {out : String} {names : List String} :
    let first := lowerParts expand (parts false before) s
    (around expand before after x s).Yields out names ↔ ∃ a qs b rs c us,
      first.Yields a qs ∧ (x first.state).Yields b rs ∧
      (lowerParts expand (parts false after) (x first.state).state).Yields c us ∧
      out = a ++ (b ++ c) ∧ names = qs ++ (rs ++ us) := by
  intro first
  rw [around, Run.yields_bind_iff]
  constructor
  · intro h
    obtain ⟨a, qs, more, ha, hrest, rfl⟩ := h
    obtain ⟨b, rs, c, us, hb, hc, rfl, rfl⟩ := Run.yields_both_iff.mp hrest
    exact ⟨a, qs, b, rs, c, us, ha, hb, hc, rfl, rfl⟩
  · intro h
    obtain ⟨a, qs, b, rs, c, us, ha, hb, hc, rfl, rfl⟩ := h
    exact ⟨a, qs, rs ++ us, ha, Run.yields_both_iff.mpr ⟨b, rs, c, us, hb, hc, rfl, rfl⟩, rfl⟩

end Around

section Pure

variable {depth : Nat} (horacle : oracle.AnswersBy find?)

include horacle

theorem yields_in_any_state {ts : List Token} {s : σ} {out : String} {names : List String}
    (h : (lowerTokens oracle depth ts s).Yields out names) (t : σ) :
    (lowerTokens oracle depth ts t).Yields out names := by
  have hunfolds := unfolds_of_yields (sound_expand horacle depth depth []) [] rfl h
  have hcomplete := complete_expand horacle depth (Nat.le_refl depth) [] (by simp)
  exact yields_of_unfolds hcomplete hunfolds t

/-- What an aggregate is expanded to consists of what its members come to outside of it, where one more
aggregate may be open and the aggregate itself is not. -/
theorem exists_members_of_expand {name : String} {aggregate : Aggregate}
    (hdef : find? name = some aggregate) {s : σ} {text : String} {names : List String}
    (h : (expand oracle depth depth [] name s).Yields text names) :
    ∃ texts more, text = braced texts ∧ names = name :: more ∧
      ∀ t, (lowerMembers (expand oracle depth depth []) aggregate.members t).Yields texts more := by
  cases expansion oracle depth depth [] name s with
  | cyclic hmem => simp at hmem
  | tooDeep _ _ heq => simp [heq, Outcome.Yields] at h
  | refused _ _ _ heq => simp [heq, Outcome.Yields] at h
  | unresolved _ _ _ heq => simp [heq, Outcome.Yields] at h
  | @opened inner answered _ hdepth hanswer heq =>
    obtain rfl : answered = aggregate := by
      rw [horacle name s, hdef] at hanswer
      exact (Option.some.inj (Except.ok.inj hanswer)).symm
    rw [heq, Outcome.yields_after_iff, Oracle.queries_events] at h
    obtain ⟨more, h, rfl⟩ := h
    obtain ⟨texts, hinside, rfl⟩ := Outcome.yields_map_iff.mp h
    have hsound := sound_expand horacle depth inner ([] ++ [name])
    obtain ⟨members, hdeclarations, hmembers, rfl, rfl⟩ := exists_unfoldedMembers hsound hinside
    have hcomplete := complete_expand horacle depth (Nat.le_refl depth) [] (by simp)
    have houtside : ∀ m ∈ members, Unfolds find? depth (memberTokens m.declaration) m.text m.names :=
      fun m hm => (hmembers m hm).mono (by omega)
    refine ⟨_, _, rfl, rfl, fun t => ?_⟩
    rw [← hdeclarations]
    exact yields_of_members hcomplete houtside t

/-- An aggregate may be named or written out in place. Where a token list with its name has an
encoding, the list with the types of its members between braces has the same one, and the oracle is
asked the same questions but for the one about the name. -/
theorem lowerTokens_writtenOut_of_named {name : String} (hname : Primitive.ofWord? name = none)
    {aggregate : Aggregate} (hdef : find? name = some aggregate) {before : List Token}
    (hlast : ∀ t ∈ before.getLast?, t.isQualifier = false) (after : List Token) (s : σ)
    {out : String}
    (h : (lowerTokens oracle depth (before ++ [.name name] ++ after) s).result = .ok out) :
    let named := lowerTokens oracle depth (before ++ [.name name] ++ after) s
    let written := lowerTokens oracle depth (before ++ aggregate.writtenOut ++ after) s
    written.result = .ok out ∧
    ∃ earlier later, named.queries = earlier ++ name :: later ∧ written.queries = earlier ++ later := by
  intro named written
  have hnamed : (around (expand oracle depth depth []) before after
      (expand oracle depth depth [] name) s).Yields out named.queries := by
    rw [← lowerParts_named _ hlast hname]
    exact ⟨h, rfl⟩
  obtain ⟨a, qs, b, rs, c, us, ha, hb, hc, rfl, hqueries⟩ := yields_around_iff.mp hnamed
  obtain ⟨texts, more, rfl, rfl, hmembers⟩ := exists_members_of_expand horacle hdef hb
  have hinside (t : σ) : ((lowerMembers (expand oracle depth depth []) aggregate.members >>=
      fun texts => pure (braced texts)) t).Yields (braced texts) more := by
    rw [Run.bind_pure_apply, Outcome.yields_map_iff]
    exact ⟨texts, hmembers t, rfl⟩
  have hwritten : written.Yields (a ++ (braced texts ++ c)) (qs ++ (more ++ us)) := by
    show (lowerParts _ (parts false (before ++ aggregate.writtenOut ++ after)) s).Yields _ _
    rw [lowerParts_writtenOut]
    have hafter := yields_in_any_state horacle hc
    exact yields_around_iff.mpr ⟨a, qs, _, more, c, us, ha, hinside _, hafter _, rfl, rfl⟩
  exact ⟨hwritten.1, qs, more ++ us, hqueries, hwritten.2⟩

end Pure

/-- An aggregate whose members end in a waiting sign keyword and in a spelling that could go on. -/
def unfinished : String → Option Aggregate
  | "pair" => some ⟨["unsigned", "pair_part *rest", "long"]⟩
  | "pair_part" => some ⟨[]⟩
  | _ => none

theorem lowerTokens_writtenOut_of_named_pair :
    (lowerTokens (.ofFun unfinished) 2
      ([.qualifier .unsigned, .stars 1] ++ [.name "pair"] ++ [.name "int"]) ()).result =
        .ok "i32*\x7bi32,\x7b\x7d*,i64\x7di32" ∧
    (lowerTokens (.ofFun unfinished) 2 ([.qualifier .unsigned, .stars 1] ++
      [.openBrace, .qualifier .unsigned, .comma, .name "pair_part", .stars 1, .comma, .name "long",
        .closeBrace] ++ [.name "int"]) ()).result =
      .ok "i32*\x7bi32,\x7b\x7d*,i64\x7di32" := by
  have horacle : (Oracle.ofFun unfinished : Oracle Unit).AnswersBy unfinished := fun _ _ => rfl
  have hname : Primitive.ofWord? "pair" = none := by decide
  have hlast : ∀ t ∈ [Token.qualifier .unsigned, .stars 1].getLast?, t.isQualifier = false := by
    simp [Token.isQualifier]
  have hvalue : (lowerTokens (.ofFun unfinished) 2
      ([.qualifier .unsigned, .stars 1] ++ [.name "pair"] ++ [.name "int"]) ()).value? =
      some "i32*\x7bi32,\x7b\x7d*,i64\x7di32" := by decide +kernel
  have hnamed := Outcome.value?_eq_some_iff.mp hvalue
  have hwritten := lowerTokens_writtenOut_of_named horacle hname rfl hlast [.name "int"] () hnamed
  have htokens : Aggregate.writtenOut ⟨["unsigned", "pair_part *rest", "long"]⟩ =
      [.openBrace, .qualifier .unsigned, .comma, .name "pair_part", .stars 1, .comma, .name "long",
        .closeBrace] := by decide +kernel
  rw [htokens] at hwritten
  exact ⟨hnamed, hwritten.1⟩

end Lowering

end DecompConfig
