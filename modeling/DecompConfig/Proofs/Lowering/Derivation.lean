import DecompConfig.Proofs.Lowering.Unfolding

namespace DecompConfig.Lowering

variable {σ : Type} {find? : String → Option Aggregate} {depth : Nat}
  {expand : String → Run σ LoweringError String}

theorem yields_lowerParts_cons_iff {p : Part} {ps : List Part} {s : σ} {out : String}
    {names : List String} :
    (lowerParts expand (p :: ps) s).Yields out names ↔ ∃ text qs rest rs,
      (lowerPart expand p s).Yields text qs ∧
      (lowerParts expand ps (lowerPart expand p s).state).Yields rest rs ∧
      out = text ++ rest ∧ names = qs ++ rs := by
  rw [lowerParts_cons]
  exact Run.yields_both_iff

theorem yields_lowerMembers_cons_iff {m : String} {ms : List String} {s : σ} {texts : List String}
    {names : List String} :
    (lowerMembers expand (m :: ms) s).Yields texts names ↔ ∃ text qs rest rs,
      (lowerParts expand (parts false (memberTokens m)) s).Yields text qs ∧
      (lowerMembers expand ms (lowerParts expand (parts false (memberTokens m)) s).state).Yields
        rest rs ∧
      texts = text :: rest ∧ names = qs ++ rs := by
  rw [lowerMembers_cons]
  exact Run.yields_both_iff

section Soundness

/-- What `expand` makes of a name is an unfolding of it. -/
def Sound (find? : String → Option Aggregate) (depth : Nat)
    (expand : String → Run σ LoweringError String) : Prop :=
  ∀ name s text names, Primitive.ofWord? name = none → (expand name s).Yields text names →
    Unfolds find? depth [.name name] text names

theorem unfolds_mark {t : Token} {ts : List Token} {p : Part} {ps : List Part}
    (qs : List Qualifier) (hqualifier : t.isQualifier = false) (hname : t.isName = false)
    (hp : lowerPart expand p = pure t.text)
    (hrest : ∀ s out names, (lowerParts expand ps s).Yields out names →
      Unfolds find? depth ts out names) {s : σ} {out : String} {names : List String}
    (h : (lowerParts expand (signPart (qs.any Qualifier.isSign) ++ p :: ps) s).Yields out names) :
    Unfolds find? depth (qs.map .qualifier ++ t :: ts) out names := by
  rw [lowerParts_signPart_append, Outcome.yields_map_iff] at h
  obtain ⟨out, h, rfl⟩ := h
  rw [lowerParts_text expand hp, Outcome.yields_map_iff] at h
  obtain ⟨rest, h, rfl⟩ := h
  refine .mark_qualifiers qs ?_ (.copied hqualifier hname (hrest s rest names h))
  intro t' ht'
  cases ht'
  exact ⟨hqualifier, hname⟩

/-- What the parts of a token list, read behind the qualifiers `qs`, come to is an unfolding of the
tokens with these qualifiers. -/
theorem unfolds_of_yields (hexpand : Sound find? depth expand) {pendingSign : Bool}
    {ts : List Token} (qs : List Qualifier) (hqs : pendingSign = qs.any Qualifier.isSign) {s : σ}
    {out : String} {names : List String}
    (h : (lowerParts expand (parts pendingSign ts) s).Yields out names) :
    Unfolds find? depth (qs.map .qualifier ++ ts) out names := by
  fun_induction parts pendingSign ts generalizing qs s out names with
  | case1 b =>
    subst hqs
    rw [← List.append_nil (signPart _), lowerParts_signPart_append, Outcome.yields_map_iff] at h
    obtain ⟨rest, h, rfl⟩ := h
    rw [lowerParts_nil, Run.yields_pure_iff] at h
    obtain ⟨rfl, rfl⟩ := h
    exact .mark_qualifiers qs (by simp) .nil
  | case2 b q ts ih =>
    -- The qualifier waits behind those before it for the token that ends them.
    have happend := ih (qs ++ [q]) (by simp [hqs]) h
    simpa using happend
  | case3 b word ts p hword ih =>
    rw [lowerParts_text expand rfl, Outcome.yields_map_iff] at h
    obtain ⟨rest, h, rfl⟩ := h
    obtain ⟨run, happ, hrun, hlongest⟩ := p.exists_longest_munch ts
    have hspelling := Unfolds.primitive hword hrun hlongest (ih [] rfl h)
    rw [happ] at hspelling
    exact hspelling.drop_qualifiers qs (by simp [Token.isQualifier])
      (.inr ⟨.name word, rfl, rfl⟩)
  | case4 b word ts hword ih =>
    obtain ⟨text, inner, rest, outer, hname, hrest, rfl, rfl⟩ := yields_lowerParts_cons_iff.mp h
    have hunfold := Unfolds.cons_name hword (hexpand word s text inner hword hname) (ih [] rfl hrest)
    exact hunfold.drop_qualifiers qs (by simp [Token.isQualifier]) (.inr ⟨.name word, rfl, rfl⟩)
  | case5 b count ts ih =>
    subst hqs
    exact unfolds_mark qs rfl rfl rfl (fun s out names => ih [] rfl) h
  | case6 b ts ih =>
    subst hqs
    exact unfolds_mark qs rfl rfl rfl (fun s out names => ih [] rfl) h
  | case7 b ts ih =>
    subst hqs
    exact unfolds_mark qs rfl rfl rfl (fun s out names => ih [] rfl) h
  | case8 b ts ih =>
    subst hqs
    exact unfolds_mark qs rfl rfl rfl (fun s out names => ih [] rfl) h

theorem exists_unfoldedMembers (hexpand : Sound find? depth expand) {declarations : List String}
    {s : σ} {texts names : List String}
    (h : (lowerMembers expand declarations s).Yields texts names) :
    ∃ members : List UnfoldedMember, members.map (·.declaration) = declarations ∧
      (∀ m ∈ members, Unfolds find? depth (memberTokens m.declaration) m.text m.names) ∧
      members.map (·.text) = texts ∧ members.flatMap (·.names) = names := by
  induction declarations generalizing s texts names with
  | nil =>
    rw [lowerMembers_nil, Run.yields_pure_iff] at h
    obtain ⟨rfl, rfl⟩ := h
    exact ⟨[], by simp⟩
  | cons declaration declarations ih =>
    obtain ⟨text, qs, rest, rs, hfirst, hrest, rfl, rfl⟩ := yields_lowerMembers_cons_iff.mp h
    obtain ⟨members, rfl, hmembers, rfl, rfl⟩ := ih hrest
    refine ⟨⟨declaration, text, qs⟩ :: members, rfl, ?_, rfl, rfl⟩
    intro m hm
    rcases List.mem_cons.mp hm with rfl | hm
    · exact unfolds_of_yields hexpand [] rfl hfirst
    · exact hmembers m hm

end Soundness

section Completeness

/-- Each unfolding of a name is what `expand` makes of it. -/
def Complete (find? : String → Option Aggregate) (depth : Nat)
    (expand : String → Run σ LoweringError String) : Prop :=
  ∀ name s text names, Primitive.ofWord? name = none →
    Unfolds find? depth [.name name] text names → (expand name s).Yields text names

theorem exists_part_of_mark {t : Token} (hqualifier : t.isQualifier = false)
    (hname : t.isName = false) :
    ∃ p, (∀ expand : String → Run σ LoweringError String, lowerPart expand p = pure t.text) ∧
      ∀ ts, parts false (t :: ts) = p :: parts false ts := by
  cases t with
  | qualifier q => simp [Token.isQualifier] at hqualifier
  | name word => simp [Token.isName] at hname
  | stars count => exact ⟨.stars count, fun _ => rfl, fun _ => by simp [parts, signPart]⟩
  | openBrace => exact ⟨.openBrace, fun _ => rfl, fun _ => by simp [parts, signPart]⟩
  | closeBrace => exact ⟨.closeBrace, fun _ => rfl, fun _ => by simp [parts, signPart]⟩
  | comma => exact ⟨.comma, fun _ => rfl, fun _ => by simp [parts, signPart]⟩

theorem yields_of_unfolds (hexpand : Complete find? depth expand) {ts : List Token} {out : String}
    {names : List String} (h : Unfolds find? depth ts out names) (s : σ) :
    (lowerParts expand (parts false ts) s).Yields out names := by
  induction h generalizing s with
  | nil =>
    rw [parts, signPart, if_neg Bool.false_ne_true, lowerParts_nil, Run.yields_pure_iff]
    exact ⟨rfl, rfl⟩
  | @qualifiers depth q qs ts out names _ hfree _ ih =>
    have hparts : parts false (.qualifier q :: (qs.map .qualifier ++ ts)) = parts false ts := by
      rw [← List.cons_append, ← List.map_cons, parts_qualifiers_append, Bool.false_or]
      rcases hfree with hfree | hword
      · rw [hfree]
      · exact parts_of_head_isName hword _
    rw [hparts]
    exact ih hexpand s
  | @sign depth q qs ts out names hhead hsign _ ih =>
    have hparts : parts false (.qualifier q :: (qs.map .qualifier ++ ts)) =
        .primitive .i32 :: parts false ts := by
      rw [← List.cons_append, ← List.map_cons, parts_qualifiers_append, Bool.false_or, hsign]
      exact parts_true_of_dangling hhead
    rw [hparts, lowerParts_text expand rfl, Outcome.yields_map_iff]
    exact ⟨out, ih hexpand s, rfl⟩
  | @primitive depth word p q run ts out names hword hrun hlongest _ ih =>
    rw [parts_of_spelling hword hrun hlongest, lowerParts_text expand rfl, Outcome.yields_map_iff]
    exact ⟨out, ih hexpand s, rfl⟩
  | @copied depth t ts out names hqualifier hname _ ih =>
    obtain ⟨p, hp, hparts⟩ := exists_part_of_mark hqualifier hname
    rw [hparts, lowerParts_text expand (hp expand), Outcome.yields_map_iff]
    exact ⟨out, ih hexpand s, rfl⟩
  | @aggregate depth name ts out names members hname hdef hmembers _ _ ih =>
    have hparts : parts false (.name name :: ts) = .aggregate name :: parts false ts := by
      simp only [parts, hname]
    have hone := Unfolds.of_members hname hdef hmembers
    rw [hparts, ← braced_eq]
    exact yields_lowerParts_cons_iff.mpr
      ⟨_, _, _, _, hexpand name s _ _ hname hone, ih hexpand _, rfl, rfl⟩

theorem yields_of_members (hexpand : Complete find? depth expand) {members : List UnfoldedMember}
    (h : ∀ m ∈ members, Unfolds find? depth (memberTokens m.declaration) m.text m.names) (s : σ) :
    (lowerMembers expand (members.map (·.declaration)) s).Yields (members.map (·.text))
      (members.flatMap (·.names)) := by
  induction members generalizing s with
  | nil => exact Run.yields_pure_iff.mpr ⟨rfl, rfl⟩
  | cons m members ih =>
    have hfirst := yields_of_unfolds hexpand (h m List.mem_cons_self) s
    have hrest := ih fun m hm => h m (List.mem_cons_of_mem _ hm)
    exact yields_lowerMembers_cons_iff.mpr ⟨_, _, _, _, hfirst, hrest _, rfl, rfl⟩

end Completeness

end DecompConfig.Lowering
