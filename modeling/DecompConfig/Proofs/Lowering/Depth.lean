import DecompConfig.Proofs.Lowering.Expansion

namespace DecompConfig

variable {σ α β : Type}

/-- The outcome `o` is what the limit `depth` leaves of `whole`: the same, or an earlier end at an
aggregate that is nested too deeply. -/
def Outcome.CutAt (depth : Nat) (o whole : Outcome σ LoweringError α) : Prop :=
  o = whole ∨ (∃ name, o.result = .error (.tooDeep name depth)) ∧ o.events <+: whole.events

namespace Run

def CutAt (depth : Nat) (x whole : Run σ LoweringError α) : Prop :=
  ∀ s, (x s).CutAt depth (whole s)

namespace CutAt

variable {depth : Nat}

theorem refl (x : Run σ LoweringError α) : x.CutAt depth x := fun _ => .inl rfl

theorem bind {x whole : Run σ LoweringError α} {f g : α → Run σ LoweringError β}
    (hx : x.CutAt depth whole) (hf : ∀ a, (f a).CutAt depth (g a)) :
    (x >>= f).CutAt depth (whole >>= g) := by
  intro s
  rcases hx s with heq | ⟨⟨name, herror⟩, hbegins⟩
  · cases hresult : (whole s).result with
    | error e =>
      left
      rw [bind_of_error (heq ▸ hresult), bind_of_error hresult, heq]
    | ok a =>
      rw [bind_of_ok (heq ▸ hresult), bind_of_ok hresult, heq]
      rcases hf a (whole s).state with hsame | ⟨herror, hbegins⟩
      · exact .inl (by rw [hsame])
      · exact .inr ⟨herror, (List.prefix_append_right_inj _).mpr hbegins⟩
  · right
    rw [bind_of_error herror]
    refine ⟨⟨name, rfl⟩, ?_⟩
    cases hresult : (whole s).result with
    | error e => rw [bind_of_error hresult]; exact hbegins
    | ok a => rw [bind_of_ok hresult]; exact hbegins.trans (List.prefix_append _ _)

theorem compatible (depth : Nat) :
    Compatible fun (α : Type) (x whole : Run σ LoweringError α) => x.CutAt depth whole where
  pure _ := refl _
  bind := bind

end CutAt

end Run

namespace Lowering

theorem cutAt_expand (oracle : Oracle σ) (depth depth' : Nat) {room room' : Nat}
    (hle : room ≤ room') (path : List String) (name : String) :
    (Lowering.expand oracle depth room path name).CutAt depth
      (Lowering.expand oracle depth' room' path name) := by
  induction room generalizing room' path name with
  | zero =>
    by_cases hmem : name ∈ path
    · rw [expand_of_mem hmem, expand_of_mem hmem]
      exact .refl _
    · intro s
      rw [Lowering.expand, if_neg hmem]
      exact .inr ⟨⟨name, rfl⟩, List.nil_prefix⟩
  | succ room ih =>
    obtain ⟨room', rfl⟩ : ∃ k, room' = k + 1 := ⟨room' - 1, by omega⟩
    by_cases hmem : name ∈ path
    · rw [expand_of_mem hmem, expand_of_mem hmem]
      exact .refl _
    · simp only [Lowering.expand, if_neg hmem]
      refine .bind (.refl _) fun definition => ?_
      cases definition with
      | none => exact .refl _
      | some aggregate =>
        have hle' : room ≤ room' := Nat.le_of_succ_le_succ hle
        have hinside := lowerMembers_compatible (Run.CutAt.compatible depth)
          (ih hle' (path ++ [name])) aggregate.members
        exact .bind hinside fun texts => .refl _

/-- A smaller limit only cuts a run short. -/
theorem cutAt_lowerTokens (oracle : Oracle σ) {depth depth' : Nat} (hle : depth ≤ depth')
    (tokens : List Token) :
    (lowerTokens oracle depth tokens).CutAt depth (lowerTokens oracle depth' tokens) :=
  lowerParts_compatible (Run.CutAt.compatible depth)
    (fun name => cutAt_expand oracle depth depth' hle [] name) _

/-- The limit cuts runs short and changes nothing else: the questions under a smaller limit are the
first of those under a larger one, and unless the run ends at an aggregate that is nested too deeply,
result and questions are the same. So is the state in which the oracle is left. -/
theorem lowerTokens_depth_mono (oracle : Oracle σ) (tokens : List Token) (s : σ)
    {depth depth' : Nat} (hle : depth ≤ depth') :
    let cut := lowerTokens oracle depth tokens s
    let whole := lowerTokens oracle depth' tokens s
    cut.queries <+: whole.queries ∧
    ((cut.result = whole.result ∧ cut.queries = whole.queries ∧ cut.state = whole.state) ∨
      ∃ name, cut.result = .error (.tooDeep name depth)) ∧
    ∀ out, cut.result = .ok out →
      whole.result = .ok out ∧ whole.queries = cut.queries ∧ whole.state = cut.state := by
  intro cut whole
  have hcut : cut.CutAt depth whole := cutAt_lowerTokens oracle hle tokens s
  rcases hcut with heq | ⟨⟨name, herror⟩, hbegins⟩
  · refine ⟨heq ▸ List.prefix_rfl, .inl (by simp [heq]), ?_⟩
    intro out hout
    exact ⟨heq ▸ hout, by rw [heq], by rw [heq]⟩
  · have hqueries : cut.queries <+: whole.queries := hbegins.filterMap Event.query?
    refine ⟨hqueries, .inr ⟨name, herror⟩, ?_⟩
    intro out hout
    rw [herror] at hout
    cases hout

/-- Answers the questions with the aggregates of a chain, whatever the names. -/
def chain : Oracle Nat := fun _ asked =>
  let aggregate : Aggregate :=
    match asked with
    | 0 => ⟨["int i", "second s"]⟩
    | 1 => ⟨["third t", "char c"]⟩
    | _ => ⟨["long l"]⟩
  (⟨.ok (some aggregate), none⟩, asked + 1)

theorem lowerTokens_depth_mono_chain :
    (lowerTokens chain 2 [.name "first"] 0).failure? = some (.tooDeep "third" 2) ∧
    (lowerTokens chain 2 [.name "first"] 0).queries <+: ["first", "second", "third"] ∧
    (lowerTokens chain 9 [.name "first"] 0).result = .ok "\x7bi32,\x7b\x7bi64\x7d,i8\x7d\x7d" := by
  obtain ⟨hbegins, -, -⟩ := lowerTokens_depth_mono chain [.name "first"] 0 (by decide : 2 ≤ 3)
  obtain ⟨-, -, hok⟩ := lowerTokens_depth_mono chain [.name "first"] 0 (by decide : 3 ≤ 9)
  have hwhole : (lowerTokens chain 3 [.name "first"] 0).queries = ["first", "second", "third"] := by
    decide +kernel
  have hvalue : (lowerTokens chain 3 [.name "first"] 0).value? =
      some "\x7bi32,\x7b\x7bi64\x7d,i8\x7d\x7d" := by decide +kernel
  refine ⟨by decide +kernel, hwhole ▸ hbegins, ?_⟩
  exact (hok _ (Outcome.value?_eq_some_iff.mp hvalue)).1

end Lowering

end DecompConfig
