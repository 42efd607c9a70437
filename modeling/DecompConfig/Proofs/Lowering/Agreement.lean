import DecompConfig.Proofs.Lowering.Expansion

namespace DecompConfig

variable {σ τ ε α α' β β' : Type}

/-- The two outcomes have the same result and the same queries. -/
def Outcome.Same (o : Outcome σ ε α) (o' : Outcome τ ε α) : Prop :=
  o.result = o'.result ∧ o.queries = o'.queries

namespace Run

/-- From whatever states they begin in, `y` asks what `x` asks and comes to the same error or to a
related value, if `x` asks for nothing but names that satisfy `known`. -/
def Agrees (known : String → Prop) (R : α → β → Prop) (x : Run σ ε α) (y : Run τ ε β) : Prop :=
  ∀ s t, (∀ q ∈ (x s).queries, known q) → (x s).queries = (y t).queries ∧
    ((∃ e, (x s).result = .error e ∧ (y t).result = .error e) ∨
      ∃ a b, (x s).result = .ok a ∧ (y t).result = .ok b ∧ R a b)

namespace Agrees

variable {known : String → Prop} {R : α → β → Prop} {S : α' → β' → Prop} {x : Run σ ε α}
  {y : Run τ ε β}

theorem pure {a : α} {b : β} (h : R a b) :
    Agrees known R (Pure.pure a : Run σ ε α) (Pure.pure b : Run τ ε β) :=
  fun _ _ _ => ⟨rfl, .inr ⟨a, b, rfl, rfl, h⟩⟩

theorem fail (e : ε) : Agrees known R (.fail e : Run σ ε α) (.fail e : Run τ ε β) :=
  fun _ _ _ => ⟨rfl, .inl ⟨e, rfl, rfl⟩⟩

theorem bind {f : α → Run σ ε α'} {g : β → Run τ ε β'} (hx : x.Agrees known R y)
    (hf : ∀ a b, R a b → (f a).Agrees known S (g b)) : (x >>= f).Agrees known S (y >>= g) := by
  intro s t hknown
  have hsplit : (∀ q ∈ (x s).queries, known q) ∧
      ∀ a, (x s).result = .ok a → ∀ q ∈ (f a (x s).state).queries, known q := by
    cases h : (x s).result with
    | error e =>
      rw [bind_of_error h] at hknown
      exact ⟨hknown, nofun⟩
    | ok a =>
      rw [bind_of_ok h, Outcome.queries_after] at hknown
      obtain ⟨hfirst, hrest⟩ := List.forall_mem_append.mp hknown
      refine ⟨hfirst, fun b hb => ?_⟩
      obtain rfl := Except.ok.inj hb
      exact hrest
  obtain ⟨hqueries, ⟨e, he, he'⟩ | ⟨a, b, ha, hb, hab⟩⟩ := hx s t hsplit.1
  · rw [bind_of_error he, bind_of_error he']
    exact ⟨hqueries, .inl ⟨e, rfl, rfl⟩⟩
  · obtain ⟨hmore, hresult⟩ := hf a b hab (x s).state (y t).state (hsplit.2 a ha)
    rw [bind_of_ok ha, bind_of_ok hb, Outcome.queries_after, Outcome.queries_after, ← hmore]
    exact ⟨congrArg (· ++ _) hqueries, hresult⟩

theorem compatible (known : String → Prop) :
    Compatible fun (α : Type) (x : Run σ ε α) (y : Run τ ε α) => x.Agrees known Eq y where
  pure _ := pure rfl
  bind hx hf := hx.bind fun a _ h => h ▸ hf a

theorem same {x : Run σ ε α} {y : Run τ ε α} (h : x.Agrees known Eq y) {s : σ}
    (hknown : ∀ q ∈ (x s).queries, known q) (t : τ) : (x s).Same (y t) := by
  obtain ⟨hqueries, ⟨e, he, he'⟩ | ⟨a, b, ha, hb, rfl⟩⟩ := h s t hknown
  · exact ⟨he.trans he'.symm, hqueries⟩
  · exact ⟨ha.trans hb.symm, hqueries⟩

end Agrees

end Run

/-- The answers are a function of the name. -/
def Oracle.DeterminedBy (oracle : Oracle σ)
    (answer : String → Except LoweringError (Option Aggregate)) : Prop :=
  ∀ name s, (oracle name s).1.definition = answer name

namespace Lowering

/-- What a definition tells about the types of the members, without their declared names. -/
def memberTypes (aggregate? : Option Aggregate) : Option (List (List Token)) :=
  aggregate?.map fun aggregate => aggregate.members.map memberTokens

/-- The oracles tell the same types of members for all names that satisfy `known`. -/
def AlikeOn (known : String → Prop) (oracle : Oracle σ) (oracle' : Oracle τ) : Prop :=
  ∀ name, known name → ∀ s t, (oracle name s).1.definition.map memberTypes =
    (oracle' name t).1.definition.map memberTypes

theorem lowerMembers_congr {members others : List String}
    (h : members.map memberTokens = others.map memberTokens)
    (expand : String → Run σ LoweringError String) :
    lowerMembers expand members = lowerMembers expand others := by
  induction members generalizing others with
  | nil =>
    obtain rfl : others = [] := by simpa using h.symm
    rfl
  | cons m members ih =>
    cases others with
    | nil => simp at h
    | cons other others =>
      obtain ⟨hfirst, hrest⟩ := List.cons_eq_cons.mp h
      rw [lowerMembers_cons, lowerMembers_cons, ih hrest, hfirst]

variable {oracle : Oracle σ} {oracle' : Oracle τ} {known : String → Prop}

theorem error_or_ok_of_map_eq {d d' : Except ε α} {f : α → β} (h : d.map f = d'.map f) :
    (∃ e, d = .error e ∧ d' = .error e) ∨ ∃ a b, d = .ok a ∧ d' = .ok b ∧ f a = f b := by
  cases d <;> cases d' <;> simp_all [Except.map]

theorem agrees_ask (h : AlikeOn known oracle oracle') (name : String) :
    (oracle.ask name).Agrees known (fun a b => memberTypes a = memberTypes b)
      (oracle'.ask name) := by
  intro s t hknown
  have hqueries : (oracle.ask name s).queries = [name] := oracle.queries_events name s
  have hqueries' : (oracle'.ask name t).queries = [name] := oracle'.queries_events name t
  rw [hqueries] at hknown
  have heq := h name (hknown name List.mem_cons_self) s t
  exact ⟨hqueries.trans hqueries'.symm, error_or_ok_of_map_eq heq⟩

theorem agrees_expand (h : AlikeOn known oracle oracle') (limit room : Nat) (path : List String)
    (name : String) :
    (Lowering.expand oracle limit room path name).Agrees known Eq
      (Lowering.expand oracle' limit room path name) := by
  induction room generalizing path name with
  | zero =>
    by_cases hmem : name ∈ path
    · rw [expand_of_mem hmem, expand_of_mem hmem]
      exact .fail _
    · rw [Lowering.expand, Lowering.expand, if_neg hmem, if_neg hmem]
      exact .fail _
  | succ room ih =>
    by_cases hmem : name ∈ path
    · rw [expand_of_mem hmem, expand_of_mem hmem]
      exact .fail _
    · simp only [Lowering.expand, if_neg hmem]
      refine (agrees_ask h name).bind fun a b hab => ?_
      cases a with
      | none =>
        obtain rfl : b = none := by simpa [memberTypes] using hab.symm
        exact .fail _
      | some aggregate =>
        obtain ⟨other, rfl, hother⟩ : ∃ other, b = some other ∧
            other.members.map memberTokens = aggregate.members.map memberTokens := by
          simpa [memberTypes] using hab.symm
        -- Both runs read the members of `aggregate`: those of `other` come to the same tokens.
        have hinside := lowerMembers_compatible (Run.Agrees.compatible known)
          (ih (path ++ [name])) aggregate.members
        have hmembers :=
          lowerMembers_congr hother (Lowering.expand oracle' limit room (path ++ [name]))
        rw [← hmembers] at hinside
        exact hinside.bind fun texts texts' htexts => .pure (by rw [htexts])

/-- Where oracles are alike on the names that one is asked for, both come to the same. -/
theorem agrees_lowerTokens (h : AlikeOn known oracle oracle') (depth : Nat) (tokens : List Token) :
    (lowerTokens oracle depth tokens).Agrees known Eq (lowerTokens oracle' depth tokens) :=
  lowerParts_compatible (Run.Agrees.compatible known) (agrees_expand h depth depth []) _

/-- As each question of the first run is answered alike, the second run asks no other. -/
theorem same_of_eq_on_queries {answer answer' : String → Except LoweringError (Option Aggregate)}
    (horacle : oracle.DeterminedBy answer) (horacle' : oracle'.DeterminedBy answer')
    {depth : Nat} {tokens : List Token} {s : σ}
    (h : ∀ q ∈ (lowerTokens oracle depth tokens s).queries, answer q = answer' q) (t : τ) :
    (lowerTokens oracle depth tokens s).Same (lowerTokens oracle' depth tokens t) := by
  have hagrees : (lowerTokens oracle depth tokens).Agrees (fun q => answer q = answer' q) Eq
      (lowerTokens oracle' depth tokens) := by
    apply agrees_lowerTokens
    intro name hname s t
    rw [horacle name s, horacle' name t, hname]
  exact hagrees.same h t

end Lowering

end DecompConfig
