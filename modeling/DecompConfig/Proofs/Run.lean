import DecompConfig.Run

namespace DecompConfig

variable {σ ε α β γ : Type}

namespace Outcome

def failure? (o : Outcome σ ε α) : Option ε :=
  match o.result with
  | .ok _ => none
  | .error e => some e

def value? (o : Outcome σ ε α) : Option α :=
  match o.result with
  | .ok a => some a
  | .error _ => none

/-- A success with the value `a`, on the way to which the oracle was asked for `names`. -/
def Yields (o : Outcome σ ε α) (a : α) (names : List String) : Prop :=
  o.result = .ok a ∧ o.queries = names

def map (f : α → β) (o : Outcome σ ε α) : Outcome σ ε β := ⟨o.result.map f, o.state, o.events⟩

/-- The outcome of a run that has `events` behind it. -/
def after (events : List Event) (o : Outcome σ ε α) : Outcome σ ε α :=
  ⟨o.result, o.state, events ++ o.events⟩

@[simp] theorem map_id_fun (o : Outcome σ ε α) : (o.map fun a => a) = o := by
  obtain ⟨result, state, events⟩ := o
  cases result <;> rfl

theorem failure?_eq_none_iff {o : Outcome σ ε α} : o.failure? = none ↔ ∃ a, o.result = .ok a := by
  cases h : o.result <;> simp [failure?, h]

theorem failure?_eq_some_iff {o : Outcome σ ε α} {e : ε} :
    o.failure? = some e ↔ o.result = .error e := by
  cases h : o.result <;> simp [failure?, h]

theorem value?_eq_some_iff {o : Outcome σ ε α} {a : α} : o.value? = some a ↔ o.result = .ok a := by
  cases h : o.result <;> simp [value?, h]

@[simp] theorem failure?_map (f : α → β) (o : Outcome σ ε α) : (o.map f).failure? = o.failure? := by
  cases h : o.result <;> simp [failure?, map, Except.map, h]

@[simp] theorem failure?_after (events : List Event) (o : Outcome σ ε α) :
    (o.after events).failure? = o.failure? := rfl

@[simp] theorem queries_map (f : α → β) (o : Outcome σ ε α) : (o.map f).queries = o.queries := rfl

@[simp] theorem state_map (f : α → β) (o : Outcome σ ε α) : (o.map f).state = o.state := rfl

@[simp] theorem result_after (events : List Event) (o : Outcome σ ε α) :
    (o.after events).result = o.result := rfl

@[simp] theorem state_after (events : List Event) (o : Outcome σ ε α) :
    (o.after events).state = o.state := rfl

theorem after_append (before events : List Event) (o : Outcome σ ε α) :
    o.after (before ++ events) = (o.after events).after before := by
  simp [after]

@[simp] theorem queries_after (events : List Event) (o : Outcome σ ε α) :
    (o.after events).queries = events.filterMap Event.query? ++ o.queries := by
  simp [queries, after]

theorem result_map_eq_ok_iff {f : α → β} {o : Outcome σ ε α} {b : β} :
    (o.map f).result = .ok b ↔ ∃ a, o.result = .ok a ∧ f a = b := by
  cases h : o.result <;> simp [map, Except.map, h]

theorem result_map_eq_error_iff {f : α → β} {o : Outcome σ ε α} {e : ε} :
    (o.map f).result = .error e ↔ o.result = .error e := by
  cases h : o.result <;> simp [map, Except.map, h]

theorem yields_map_iff {f : α → β} {o : Outcome σ ε α} {b : β} {names : List String} :
    (o.map f).Yields b names ↔ ∃ a, o.Yields a names ∧ f a = b := by
  rw [Yields, result_map_eq_ok_iff, queries_map]
  constructor
  · intro h
    obtain ⟨⟨a, ha, hb⟩, hnames⟩ := h
    exact ⟨a, ⟨ha, hnames⟩, hb⟩
  · intro h
    obtain ⟨a, ⟨ha, hnames⟩, hb⟩ := h
    exact ⟨⟨a, ha, hb⟩, hnames⟩

theorem yields_after_iff {events : List Event} {o : Outcome σ ε α} {a : α} {names : List String} :
    (o.after events).Yields a names ↔
      ∃ more, o.Yields a more ∧ names = events.filterMap Event.query? ++ more := by
  rw [Yields, result_after, queries_after]
  constructor
  · intro h
    obtain ⟨ha, hnames⟩ := h
    exact ⟨o.queries, ⟨ha, rfl⟩, hnames.symm⟩
  · intro h
    obtain ⟨more, ⟨ha, hmore⟩, hnames⟩ := h
    exact ⟨ha, by rw [hmore, hnames]⟩

end Outcome

namespace Run

theorem pure_apply (a : α) (s : σ) : (pure a : Run σ ε α) s = ⟨.ok a, s, []⟩ := rfl

theorem bind_of_ok {x : Run σ ε α} {s : σ} {a : α} (h : (x s).result = .ok a)
    (f : α → Run σ ε β) : (x >>= f) s = (f a (x s).state).after (x s).events := by
  show Run.bind x f s = _
  simp [Run.bind, h, Outcome.after]

theorem bind_of_error {x : Run σ ε α} {s : σ} {e : ε} (h : (x s).result = .error e)
    (f : α → Run σ ε β) : (x >>= f) s = ⟨.error e, (x s).state, (x s).events⟩ := by
  show Run.bind x f s = _
  simp [Run.bind, h]

theorem bind_pure_apply (x : Run σ ε α) (f : α → β) (s : σ) :
    (x >>= fun a => pure (f a)) s = (x s).map f := by
  cases h : (x s).result with
  | ok a => simp [bind_of_ok h, pure_apply, Outcome.after, Outcome.map, Except.map, h]
  | error e => simp [bind_of_error h, Outcome.map, Except.map, h]

theorem yields_pure_iff {a b : α} {s : σ} {names : List String} :
    ((pure a : Run σ ε α) s).Yields b names ↔ a = b ∧ names = [] := by
  simp [pure_apply, Outcome.Yields, Outcome.queries, eq_comm]

theorem yields_bind_iff {x : Run σ ε α} {f : α → Run σ ε β} {s : σ} {b : β} {names : List String} :
    ((x >>= f) s).Yields b names ↔ ∃ a qs rs,
      (x s).Yields a qs ∧ (f a (x s).state).Yields b rs ∧ names = qs ++ rs := by
  cases h : (x s).result with
  | ok a =>
    rw [bind_of_ok h, Outcome.yields_after_iff]
    constructor
    · intro hrest
      obtain ⟨rs, hrs, hnames⟩ := hrest
      exact ⟨a, (x s).queries, rs, ⟨h, rfl⟩, hrs, hnames⟩
    · intro hboth
      obtain ⟨a', qs, rs, ⟨ha, rfl⟩, hrs, hnames⟩ := hboth
      have heq : a = a' := by simpa [h] using ha
      subst heq
      exact ⟨rs, hrs, hnames⟩
  | error e => simp [bind_of_error h, Outcome.Yields, h]

theorem yields_both_iff {x : Run σ ε α} {y : Run σ ε β} {f : α → β → γ} {s : σ} {c : γ}
    {names : List String} :
    ((x >>= fun a => y >>= fun b => pure (f a b)) s).Yields c names ↔ ∃ a qs b rs,
      (x s).Yields a qs ∧ (y (x s).state).Yields b rs ∧ c = f a b ∧ names = qs ++ rs := by
  rw [yields_bind_iff]
  simp only [bind_pure_apply, Outcome.yields_map_iff]
  constructor
  · intro h
    obtain ⟨a, qs, rs, ha, ⟨b, hb, hc⟩, hnames⟩ := h
    exact ⟨a, qs, b, rs, ha, hb, hc.symm, hnames⟩
  · intro h
    obtain ⟨a, qs, b, rs, ha, hb, hc, hnames⟩ := h
    exact ⟨a, qs, rs, ha, ⟨b, hb, hc.symm⟩, hnames⟩

/-- The outcomes of runs that are begun one after the other, whether or not those before them fail. -/
def outcomes : List (Run σ ε α) → σ → List (Outcome σ ε α)
  | [], _ => []
  | x :: xs, s => x s :: outcomes xs (x s).state

/-- The state that such runs leave behind. -/
def leaves : List (Run σ ε α) → σ → σ
  | [], s => s
  | x :: xs, s => leaves xs (x s).state

theorem getElem?_outcomes (xs : List (Run σ ε α)) (s : σ) (i : Nat) :
    (outcomes xs s)[i]? = xs[i]?.map fun x => x (leaves (xs.take i) s) := by
  induction xs generalizing s i with
  | nil => rfl
  | cons x xs ih =>
    cases i with
    | zero => rfl
    | succ i => exact ih _ i

theorem each_apply (xs : List (Run σ ε α)) (s : σ) :
    (each xs : Run σ γ _) s = ⟨.ok ((outcomes xs s).map (·.result)), leaves xs s,
      (outcomes xs s).flatMap (·.events)⟩ := by
  induction xs generalizing s with
  | nil => rfl
  | cons x xs ih =>
    have hfirst : ((x.attempt : Run σ γ _) s).result = .ok (x s).result := rfl
    rw [each, bind_of_ok hfirst, bind_pure_apply]
    show Outcome.after (x s).events ((each xs (x s).state).map _) = _
    rw [ih]
    rfl

/-- A relation between runs, which may be over different states, that runs made of related runs are in
as well. -/
structure Compatible {τ : Type} (R : (α : Type) → Run σ ε α → Run τ ε α → Prop) : Prop where
  pure : ∀ {α} (a : α), R α (Pure.pure a) (Pure.pure a)
  bind : ∀ {α β} {x : Run σ ε α} {y : Run τ ε α} {f : α → Run σ ε β} {g : α → Run τ ε β},
    R α x y → (∀ a, R β (f a) (g a)) → R β (x >>= f) (y >>= g)

/-- A property of runs, seen as their first state, their queries, their error and their last state.
The empty run has it, and so has a run that is made of two runs that have it. -/
structure Composable (Φ : σ → List String → Option ε → σ → Prop) : Prop where
  empty : ∀ s, Φ s [] none s
  append : ∀ {s t u qs rs e}, Φ s qs none t → Φ t rs e u → Φ s (qs ++ rs) e u

/-- Every run of `x` has the property. -/
def Has (x : Run σ ε α) (Φ : σ → List String → Option ε → σ → Prop) : Prop :=
  ∀ s, Φ s (x s).queries (x s).failure? (x s).state

variable {Φ : σ → List String → Option ε → σ → Prop}

theorem Has.pure (hΦ : Composable Φ) (a : α) : (Pure.pure a : Run σ ε α).Has Φ := hΦ.empty

theorem Has.bind (hΦ : Composable Φ) {x : Run σ ε α} {f : α → Run σ ε β} (hx : x.Has Φ)
    (hf : ∀ a, (f a).Has Φ) : (x >>= f).Has Φ := by
  intro s
  have hs := hx s
  cases h : (x s).result with
  | ok a =>
    rw [Outcome.failure?_eq_none_iff.mpr ⟨a, h⟩] at hs
    rw [bind_of_ok h, Outcome.queries_after]
    exact hΦ.append hs (hf a _)
  | error e =>
    rw [Outcome.failure?_eq_some_iff.mpr h] at hs
    rw [bind_of_error h]
    exact hs

end Run

end DecompConfig
