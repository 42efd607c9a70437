import DecompConfig.Proofs.Lowering.Derivation

namespace DecompConfig.Lowering

variable {σ : Type} {oracle : Oracle σ} {find? : String → Option Aggregate}

theorem sound_expand (horacle : oracle.AnswersBy find?) (limit room : Nat) (path : List String) :
    Sound find? room (expand oracle limit room path) := by
  induction room using Nat.strongRecOn generalizing path with
  | ind room ih =>
    intro name s text names hname hyields
    cases expansion oracle limit room path name s with
    | cyclic _ heq => simp [heq, Outcome.Yields] at hyields
    | tooDeep _ _ heq => simp [heq, Outcome.Yields] at hyields
    | refused _ _ _ heq => simp [heq, Outcome.Yields] at hyields
    | unresolved _ _ _ heq => simp [heq, Outcome.Yields] at hyields
    | @opened inner aggregate _ hroom hanswer heq =>
      subst hroom
      rw [heq, Outcome.yields_after_iff] at hyields
      obtain ⟨more, hyields, rfl⟩ := hyields
      obtain ⟨texts, hinside, rfl⟩ := Outcome.yields_map_iff.mp hyields
      have hsound := ih inner (Nat.lt_succ_self inner) (path ++ [name])
      obtain ⟨members, hdeclarations, hmembers, rfl, rfl⟩ := exists_unfoldedMembers hsound hinside
      have hdef : find? name = some ⟨members.map (·.declaration)⟩ := by
        rw [horacle name s] at hanswer
        rw [hdeclarations]
        exact Except.ok.inj hanswer
      rw [Oracle.queries_events]
      exact .of_members hname hdef hmembers

section Uniqueness

/-- The unfolding of a name without a look at the aggregates around it. -/
def unfold (find? : String → Option Aggregate) : Nat → String → Run Unit LoweringError String
  | 0, name => .fail (.tooDeep name 0)
  | depth + 1, name =>
    match find? name with
    | none => .fail (.unresolved name)
    | some aggregate => do
      .emit (.asked name)
      return braced (← lowerMembers (unfold find? depth) aggregate.members)

theorem complete_unfold (find? : String → Option Aggregate) (depth : Nat) :
    Complete find? depth (unfold find? depth) := by
  induction depth with
  | zero =>
    intro name s text names hname hunfolds
    obtain ⟨inner, members, hdepth, -⟩ := hunfolds.exists_members hname
    cases hdepth
  | succ depth ih =>
    intro name s text names hname hunfolds
    obtain ⟨inner, members, hdepth, hdef, hmembers, rfl, rfl⟩ := hunfolds.exists_members hname
    obtain rfl : depth = inner := Nat.succ.inj hdepth
    have hinside := yields_of_members ih hmembers s
    simp only [unfold, hdef, Run.yields_bind_iff, Run.bind_pure_apply, Outcome.yields_map_iff]
    exact ⟨(), [name], _, ⟨rfl, rfl⟩, ⟨_, hinside, rfl⟩, rfl⟩

/-- A token list has one unfolding at most, whatever the depth. -/
theorem Unfolds.unique {depth depth' : Nat} {ts : List Token} {out out' : String}
    {names names' : List String} (h : Unfolds find? depth ts out names)
    (h' : Unfolds find? depth' ts out' names') : out = out' ∧ names = names' := by
  have hcomplete := complete_unfold find? (max depth depth')
  have hyields := yields_of_unfolds hcomplete (h.mono (Nat.le_max_left depth depth')) ()
  have hyields' := yields_of_unfolds hcomplete (h'.mono (Nat.le_max_right depth depth')) ()
  have hout := hyields.1.symm.trans hyields'.1
  exact ⟨Except.ok.inj hout, hyields.2.symm.trans hyields'.2⟩

end Uniqueness

/-- An aggregate opens at its own depth, at which no aggregate around it unfolds: it would unfold inside
itself at a smaller depth than its least. So none is met again while it is open. -/
theorem complete_expand (horacle : oracle.AnswersBy find?) (limit : Nat) {depth room : Nat}
    (hle : depth ≤ room) (path : List String)
    (hpath : ∀ outer ∈ path, ¬Unfoldable find? depth outer) :
    Complete find? depth (expand oracle limit room path) := by
  induction depth using Nat.strongRecOn generalizing room path with
  | ind depth ih =>
    intro name s text names hname hunfolds
    have hunfoldable : Unfoldable find? depth name := ⟨text, names, hunfolds⟩
    have hmem : name ∉ path := fun hmem => hpath name hmem hunfoldable
    -- Below its least depth `name` does not unfold, so that it can join the path.
    obtain ⟨least, hleast_le, ⟨text', names', hunfolds'⟩, hminimal⟩ := hunfoldable.exists_least
    obtain ⟨rfl, rfl⟩ := hunfolds.unique hunfolds'
    obtain ⟨inner, members, rfl, hdef, hmembers, rfl, rfl⟩ := hunfolds'.exists_members hname
    cases expansion oracle limit room path name s with
    | cyclic hmem' => exact absurd hmem' hmem
    | tooDeep _ hroom => omega
    | refused _ _ hanswer => simp [horacle name s] at hanswer
    | unresolved _ _ hanswer => simp [horacle name s, hdef] at hanswer
    | @opened room' aggregate _ hroom hanswer heq =>
      obtain rfl : aggregate = ⟨members.map (·.declaration)⟩ := by
        rw [horacle name s, hdef] at hanswer
        exact (Option.some.inj (Except.ok.inj hanswer)).symm
      have hpath' : ∀ outer ∈ path ++ [name], ¬Unfoldable find? inner outer := by
        intro outer houter
        rcases List.mem_append.mp houter with houter | houter
        · exact fun h => hpath outer houter (h.mono (by omega))
        · obtain rfl := List.mem_singleton.mp houter
          exact hminimal inner (Nat.lt_succ_self inner)
      have hcomplete : Complete find? inner (expand oracle limit room' (path ++ [name])) :=
        ih inner (by omega) (by omega) (path ++ [name]) hpath'
      have hinside := yields_of_members hcomplete hmembers (oracle name s).2
      rw [heq, Outcome.yields_after_iff, Oracle.queries_events]
      exact ⟨_, Outcome.yields_map_iff.mpr ⟨_, hinside, rfl⟩, rfl⟩

/-- Against an oracle whose answers depend on the name only, a run succeeds exactly with the unfolding
of its tokens, and it asks for the unfolded names in their order. Neither the check for cycles nor the
limit rejects what has an unfolding of that depth. -/
theorem unfolds_iff_lowerTokens (horacle : oracle.AnswersBy find?) (depth : Nat)
    (tokens : List Token) (s : σ) (out : String) (names : List String) :
    Unfolds find? depth tokens out names ↔
      (lowerTokens oracle depth tokens s).result = .ok out ∧
      (lowerTokens oracle depth tokens s).queries = names := by
  constructor
  · intro h
    have hcomplete := complete_expand horacle depth (Nat.le_refl depth) [] (by simp)
    exact yields_of_unfolds hcomplete h s
  · intro h
    exact unfolds_of_yields (sound_expand horacle depth depth []) [] rfl h

def geometry : String → Option Aggregate
  | "point" => some ⟨["int x", "int y"]⟩
  | "line" => some ⟨["struct point p", "point q"]⟩
  | _ => none

/-- Answers from `geometry` and counts what it is asked. -/
def countingGeometry : Oracle Nat := fun name asked => (⟨.ok (geometry name), none⟩, asked + 1)

theorem unfolds_line : countingGeometry.AnswersBy geometry ∧
    Unfolds geometry 2 (typeTokens "const line *") "\x7b\x7bi32,i32\x7d,\x7bi32,i32\x7d\x7d*"
      ["line", "point", "point"] := by
  have horacle : countingGeometry.AnswersBy geometry := fun _ _ => rfl
  refine ⟨horacle, (unfolds_iff_lowerTokens horacle 2 _ 0 _ _).mpr ⟨?_, ?_⟩⟩
  · exact Outcome.value?_eq_some_iff.mp (by decide +kernel)
  · decide +kernel

end DecompConfig.Lowering
