import DecompConfig.Proofs.Lowering.Simulation
import Mathlib.Algebra.Ring.GeomSum

namespace DecompConfig

variable {σ ε α β : Type}

/-- No run of `x` asks the oracle more than `n` times. -/
def Run.AsksAtMost (x : Run σ ε α) (n : Nat) : Prop := ∀ s, (x s).queries.length ≤ n

namespace Run.AsksAtMost

theorem pure (a : α) : (Pure.pure a : Run σ ε α).AsksAtMost 0 := fun _ => Nat.le_refl 0

theorem mono {x : Run σ ε α} {n k : Nat} (h : x.AsksAtMost n) (hle : n ≤ k) : x.AsksAtMost k :=
  fun s => (h s).trans hle

theorem bind {x : Run σ ε α} {f : α → Run σ ε β} {n k : Nat} (hx : x.AsksAtMost n)
    (hf : ∀ a, (f a).AsksAtMost k) : (x >>= f).AsksAtMost (n + k) := by
  intro s
  have hs := hx s
  cases h : (x s).result with
  | ok a =>
    have ha := hf a (x s).state
    rw [bind_of_ok h, Outcome.queries_after, List.length_append]
    exact Nat.add_le_add hs ha
  | error e =>
    rw [bind_of_error h]
    exact hs.trans (Nat.le_add_right n k)

end Run.AsksAtMost

namespace Lowering

variable {oracle : Oracle σ} {depth : Nat}

section Bound

variable {expand : String → Run σ LoweringError String} {bound : Nat}

theorem asksAtMost_lowerParts (hexpand : ∀ name, (expand name).AsksAtMost bound)
    (ts : List Token) :
    (lowerParts expand (parts false ts)).AsksAtMost (ts.countP Token.isName * bound) := by
  suffices h : ∀ ps, (lowerParts expand ps).AsksAtMost (ps.countP Part.isAggregate * bound) from
    (h _).mono (Nat.mul_le_mul_right bound (countP_isAggregate_parts_le false ts))
  intro ps
  induction ps with
  | nil => exact (Run.AsksAtMost.pure _).mono (Nat.zero_le _)
  | cons p ps ih =>
    have hrest (a : String) : (lowerParts expand ps >>= fun b => pure (a ++ b)).AsksAtMost
        (ps.countP Part.isAggregate * bound) := ih.bind fun b => .pure (a ++ b)
    rw [lowerParts_cons, List.countP_cons]
    cases hp : p.isAggregate with
    | false =>
      obtain ⟨text, htext⟩ := lowerPart_of_not_aggregate expand hp
      rw [htext, pure_bind]
      simpa using hrest text
    | true =>
      cases p with
      | aggregate name =>
        rw [if_pos rfl, Nat.succ_mul, Nat.add_comm]
        exact (hexpand name).bind hrest
      | _ => simp [Part.isAggregate] at hp

theorem asksAtMost_lowerMembers (hexpand : ∀ name, (expand name).AsksAtMost bound)
    (members : List String) : (lowerMembers expand members).AsksAtMost
      ((members.flatMap memberTokens).countP Token.isName * bound) := by
  induction members with
  | nil => exact (Run.AsksAtMost.pure _).mono (Nat.zero_le _)
  | cons member members ih =>
    rw [lowerMembers_cons, List.flatMap_cons, List.countP_append, Nat.add_mul]
    exact (asksAtMost_lowerParts hexpand _).bind fun a => ih.bind fun b => .pure (a :: b)

end Bound

/-- An aggregate costs a query of its own and those of the identifiers in its members. -/
theorem asksAtMost_expand {w : Nat}
    (hw : ∀ name s aggregate, (oracle name s).1.definition = .ok (some aggregate) →
      aggregate.tokens.countP Token.isName ≤ w) (limit room : Nat) (path : List String)
    (name : String) :
    (expand oracle limit room path name).AsksAtMost (∑ i ∈ Finset.range room, w ^ i) := by
  induction room using Nat.strongRecOn generalizing path name with
  | ind room ih =>
    intro s
    cases expansion oracle limit room path name s with
    | cyclic _ heq => simp [heq, Outcome.queries]
    | tooDeep _ _ heq => simp [heq, Outcome.queries]
    | refused _ hroom _ heq =>
      subst hroom
      simp [heq, Outcome.queries, geom_sum_succ]
    | unresolved _ hroom _ heq =>
      subst hroom
      simp [heq, Outcome.queries, geom_sum_succ]
    | @opened inner aggregate _ hroom hanswer heq =>
      subst hroom
      have hinside := asksAtMost_lowerMembers (ih inner (Nat.lt_succ_self inner) (path ++ [name]))
        aggregate.members (oracle name s).2
      have hcount := Nat.mul_le_mul_right (∑ i ∈ Finset.range inner, w ^ i) (hw name s aggregate hanswer)
      rw [heq, Outcome.queries_after, Oracle.queries_events, Outcome.queries_map, geom_sum_succ]
      simp only [List.length_append, List.length_singleton, inside]
      have hlength := hinside.trans hcount
      omega

namespace Machine

/-- What a step does to the queries and the path: it asks for one name, which a step that opens the
aggregate adds to the path, or it asks for nothing and shortens the path at most. -/
inductive PathStep (depth : Nat) (m : Machine σ) (next : Next σ) : Prop where
  | asks {name : String} (hmem : name ∉ m.control.path) (hlength : m.control.path.length < depth)
      (hqueries : next.queries = m.queries ++ [name])
      (hpath : ∀ m', next = .running m' → m'.control.path = m.control.path ++ [name])
  | silent (hqueries : next.queries = m.queries)
      (hpath : ∀ m', next = .running m' → m'.control.path <+: m.control.path)

theorem pathStep_enter (oracle : Oracle σ) (depth : Nat) (m : Machine σ) (name : String)
    (rest : List Token) : PathStep depth m (m.enter oracle depth name rest) := by
  have hasked (t : σ) (r : Except LoweringError String) :
      (Next.halted ⟨r, t, m.events ++ oracle.events name m.state⟩).queries = m.queries ++ [name] := by
    simp [Next.queries, Outcome.queries, queries]
  by_cases hmem : name ∈ m.control.path
  · rw [enter, if_pos hmem]
    exact .silent rfl fun m' h => by cases h
  by_cases hlength : depth ≤ m.control.path.length
  · rw [enter, if_neg hmem, if_pos hlength]
    exact .silent rfl fun m' h => by cases h
  rw [enter, if_neg hmem, if_neg hlength]
  refine .asks hmem (Nat.lt_of_not_le hlength) ?_ ?_
  · cases hanswer : (oracle name m.state).1.definition with
    | error e => exact hasked _ _
    | ok definition =>
      cases definition with
      | none => exact hasked _ _
      | some aggregate => exact hasked (oracle name m.state).2 (.ok "")
  · intro m' h
    cases hanswer : (oracle name m.state).1.definition with
    | error e => simp [hanswer] at h
    | ok definition =>
      cases definition with
      | none => simp [hanswer] at h
      | some aggregate =>
        simp only [hanswer, Next.running.injEq] at h
        rw [← h]

theorem pathStep_leave (depth : Nat) (m : Machine σ) : PathStep depth m m.leave := by
  unfold leave
  split
  · apply PathStep.silent rfl
    intro m' h
    cases h
  · apply PathStep.silent rfl
    intro m' h
    cases h
    exact List.dropLast_prefix _
  · apply PathStep.silent rfl
    intro m' h
    cases h
    exact List.prefix_rfl

theorem pathStep_step (oracle : Oracle σ) (depth : Nat) (m : Machine σ) :
    PathStep depth m (m.step oracle depth) := by
  have hsilent (c : Control) (h : c.path = m.control.path) :
      PathStep depth m (.running { m with control := c }) := by
    apply PathStep.silent rfl
    intro m' hnext
    cases hnext
    exact h ▸ List.prefix_rfl
  unfold step
  split
  · split
    · exact hsilent _ rfl
    · exact pathStep_leave depth m
  · exact hsilent _ rfl
  · split
    · exact hsilent _ rfl
    · exact pathStep_enter oracle depth m _ _
  · exact hsilent _ rfl

/-- The aggregates of the path are distinct and no more than may be open. -/
def Bounded (depth : Nat) (m : Machine σ) : Prop :=
  m.control.path.Nodup ∧ m.control.path.length ≤ depth

theorem bounded_of_step {m m' : Machine σ} (h : Bounded depth m)
    (hstep : m.step oracle depth = .running m') : Bounded depth m' := by
  cases pathStep_step oracle depth m with
  | @asks name hmem hlength _ hpath =>
    rw [Bounded, hpath m' hstep]
    refine ⟨?_, by rw [List.length_append, List.length_singleton]; exact hlength⟩
    exact List.nodup_append_comm.mpr (List.nodup_cons.mpr ⟨hmem, h.1⟩)
  | silent _ hpath =>
    have hprefix := hpath m' hstep
    exact ⟨h.1.sublist hprefix.sublist, hprefix.length_le.trans h.2⟩

theorem bounded_of_run {n : Nat} {m m' : Machine σ} (h : Bounded depth m)
    (hrun : run oracle depth n m = .running m') : Bounded depth m' := by
  induction n generalizing m with
  | zero =>
    cases hrun
    exact h
  | succ n ih =>
    rw [run] at hrun
    split at hrun
    next hstep => exact ih (bounded_of_step h hstep) hrun
    next => cases hrun

end Machine

/-- A run ends after finitely many steps, whatever the oracle answers. Each step asks for one name at
most, and when it asks for one, the aggregates being expanded are distinct, fewer than `depth` and other
than that name. And if every answer mentions at most `w` identifiers, the queries are at most as many as
the nodes of a forest of that branching and depth. -/
theorem lowering_halts (oracle : Oracle σ) (depth : Nat) (tokens : List Token) (s : σ) :
    (∃ n, Machine.run oracle depth n (.start tokens s) =
      .halted (lowerTokens oracle depth tokens s)) ∧
    (∀ n m, Machine.run oracle depth n (.start tokens s) = .running m →
      (m.step oracle depth).queries = m.queries ∨
      ∃ name, (m.step oracle depth).queries = m.queries ++ [name] ∧
        m.control.path.Nodup ∧ m.control.path.length < depth ∧ name ∉ m.control.path) ∧
    ∀ w, (∀ name t aggregate, (oracle name t).1.definition = .ok (some aggregate) →
        aggregate.tokens.countP Token.isName ≤ w) →
      (lowerTokens oracle depth tokens s).queries.length ≤
        tokens.countP Token.isName * ∑ i ∈ Finset.range depth, w ^ i := by
  refine ⟨Machine.exists_run_start_eq oracle depth tokens s, ?_, ?_⟩
  · intro n m hrun
    have hstart : Machine.Bounded depth (.start tokens s) := ⟨List.nodup_nil, Nat.zero_le depth⟩
    have hbounded := Machine.bounded_of_run hstart hrun
    cases Machine.pathStep_step oracle depth m with
    | @asks name hmem hlength hqueries _ => exact .inr ⟨name, hqueries, hbounded.1, hlength, hmem⟩
    | silent hqueries _ => exact .inl hqueries
  · intro w hw
    exact asksAtMost_lowerParts (asksAtMost_expand hw depth depth []) tokens s

/-- Answers the questions with the nodes of a binary tree of three levels, whatever the names. -/
def binaryTree : Oracle Nat := fun _ asked =>
  let aggregate : Aggregate :=
    match asked with
    | 0 => ⟨["left l", "right r"]⟩
    | 1 => ⟨["inner i", "outer o"]⟩
    | 4 => ⟨["struct inner *i", "outer *o"]⟩
    | _ => ⟨["long long leaf"]⟩
  (⟨.ok (some aggregate), none⟩, asked + 1)

/-- The bound is attained. -/
theorem lowering_halts_binaryTree :
    (∀ name t aggregate, (binaryTree name t).1.definition = .ok (some aggregate) →
      aggregate.tokens.countP Token.isName ≤ 2) ∧
    (lowerTokens binaryTree 3 [.name "tree"] 0).queries.length ≤ 1 * (1 + 2 + 4) ∧
    (lowerTokens binaryTree 3 [.name "tree"] 0).queries.length = 7 := by
  have hw : ∀ name t aggregate, (binaryTree name t).1.definition = .ok (some aggregate) →
      aggregate.tokens.countP Token.isName ≤ 2 := by
    intro name t aggregate h
    obtain rfl := Option.some.inj (Except.ok.inj h)
    split <;> decide +kernel
  obtain ⟨-, -, hbound⟩ := lowering_halts binaryTree 3 [.name "tree"] 0
  have hlength := hbound 2 hw
  refine ⟨hw, ?_, by decide +kernel⟩
  simpa [Finset.sum_range_succ, Token.isName] using hlength

end Lowering

end DecompConfig
