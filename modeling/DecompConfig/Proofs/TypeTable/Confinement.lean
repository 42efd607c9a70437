import DecompConfig.Proofs.Lowering.Agreement
import DecompConfig.Proofs.Token.Spelling
import DecompConfig.Proofs.TypeTable.Cycle

namespace DecompConfig

variable {σ τ : Type}

namespace NameMap

variable {α : Type}

/-- The map without the bindings of `names`. -/
def without (m : NameMap α) (names : List String) : NameMap α :=
  ⟨m.entries.filter (·.1 ∉ names), m.sorted.filter _⟩

theorem get?_without (m : NameMap α) (names : List String) (name : String) :
    (m.without names).get? name = if name ∈ names then none else m.get? name := by
  show (m.entries.filter (·.1 ∉ names)).lookup name = if _ then _ else m.entries.lookup name
  induction m.entries with
  | nil => simp
  | cons entry entries ih =>
    rw [List.filter_cons, lookup_cons]
    by_cases hentry : entry.1 ∈ names
    · rw [if_neg (by simpa using hentry), ih]
      by_cases heq : name = entry.1
      · rw [heq, if_pos hentry, if_pos hentry]
      · rw [if_neg heq]
    · rw [if_pos (by simpa using hentry), lookup_cons, ih]
      by_cases heq : name = entry.1
      · rw [heq, if_pos rfl, if_neg hentry, if_pos rfl]
      · rw [if_neg heq, if_neg heq]

end NameMap

namespace Lowering

variable {oracle : Oracle σ} {depth : Nat} {s : σ} {q : String}

theorem not_primitive_of_mem_queries {tokens : List Token}
    (h : q ∈ (lowerTokens oracle depth tokens s).queries) : Primitive.ofWord? q = none :=
  ((accounted_lowerTokens oracle depth tokens s).fresh q h).2

/-- What is asked for was read in the type or in a member of some aggregate. -/
theorem mentioned_of_query (oracle : Oracle σ) (limit : Nat) :
    Invariant oracle limit fun _ _ tokens _ queries _ _ =>
      ∀ q ∈ queries, .name q ∈ tokens ∨ ∃ aggregate : Aggregate, .name q ∈ aggregate.tokens := by
  refine .of_asked (fun _ => .inl List.mem_cons_self) ?_ ?_
  · intro tokens name q hmem h
    rcases h with hname | haggregate
    · obtain rfl : q = name := by simpa using hname
      exact .inl hmem
    · exact .inr haggregate
  · intro name s aggregate q _ _ h
    rcases h with hmember | haggregate
    · exact .inr ⟨aggregate, hmember⟩
    · exact .inr haggregate

theorem canonical_of_mem_queries {type : String}
    (h : q ∈ (lowerType oracle depth type s).queries) : (Token.name q).Canonical := by
  rcases (mentioned_of_query oracle depth).has_lowerTokens (typeTokens type) s q h with
    hmem | ⟨aggregate, hmem⟩
  · exact canonical_of_mem_tokensOf hmem
  · obtain ⟨declaration, -, hmem⟩ := List.mem_flatMap.mp hmem
    exact canonical_of_mem_tokensOf (mem_tokensOf_of_mem_memberTokens hmem)

end Lowering

namespace TypeTable

open Lowering

/-- The table without the aggregates called `names`. -/
def without (table : TypeTable) (names : List String) : TypeTable :=
  ⟨table.aggregates.without names⟩

variable {table : TypeTable} {depth : Nat} {type : String} {s : σ}

/-- The names that are asked for are bare, so that the table is read at these very names. -/
theorem same_of_get?_eq {other : TypeTable}
    (h : ∀ q ∈ (lowerType table.oracle depth type s).queries,
      other.aggregates.get? q = table.aggregates.get? q) :
    (lowerType table.oracle depth type s).Same (lowerType other.oracle depth type s) := by
  refine same_of_eq_on_queries table.answersBy_oracle other.answersBy_oracle ?_ s
  intro q hq
  obtain ⟨-, hblank, -⟩ := canonical_of_mem_queries hq
  simp only [get?, bareName_eq_self hblank]
  rw [h q hq]

theorem same_insert {name : String} (aggregate : Aggregate)
    (h : bareName name ∉ (lowerType table.oracle depth type s).queries) :
    (lowerType table.oracle depth type s).Same
      (lowerType (table.insert name aggregate).oracle depth type s) := by
  apply same_of_get?_eq
  intro q hq
  have hne : q ≠ bareName name := fun heq => h (heq ▸ hq)
  rw [insert, NameMap.get?_insert, if_neg hne]

theorem same_without {names : List String}
    (h : ∀ key ∈ names, key ∉ (lowerType table.oracle depth type s).queries) :
    (lowerType table.oracle depth type s).Same
      (lowerType (table.without names).oracle depth type s) := by
  apply same_of_get?_eq
  intro q hq
  have hnot : q ∉ names := fun hmem => h q hmem hq
  rw [without, NameMap.get?_without, if_neg hnot]

theorem same_merge {other : TypeTable}
    (h : ∀ key ∈ other.names, key ∉ (lowerType table.oracle depth type s).queries) :
    (lowerType table.oracle depth type s).Same
      (lowerType (table.merge other).oracle depth type s) := by
  apply same_of_get?_eq
  intro q hq
  have hnone : other.aggregates.get? q = none := by
    cases hget : other.aggregates.get? q with
    | none => rfl
    | some aggregate => exact absurd hq (h q (NameMap.mem_names_of_get? _ hget))
  rw [merge, NameMap.get?_merge, hnone, Option.none_or]

/-- A lowering depends on nothing but the names that it asks for. Of two oracles whose answers are
functions of the name, it is enough that they agree on the names that the first is asked for. Primitive
names are never asked for, and the names that lowering a type asks for are read as names in a type. So
in a table nothing else matters: aggregates of other names may be defined, replaced or removed, one by
one or by another table. -/
theorem lowering_confined_to_queries (oracle : Oracle σ) (oracle' : Oracle τ) (depth : Nat)
    (tokens : List Token) (table : TypeTable) (type : String) (s : σ) (t : τ) :
    let run := lowerTokens oracle depth tokens s
    let tableRun := lowerType table.oracle depth type s
    (∀ answer answer', oracle.DeterminedBy answer → oracle'.DeterminedBy answer' →
      (∀ q ∈ run.queries, answer q = answer' q) →
      run.Same (lowerTokens oracle' depth tokens t)) ∧
    (∀ q ∈ run.queries, Primitive.ofWord? q = none) ∧
    (∀ q ∈ (lowerType oracle depth type s).queries, (Token.name q).Canonical) ∧
    (∀ key, (Primitive.ofWord? key).isSome → key ∉ tableRun.queries) ∧
    (∀ other : TypeTable, (∀ key ∈ tableRun.queries,
        other.aggregates.get? key = table.aggregates.get? key) →
      tableRun.Same (lowerType other.oracle depth type s)) ∧
    (∀ name aggregate, bareName name ∉ tableRun.queries →
      tableRun.Same (lowerType (table.insert name aggregate).oracle depth type s)) ∧
    (∀ names : List String, (∀ key ∈ names, key ∉ tableRun.queries) →
      tableRun.Same (lowerType (table.without names).oracle depth type s)) ∧
    ∀ other : TypeTable, (∀ key ∈ other.names, key ∉ tableRun.queries) →
      tableRun.Same (lowerType (table.merge other).oracle depth type s) := by
  intro run tableRun
  refine ⟨?_, fun q => not_primitive_of_mem_queries, fun q => canonical_of_mem_queries, ?_,
    fun other => same_of_get?_eq, fun name => same_insert, fun names => same_without,
    fun other => same_merge⟩
  · intro answer answer' horacle horacle' h
    exact same_of_eq_on_queries horacle horacle' h t
  · intro key hprimitive hkey
    rw [not_primitive_of_mem_queries hkey] at hprimitive
    cases hprimitive

/-- Answers with the aggregates of `diamond`, refuses names of more than one letter, and counts the
questions. -/
def refusing : Oracle Nat := fun name asked =>
  let definition :=
    if name.length = 1 then .ok (diamond.get? name) else .error (.malformed name "")
  (⟨definition, none⟩, asked + 1)

theorem lowering_confined_to_queries_diamond :
    let run : Outcome Unit LoweringError String := lowerType diamond.oracle 6 "a **" ()
    let other : TypeTable := .insertAll .empty [("e", ⟨[]⟩), ("long", ⟨["e *next"]⟩)]
    run.queries = ["a", "b", "d", "c", "d"] ∧
    run.Same (lowerTokens refusing 6 (typeTokens "a **") 0) ∧
    run.Same (lowerType (diamond.insert "struct int" ⟨["a self"]⟩).oracle 6 "a **" ()) ∧
    run.Same (lowerType (diamond.without ["e", "struct a"]).oracle 6 "a **" ()) ∧
    run.Same (lowerType (diamond.merge other).oracle 6 "a **" ()) ∧
    ¬run.Same (lowerType (diamond.without ["d"]).oracle 6 "a **" ()) := by
  intro run other
  have hqueries : (lowerType diamond.oracle 6 "a **" ()).queries = ["a", "b", "d", "c", "d"] := by
    decide +kernel
  obtain ⟨hagree, -, -, -, -, hinsert, hwithout, hmerge⟩ :=
    lowering_confined_to_queries diamond.oracle refusing 6 (typeTokens "a **") diamond "a **" () 0
  rw [hqueries] at hinsert hwithout hmerge
  refine ⟨hqueries, ?_, ?_, ?_, ?_, ?_⟩
  · refine hagree _ _ diamond.answersBy_oracle (fun _ _ => rfl) ?_
    intro q hq
    have hlength : ∀ q ∈ (lowerType diamond.oracle 6 "a **" ()).queries, q.length = 1 := by
      rw [hqueries]
      decide
    exact (if_pos (hlength q hq)).symm
  · exact hinsert "struct int" ⟨["a self"]⟩ (by decide +kernel)
  · exact hwithout ["e", "struct a"] (by decide +kernel)
  · exact hmerge other (by decide +kernel)
  · intro hsame
    have hvalue : run.value? ≠ (lowerType (diamond.without ["d"]).oracle 6 "a **" ()).value? := by
      decide +kernel
    apply hvalue
    rw [Outcome.value?, Outcome.value?, hsame.1]

end TypeTable

end DecompConfig
