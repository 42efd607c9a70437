import DecompConfig.Proofs.Lowering.Depth
import DecompConfig.Proofs.Lowering.Reach
import DecompConfig.Proofs.NameMap
import DecompConfig.Proofs.TypeTable.BareName
import Mathlib.Data.List.Perm.Subperm

namespace DecompConfig

variable {σ : Type}

namespace TypeTable

open Lowering Relation

variable {table : TypeTable} {type : String}

theorem answersBy_oracle (table : TypeTable) : (table.oracle : Oracle σ).AnswersBy table.get? :=
  fun _ _ => rfl

/-- Names in types and members hold no blank, so that the table knows them by themselves. -/
theorem bareName_of_reaches {name : String} (h : Reaches table.get? (typeTokens type) name) :
    bareName name = name := by
  refine bareName_eq_self fun c hc => ?_
  rcases h.exists_mention with hmem | ⟨aggregate, hmem⟩
  · exact not_isBlank_of_mem_typeTokens hmem hc
  · obtain ⟨declaration, -, hmem⟩ := List.mem_flatMap.mp hmem
    exact not_isBlank_of_mem_memberTokens hmem hc

/-- Distinct aggregates that a type reaches are no more than the table defines. -/
theorem length_le_size {opened : List String} (hnodup : opened.Nodup)
    (h : ∀ outer ∈ opened, Reaches table.get? (typeTokens type) outer ∧
      (table.get? outer).isSome) : opened.length ≤ table.size := by
  have hsubset : opened ⊆ table.names := by
    intro outer houter
    obtain ⟨hreach, hdef⟩ := h outer houter
    obtain ⟨aggregate, hdef⟩ := Option.isSome_iff_exists.mp hdef
    rw [← bareName_of_reaches hreach]
    exact NameMap.mem_names_of_get? _ hdef
  have hlength := (List.subperm_of_subset hnodup hsubset).length_le
  simpa [names, NameMap.names, size, NameMap.size] using hlength

variable {depth : Nat} {s : σ}

/-- With a limit beyond the size of the table only unknown names and cycles prevent an encoding. -/
theorem unresolved_or_cyclic (hdepth : table.size < depth) {e : LoweringError}
    (h : (lowerType table.oracle depth type s).result = .error e) :
    (∃ name, e = .unresolved name ∧ Reaches table.get? (typeTokens type) name ∧
      table.contains name = false) ∨
    ∃ name path, e = .cyclic name path ∧ Reaches table.get? (typeTokens type) name ∧
      TransGen (Mentions table.get?) name name := by
  have herror := reaches_of_error table.answersBy_oracle h
  cases e with
  | unresolved name =>
    obtain ⟨hreach, hundefined⟩ := herror
    exact .inl ⟨name, rfl, hreach, by rw [contains, hundefined, Option.isSome_none]⟩
  | malformed name response => exact herror.elim
  | cyclic name path => exact .inr ⟨name, path, rfl, herror⟩
  | tooDeep name limit =>
    obtain ⟨opened, hlength, hnodup, hopened⟩ := herror
    have hle := length_le_size hnodup hopened
    omega

theorem lowerType_eq_of_size_lt {depth' : Nat} (hdepth : table.size < depth)
    (hdepth' : table.size < depth') :
    lowerType table.oracle depth' type s = lowerType table.oracle depth type s := by
  have hcut {d d' : Nat} (hd : table.size < d) (hle : d ≤ d') :
      lowerType table.oracle d type s = lowerType table.oracle d' type s := by
    rcases cutAt_lowerTokens table.oracle hle (typeTokens type) s with heq | ⟨⟨name, herror⟩, -⟩
    · exact heq
    · rcases unresolved_or_cyclic hd herror with ⟨_, h, -⟩ | ⟨_, _, h, -⟩ <;> cases h
  rcases Nat.le_total depth depth' with hle | hle
  · exact (hcut hdepth hle).symm
  · exact hcut hdepth' hle

/-- With a limit beyond the size of the table, a type has an encoding exactly if every aggregate that
it reaches is defined and none leads back to itself. -/
theorem exists_lowerType_eq_ok_iff (hdepth : table.size < depth) :
    (∃ out, (lowerType table.oracle depth type s).result = .ok out) ↔
      ∀ name, Reaches table.get? (typeTokens type) name →
        table.contains name ∧ ¬TransGen (Mentions table.get?) name name := by
  constructor
  · intro hok name hreach
    obtain ⟨out, h⟩ := hok
    have hsound := sound_expand (table.answersBy_oracle (σ := σ)) depth depth []
    have hunfolds := unfolds_of_yields hsound [] rfl ⟨h, rfl⟩
    exact hunfolds.defined_of_reaches hreach
  · intro hreach
    cases h : (lowerType table.oracle depth type s).result with
    | ok out => exact ⟨out, rfl⟩
    | error e =>
      rcases unresolved_or_cyclic hdepth h with
        ⟨name, -, hname, hundefined⟩ | ⟨name, path, -, hname, hcycle⟩
      · simpa [hundefined] using (hreach name hname).1
      · exact absurd hcycle (hreach name hname).2

/-- Cycles are found, and nothing else is taken for one: with a limit beyond the size of the table, a
type has an encoding exactly if every aggregate that it reaches is defined and none leads back to itself,
and if all are defined it is a cycle that prevents an encoding. The limit is never met and does not
matter. -/
theorem lowerType_detects_cycles (table : TypeTable) (type : String) (depth : Nat)
    (hdepth : table.size < depth) (s : σ) :
    let result := (lowerType table.oracle depth type s).result
    (∀ name limit, result ≠ .error (.tooDeep name limit)) ∧
    (∀ name response, result ≠ .error (.malformed name response)) ∧
    (∀ depth', table.size < depth' →
      lowerType table.oracle depth' type s = lowerType table.oracle depth type s) ∧
    ((∃ out, result = .ok out) ↔ ∀ name, Reaches table.get? (typeTokens type) name →
      table.contains name ∧ ¬TransGen (Mentions table.get?) name name) ∧
    ((∀ name, Reaches table.get? (typeTokens type) name → table.contains name) →
      (∃ name, Reaches table.get? (typeTokens type) name ∧
        TransGen (Mentions table.get?) name name) →
      ∃ name path, result = .error (.cyclic name path)) := by
  intro result
  refine ⟨?_, ?_, fun depth' => lowerType_eq_of_size_lt hdepth,
    exists_lowerType_eq_ok_iff hdepth, ?_⟩
  · intro name limit h
    rcases unresolved_or_cyclic hdepth h with ⟨_, h, -⟩ | ⟨_, _, h, -⟩ <;> cases h
  · intro name response h
    rcases unresolved_or_cyclic hdepth h with ⟨_, h, -⟩ | ⟨_, _, h, -⟩ <;> cases h
  · intro hdefined hexists
    obtain ⟨name, hreach, hcycle⟩ := hexists
    cases h : result with
    | ok out =>
      have hacyclic := (exists_lowerType_eq_ok_iff hdepth).mp ⟨out, h⟩ name hreach
      exact absurd hcycle hacyclic.2
    | error e =>
      rcases unresolved_or_cyclic hdepth h with
        ⟨other, -, hother, hundefined⟩ | ⟨other, path, rfl, -⟩
      · simpa [hundefined] using hdefined other hother
      · exact ⟨other, path, rfl⟩

/-- Two ways lead from `a` to `d`, and one from `e` to itself. -/
def diamond : TypeTable := .insertAll .empty
  [("a", ⟨["b left", "struct c *right"]⟩), ("b", ⟨["d down"]⟩), ("c", ⟨["int i", "d down[2]"]⟩),
    ("d", ⟨["unsigned bits"]⟩), ("e", ⟨["e *next"]⟩)]

theorem lowerType_detects_cycles_diamond : diamond.size < 6 ∧
    (∀ name, Reaches diamond.get? (typeTokens "a **") name →
      diamond.contains name ∧ ¬TransGen (Mentions diamond.get?) name name) ∧
    ¬∀ name, Reaches diamond.get? (typeTokens "e") name →
      diamond.contains name ∧ ¬TransGen (Mentions diamond.get?) name name := by
  have hsize : diamond.size < 6 := by decide +kernel
  obtain ⟨-, -, -, hok, -⟩ := lowerType_detects_cycles diamond "a **" 6 hsize ()
  obtain ⟨-, -, -, hcyclic, -⟩ := lowerType_detects_cycles diamond "e" 6 hsize ()
  have hvalue : (lowerType diamond.oracle 6 "a **" ()).value? =
      some "\x7b\x7b\x7bi32\x7d\x7d,\x7bi32,\x7bi32\x7d\x7d*\x7d**" := by decide +kernel
  have herror : (lowerType diamond.oracle 6 "e" ()).value? = none := by decide +kernel
  refine ⟨hsize, hok.mp ⟨_, Outcome.value?_eq_some_iff.mp hvalue⟩, fun hreach => ?_⟩
  obtain ⟨out, h⟩ := hcyclic.mpr hreach
  rw [Outcome.value?_eq_some_iff.mpr h] at herror
  cases herror

end TypeTable

end DecompConfig
