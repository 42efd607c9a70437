import DecompConfig.Proofs.Lowering.Expansion
import Mathlib.Order.Nat

namespace DecompConfig

variable {σ : Type}

/-- The answers depend on nothing but the name, and none is an error. -/
def Oracle.AnswersBy (oracle : Oracle σ) (find? : String → Option Aggregate) : Prop :=
  ∀ name s, (oracle name s).1.definition = .ok (find? name)

namespace Lowering

/-- A member with the text of its type and the names of the aggregates written out in it. -/
structure UnfoldedMember where
  declaration : String
  text : String
  names : List String

/-- A token list unfolds to a text with at most `depth` aggregates inside one another, where the names
of the aggregates written out are listed in the order of their opening braces. Nothing here knows which
aggregates are open. -/
inductive Unfolds (find? : String → Option Aggregate) :
    Nat → List Token → String → List String → Prop where
  | nil {depth} : Unfolds find? depth [] "" []
  /-- A run of qualifiers leaves no trace if it has no sign keyword or if a word follows it. -/
  | qualifiers {depth q qs ts out names} : (∀ t ∈ ts.head?, t.isQualifier = false) →
      (q :: qs).any Qualifier.isSign = false ∨ (∃ t ∈ ts.head?, t.isName = true) →
      Unfolds find? depth ts out names →
      Unfolds find? depth (.qualifier q :: (qs.map .qualifier ++ ts)) out names
  /-- A run of qualifiers with a sign keyword stands for `int` if no word follows it. -/
  | sign {depth q qs ts out names} :
      (∀ t ∈ ts.head?, t.isQualifier = false ∧ t.isName = false) →
      (q :: qs).any Qualifier.isSign = true → Unfolds find? depth ts out names →
      Unfolds find? depth (.qualifier q :: (qs.map .qualifier ++ ts))
        (Primitive.i32.code ++ out) names
  /-- A primitive is spelled by as many words as belong together. -/
  | primitive {depth word p q run ts out names} : Primitive.ofWord? word = some p →
      p.Continues run q → p.Longest run ts → Unfolds find? depth ts out names →
      Unfolds find? depth (.name word :: (run ++ ts)) (q.code ++ out) names
  /-- Stars and punctuation marks stand for themselves. -/
  | copied {depth t ts out names} : t.isQualifier = false → t.isName = false →
      Unfolds find? depth ts out names → Unfolds find? depth (t :: ts) (t.text ++ out) names
  /-- Any other name stands for its members. -/
  | aggregate {depth name ts out names} {members : List UnfoldedMember} :
      Primitive.ofWord? name = none → find? name = some ⟨members.map (·.declaration)⟩ →
      (∀ m ∈ members, Unfolds find? depth (memberTokens m.declaration) m.text m.names) →
      Unfolds find? (depth + 1) ts out names →
      Unfolds find? (depth + 1) (.name name :: ts)
        ("\x7b" ++ ",".intercalate (members.map (·.text)) ++ "\x7d" ++ out)
        (name :: members.flatMap (·.names) ++ names)

/-- A name unfolds with at most `depth` aggregates inside one another. -/
def Unfoldable (find? : String → Option Aggregate) (depth : Nat) (name : String) : Prop :=
  ∃ out names, Unfolds find? depth [.name name] out names

theorem commaSeparated_eq_intercalate (texts : List String) :
    commaSeparated texts = ",".intercalate texts := by
  fun_induction commaSeparated texts with
  | case1 => simp
  | case2 text => simp
  | case3 first second rest ih => simp [ih]

theorem braced_eq (texts : List String) :
    braced texts = "\x7b" ++ ",".intercalate texts ++ "\x7d" := by
  rw [braced, commaSeparated_eq_intercalate]

namespace Unfolds

variable {find? : String → Option Aggregate} {depth : Nat} {ts : List Token} {out : String}
  {names : List String}

theorem drop_qualifiers (qs : List Qualifier) (hhead : ∀ t ∈ ts.head?, t.isQualifier = false)
    (hfree : qs.any Qualifier.isSign = false ∨ ∃ t ∈ ts.head?, t.isName = true)
    (h : Unfolds find? depth ts out names) :
    Unfolds find? depth (qs.map .qualifier ++ ts) out names := by
  cases qs with
  | nil => exact h
  | cons q qs => exact .qualifiers hhead hfree h

theorem mark_qualifiers (qs : List Qualifier)
    (hhead : ∀ t ∈ ts.head?, t.isQualifier = false ∧ t.isName = false)
    (h : Unfolds find? depth ts out names) :
    Unfolds find? depth (qs.map .qualifier ++ ts) (signText (qs.any Qualifier.isSign) ++ out)
      names := by
  cases hsign : qs.any Qualifier.isSign with
  | false =>
    rw [show signText false ++ out = out from String.empty_append]
    exact h.drop_qualifiers qs (fun t ht => (hhead t ht).1) (.inl hsign)
  | true =>
    cases qs with
    | nil => simp at hsign
    | cons q qs => exact .sign hhead hsign h

theorem exists_members {name : String} (hname : Primitive.ofWord? name = none)
    (h : Unfolds find? depth [.name name] out names) :
    ∃ inner, ∃ members : List UnfoldedMember, depth = inner + 1 ∧
      find? name = some ⟨members.map (·.declaration)⟩ ∧
      (∀ m ∈ members, Unfolds find? inner (memberTokens m.declaration) m.text m.names) ∧
      out = braced (members.map (·.text)) ∧ names = name :: members.flatMap (·.names) := by
  generalize htokens : [Token.name name] = tokens at h
  cases h with
  | nil => simp at htokens
  | qualifiers => simp at htokens
  | sign => simp at htokens
  | primitive hword =>
    obtain ⟨rfl, -⟩ : name = _ ∧ _ := by simpa using htokens
    simp [hname] at hword
  | copied _ hword =>
    obtain ⟨rfl, -⟩ := List.cons_eq_cons.mp htokens
    simp [Token.isName] at hword
  | @aggregate inner _ _ _ _ members _ hdef hmembers hrest =>
    obtain ⟨rfl, rfl⟩ : name = _ ∧ _ := by simpa using htokens
    cases hrest
    exact ⟨inner, members, rfl, hdef, hmembers, by simp [braced_eq], by simp⟩

theorem of_members {name : String} {members : List UnfoldedMember}
    (hname : Primitive.ofWord? name = none) (hdef : find? name = some ⟨members.map (·.declaration)⟩)
    (hmembers : ∀ m ∈ members, Unfolds find? depth (memberTokens m.declaration) m.text m.names) :
    Unfolds find? (depth + 1) [.name name] (braced (members.map (·.text)))
      (name :: members.flatMap (·.names)) := by
  simpa [braced_eq] using Unfolds.aggregate hname hdef hmembers .nil

theorem cons_name {name text : String} {inner : List String}
    (hname : Primitive.ofWord? name = none) (h : Unfolds find? depth [.name name] text inner)
    (hrest : Unfolds find? depth ts out names) :
    Unfolds find? depth (.name name :: ts) (text ++ out) (inner ++ names) := by
  obtain ⟨depth, members, rfl, hdef, hmembers, rfl, rfl⟩ := h.exists_members hname
  rw [braced_eq]
  exact .aggregate hname hdef hmembers hrest

theorem mono {depth' : Nat} (h : Unfolds find? depth ts out names) (hle : depth ≤ depth') :
    Unfolds find? depth' ts out names := by
  induction h generalizing depth' with
  | nil => exact .nil
  | qualifiers hhead hfree _ ih => exact .qualifiers hhead hfree (ih hle)
  | sign hhead hsign _ ih => exact .sign hhead hsign (ih hle)
  | primitive hword hrun hlongest _ ih => exact .primitive hword hrun hlongest (ih hle)
  | copied hqualifier hword _ ih => exact .copied hqualifier hword (ih hle)
  | aggregate hname hdef _ _ ihmembers ih =>
    obtain ⟨depth', rfl⟩ : ∃ k, depth' = k + 1 := ⟨depth' - 1, by omega⟩
    exact .aggregate hname hdef (fun m hm => ihmembers m hm (by omega)) (ih hle)

theorem unfoldable_of_mem {name : String} (hname : Primitive.ofWord? name = none)
    (h : Unfolds find? depth ts out names) (hmem : .name name ∈ ts) :
    Unfoldable find? depth name := by
  induction h with
  | nil => simp at hmem
  | qualifiers _ _ _ ih => exact ih (by simpa using hmem)
  | sign _ _ _ ih => exact ih (by simpa using hmem)
  | @primitive depth word p q run ts out names hword hrun _ _ ih =>
    have hne : name ≠ word := by
      intro heq
      rw [← heq, hname] at hword
      cases hword
    have hrun' : .name name ∉ run := fun hin => by
      simpa [hname] using Primitive.isSome_ofWord?_of_mem_continues hrun hin
    exact ih (by simpa [hne, hrun'] using hmem)
  | @copied depth t ts out names _ hword _ ih =>
    have hne : .name name ≠ t := by
      intro heq
      rw [← heq] at hword
      cases hword
    exact ih (by simpa [hne] using hmem)
  | @aggregate depth other ts out names members _ hdef hmembers _ _ ih =>
    rcases List.mem_cons.mp hmem with heq | hmem
    · cases heq
      exact ⟨_, _, of_members hname hdef hmembers⟩
    · exact ih hmem

end Unfolds

theorem Unfoldable.mono {find? : String → Option Aggregate} {depth depth' : Nat} {name : String}
    (h : Unfoldable find? depth name) (hle : depth ≤ depth') : Unfoldable find? depth' name := by
  obtain ⟨out, names, h⟩ := h
  exact ⟨out, names, h.mono hle⟩

theorem Unfoldable.exists_least {find? : String → Option Aggregate} {depth : Nat} {name : String}
    (h : Unfoldable find? depth name) :
    ∃ least ≤ depth, Unfoldable find? least name ∧ ∀ k < least, ¬Unfoldable find? k name := by
  classical
  have hexists : ∃ k, Unfoldable find? k name := ⟨depth, h⟩
  exact ⟨Nat.find hexists, Nat.find_min' hexists h, Nat.find_spec hexists,
    fun k hk => Nat.find_min hexists hk⟩

end Lowering

end DecompConfig
