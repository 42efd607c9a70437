import DecompConfig.Proofs.Lowering.Expansion

namespace DecompConfig

variable {σ : Type}

namespace Oracle

variable (oracle : Oracle σ)

/-- Names asked one after the other, each with the answer that it gets. -/
def dialogue : List String → σ → List (String × Answer)
  | [], _ => []
  | name :: names, s => (name, (oracle name s).1) :: dialogue names (oracle name s).2

def afterAsking : List String → σ → σ
  | [], s => s
  | name :: names, s => afterAsking names (oracle name s).2

theorem afterAsking_append (names more : List String) (s : σ) :
    oracle.afterAsking (names ++ more) s = oracle.afterAsking more (oracle.afterAsking names s) := by
  induction names generalizing s with
  | nil => rfl
  | cons name names ih => exact ih _

theorem dialogue_append (names more : List String) (s : σ) :
    oracle.dialogue (names ++ more) s =
      oracle.dialogue names s ++ oracle.dialogue more (oracle.afterAsking names s) := by
  induction names generalizing s with
  | nil => rfl
  | cons name names ih => exact congrArg (List.cons _) (ih _)

@[simp] theorem map_fst_dialogue (names : List String) (s : σ) :
    (oracle.dialogue names s).map Prod.fst = names := by
  induction names generalizing s with
  | nil => rfl
  | cons name names ih => exact congrArg (List.cons _) (ih _)

@[simp] theorem length_dialogue (names : List String) (s : σ) :
    (oracle.dialogue names s).length = names.length := by
  rw [← List.length_map Prod.fst, map_fst_dialogue]

theorem exists_answer_of_mem_dialogue {names : List String} {s : σ} {entry : String × Answer}
    (h : entry ∈ oracle.dialogue names s) : ∃ t, entry.2 = (oracle entry.1 t).1 := by
  induction names generalizing s with
  | nil => simp [dialogue] at h
  | cons name names ih =>
    rcases List.mem_cons.mp h with rfl | h
    · exact ⟨s, rfl⟩
    · exact ih h

end Oracle

namespace Run

variable {ε α β : Type} {oracle : Oracle σ}

/-- Every success of `x` is related to what the oracle was asked and answered on the way, and it leaves
the oracle as these questions do. -/
def Relates (oracle : Oracle σ) (x : Run σ ε α) (R : α → List (String × Answer) → Prop) : Prop :=
  ∀ s a, (x s).result = .ok a →
    (x s).state = oracle.afterAsking (x s).queries s ∧ R a (oracle.dialogue (x s).queries s)

namespace Relates

variable {x : Run σ ε α} {R : α → List (String × Answer) → Prop}
  {S : β → List (String × Answer) → Prop}

theorem mono {R' : α → List (String × Answer) → Prop} (h : x.Relates oracle R)
    (himp : ∀ a d, R a d → R' a d) : x.Relates oracle R' := by
  intro s a ha
  obtain ⟨hstate, hR⟩ := h s a ha
  exact ⟨hstate, himp a _ hR⟩

theorem pure {a : α} (h : R a []) : (Pure.pure a : Run σ ε α).Relates oracle R := by
  intro s b hb
  obtain rfl : a = b := Except.ok.inj hb
  exact ⟨rfl, h⟩

theorem bind {f : α → Run σ ε β} (hx : x.Relates oracle R)
    (hf : ∀ a d, R a d → (f a).Relates oracle fun b e => S b (d ++ e)) :
    (x >>= f).Relates oracle S := by
  intro s b hb
  cases h : (x s).result with
  | error e => simp [bind_of_error h] at hb
  | ok a =>
    rw [bind_of_ok h] at hb ⊢
    obtain ⟨hstate, ha⟩ := hx s a h
    obtain ⟨hstate', hb⟩ := hf a _ ha _ b hb
    have hqueries : (x s).events.filterMap Event.query? = (x s).queries := rfl
    rw [Outcome.queries_after, hqueries, oracle.afterAsking_append, oracle.dialogue_append, ← hstate]
    exact ⟨hstate', hb⟩

end Relates

end Run

namespace Lowering

/-- The identifier `name` is met inside the aggregates `opened`, the outermost first. Each of them was
asked for, is not asked for again, and was answered with an aggregate that mentions what is met in it;
`tokens` mention the outermost. -/
inductive Met : List Token → List (String × Answer) → List String → String → Prop where
  | here {tokens dialogue name} : .name name ∈ tokens → Met tokens dialogue [] name
  | inside {tokens before after opened name outer answer aggregate} : .name outer ∈ tokens →
      answer.definition = .ok (some aggregate) → outer ∉ after.map Prod.fst →
      Met aggregate.tokens after opened name →
      Met tokens (before ++ (outer, answer) :: after) (outer :: opened) name

namespace Met

variable {tokens : List Token} {dialogue : List (String × Answer)} {opened : List String}
  {name : String}

theorem after_dialogue (h : Met tokens dialogue opened name) (earlier : List (String × Answer)) :
    Met tokens (earlier ++ dialogue) opened name := by
  cases h with
  | here hname => exact .here hname
  | inside houter hanswer hfresh hinner =>
    rw [← List.append_assoc]
    exact .inside houter hanswer hfresh hinner

theorem of_mem {outer : String} (h : Met [.name outer] dialogue opened name)
    (hmem : .name outer ∈ tokens) : Met tokens dialogue opened name := by
  cases h with
  | here hname => exact .here (by simp_all)
  | inside houter hanswer hfresh hinner => exact .inside (by simp_all) hanswer hfresh hinner

theorem exists_aggregate (h : Met tokens dialogue opened name) {outer : String}
    (hmem : outer ∈ opened) :
    ∃ answer aggregate, (outer, answer) ∈ dialogue ∧ answer.definition = .ok (some aggregate) := by
  induction h with
  | here => simp at hmem
  | inside _ hanswer _ _ ih =>
    rcases List.mem_cons.mp hmem with rfl | hmem
    · exact ⟨_, _, by simp, hanswer⟩
    · obtain ⟨answer, aggregate, hin, hdef⟩ := ih hmem
      exact ⟨answer, aggregate, by simp [hin], hdef⟩

end Met

end Lowering

end DecompConfig
