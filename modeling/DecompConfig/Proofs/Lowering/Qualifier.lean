import DecompConfig.Lowering
import DecompConfig.Proofs.Part
import DecompConfig.Proofs.Run

namespace DecompConfig

def Token.isSign : Token → Bool
  | .qualifier q => q.isSign
  | _ => false

def Token.isPrimitive : Token → Bool
  | .name word => (Primitive.ofWord? word).isSome
  | _ => false

/-- What is left of a run of qualifiers in front of `next`: `int`, if the run has a sign keyword and
neither continues a primitive nor stands before a name. -/
def residue (behindPrimitive : Bool) (run : List Token) (next : Option Token) : List Token :=
  if run.any Token.isSign && !behindPrimitive && !next.any Token.isName then [.name "int"] else []

/-- The tokens with each longest run of qualifiers replaced by what is left of it, where
`behindPrimitive` tells whether a primitive stands directly before them. -/
def normalForm (behindPrimitive : Bool) (ts : List Token) : List Token :=
  match _h : ts.dropWhile Token.isQualifier with
  | [] => residue behindPrimitive ts none
  | t :: rest =>
    residue behindPrimitive (ts.takeWhile Token.isQualifier) (some t) ++
      t :: normalForm t.isPrimitive rest
termination_by ts.length
decreasing_by
  have hle := (List.dropWhile_sublist Token.isQualifier (l := ts)).length_le
  rw [_h, List.length_cons] at hle
  omega

/-- The parts of the tokens behind words that spell `p` so far. -/
def partsFrom (p : Primitive) (ts : List Token) : List Part :=
  .primitive (p.munch ts).1 :: parts false (p.munch ts).2

section Parts

variable {p q : Primitive} {word : String} {ts us : List Token}

theorem parts_primitive (h : Primitive.ofWord? word = some p) (pendingSign : Bool)
    (ts : List Token) : parts pendingSign (.name word :: ts) = partsFrom p ts := by
  simp [parts, partsFrom, h]

theorem parts_aggregate (h : Primitive.ofWord? word = none) (pendingSign : Bool) (ts : List Token) :
    parts pendingSign (.name word :: ts) = .aggregate word :: parts false ts := by
  simp [parts, h]

theorem partsFrom_qualifiers (p : Primitive) (qs : List Qualifier) (ts : List Token) :
    partsFrom p (qs.map Token.qualifier ++ ts) = partsFrom p ts := by
  induction qs with
  | nil => rfl
  | cons k qs ih => exact ih

theorem partsFrom_word (h : p.extend? word = some q) (ts : List Token) :
    partsFrom p (.name word :: ts) = partsFrom q ts := by
  simp [partsFrom, Primitive.munch, h]

theorem partsFrom_other (h : p.extend? word = none) (ts : List Token) :
    partsFrom p (.name word :: ts) = .primitive p :: parts false (.name word :: ts) := by
  simp [partsFrom, Primitive.munch, h]

theorem partsFrom_dangling (h : ∀ t ∈ ts.head?, t.isQualifier = false ∧ t.isName = false)
    (p : Primitive) : partsFrom p ts = .primitive p :: parts false ts := by
  cases ts with
  | nil => rfl
  | cons t ts =>
    have ht := h t rfl
    cases t <;> simp_all [partsFrom, Primitive.munch, Token.isQualifier, Token.isName]

/-- The two token lists are read alike behind every primitive, or else where nothing waits. -/
def SameBehind (behindPrimitive : Bool) (ts us : List Token) : Prop :=
  if behindPrimitive then ∀ p, partsFrom p ts = partsFrom p us else parts false ts = parts false us

namespace SameBehind

variable {t : Token}

theorem parts_cons (h : SameBehind t.isPrimitive ts us) (ht : t.isQualifier = false)
    (pendingSign : Bool) : parts pendingSign (t :: ts) = parts pendingSign (t :: us) := by
  cases t with
  | name word =>
    cases hword : Primitive.ofWord? word with
    | some p =>
      have h : ∀ p, partsFrom p ts = partsFrom p us := by
        simpa [SameBehind, Token.isPrimitive, hword] using h
      rw [parts_primitive hword, parts_primitive hword, h]
    | none =>
      have h : parts false ts = parts false us := by
        simpa [SameBehind, Token.isPrimitive, hword] using h
      rw [parts_aggregate hword, parts_aggregate hword, h]
  | qualifier q => simp [Token.isQualifier] at ht
  | _ =>
    have h : parts false ts = parts false us := h
    rw [parts, parts, h]

theorem partsFrom_cons (h : SameBehind t.isPrimitive ts us) (ht : t.isQualifier = false)
    (p : Primitive) : partsFrom p (t :: ts) = partsFrom p (t :: us) := by
  have hparts := h.parts_cons ht false
  cases t with
  | name word =>
    cases hword : p.extend? word with
    | some q =>
      have h : ∀ p, partsFrom p ts = partsFrom p us := by
        have hprimitive := Primitive.isSome_ofWord?_of_extend? hword
        simpa [SameBehind, Token.isPrimitive, hprimitive] using h
      rw [partsFrom_word hword, partsFrom_word hword, h]
    | none => rw [partsFrom_other hword, partsFrom_other hword, hparts]
  | qualifier q => simp [Token.isQualifier] at ht
  | _ =>
    rw [partsFrom_dangling (by simp [Token.isQualifier, Token.isName]),
      partsFrom_dangling (by simp [Token.isQualifier, Token.isName]), hparts]

theorem cons (h : SameBehind t.isPrimitive ts us) (ht : t.isQualifier = false)
    (behindPrimitive : Bool) : SameBehind behindPrimitive (t :: ts) (t :: us) := by
  cases behindPrimitive with
  | false => exact h.parts_cons ht false
  | true => exact h.partsFrom_cons ht

end SameBehind

/-- Nothing before them tells the two token lists apart. -/
structure ReadAlike (ts us : List Token) : Prop where
  behindMark : ∀ pendingSign, parts pendingSign ts = parts pendingSign us
  behindPrimitive : ∀ p, partsFrom p ts = partsFrom p us

namespace ReadAlike

theorem sameBehind (h : ReadAlike ts us) (behindPrimitive : Bool) :
    SameBehind behindPrimitive ts us := by
  cases behindPrimitive with
  | false => exact h.behindMark false
  | true => exact h.behindPrimitive

theorem cons (h : ReadAlike ts us) (t : Token) : ReadAlike (t :: ts) (t :: us) := by
  have hsame := h.sameBehind t.isPrimitive
  cases t with
  | qualifier k =>
    refine ⟨fun b => ?_, h.behindPrimitive⟩
    rw [parts, parts, h.behindMark]
  | _ => exact ⟨hsame.parts_cons rfl, hsame.partsFrom_cons rfl⟩

theorem append (h : ReadAlike ts us) (before : List Token) :
    ReadAlike (before ++ ts) (before ++ us) := by
  induction before with
  | nil => exact h
  | cons t before ih => exact ih.cons t

end ReadAlike

theorem readAlike_of_not_sign {k : Qualifier} (h : k.isSign = false) (ts : List Token) :
    ReadAlike (.qualifier k :: ts) ts where
  behindMark b := by rw [parts, h, Bool.or_false]
  behindPrimitive _ := rfl

theorem readAlike_sign {k l : Qualifier} (hk : k.isSign = true) (hl : l.isSign = true)
    (ts : List Token) : ReadAlike (.qualifier k :: ts) (.qualifier l :: ts) where
  behindMark b := by rw [parts, parts, hk, hl]
  behindPrimitive _ := rfl

theorem readAlike_word (qs : List Qualifier) (word : String) (ts : List Token) :
    ReadAlike (qs.map Token.qualifier ++ .name word :: ts) (.name word :: ts) where
  behindMark b := by rw [parts_qualifiers_append, parts_name, parts_name b]
  behindPrimitive p := partsFrom_qualifiers p qs _

end Parts

section NormalForm

variable {behindPrimitive : Bool} {ts us : List Token} {t : Token}

theorem not_isQualifier_of_dropWhile {rest : List Token}
    (h : ts.dropWhile Token.isQualifier = t :: rest) : t.isQualifier = false := by
  have hhead := List.head?_dropWhile_not Token.isQualifier ts
  simpa [h] using hhead

theorem isQualifier_of_mem_normalForm (ht : t ∈ normalForm behindPrimitive ts) :
    t.isQualifier = false := by
  have hresidue {b : Bool} {run : List Token} {next : Option Token} (h : t ∈ residue b run next) :
      t.isQualifier = false := by
    unfold residue at h
    split at h
    · obtain rfl := List.mem_singleton.mp h
      rfl
    · simp at h
  fun_induction normalForm behindPrimitive ts with
  | case1 b ts h => exact hresidue ht
  | case2 b ts first rest h ih =>
    rcases List.mem_append.mp ht with ht | ht
    · exact hresidue ht
    rcases List.mem_cons.mp ht with rfl | ht
    · exact not_isQualifier_of_dropWhile h
    · exact ih ht

theorem exists_qualifiers (ts : List Token) :
    ∃ qs : List Qualifier, ts.takeWhile Token.isQualifier = qs.map Token.qualifier := by
  induction ts with
  | nil => exact ⟨[], rfl⟩
  | cons t ts ih =>
    obtain ⟨qs, hqs⟩ := ih
    cases t with
    | qualifier q => exact ⟨q :: qs, by rw [List.takeWhile_cons_of_pos rfl, hqs, List.map_cons]⟩
    | _ => exact ⟨[], rfl⟩

/-- Behind a primitive a run of qualifiers belongs to its spelling, elsewhere a sign keyword in it may
stand alone. -/
theorem SameBehind.residue_append (h : SameBehind behindPrimitive us ts)
    (hhead : us.head? = ts.head?) (hts : ∀ t ∈ ts.head?, t.isQualifier = false)
    (qs : List Qualifier) :
    SameBehind behindPrimitive (residue behindPrimitive (qs.map Token.qualifier) ts.head? ++ us)
      (qs.map Token.qualifier ++ ts) := by
  have hany : (qs.map Token.qualifier).any Token.isSign = qs.any Qualifier.isSign := by
    rw [List.any_map]
    rfl
  cases behindPrimitive with
  | true =>
    intro p
    rw [partsFrom_qualifiers, ← h p]
    simp [residue]
  | false =>
    have h : parts false us = parts false ts := h
    show parts false (residue false (qs.map Token.qualifier) ts.head? ++ us) = _
    rw [parts_qualifiers_append, Bool.false_or, residue, hany]
    cases hname : ts.head?.any Token.isName with
    | true =>
      have hword : parts (qs.any Qualifier.isSign) ts = parts false ts :=
        parts_of_head_isName (by simpa [Option.any_eq_true] using hname) _
      rw [hword]
      simpa [hname] using h
    | false =>
      cases hsign : qs.any Qualifier.isSign with
      | false => simpa using h
      | true =>
        have hdangling : ∀ t ∈ ts.head?, t.isQualifier = false ∧ t.isName = false := by
          intro t ht
          exact ⟨hts t ht, by simpa [Option.mem_def.mp ht] using hname⟩
        have hint : Primitive.ofWord? "int" = some .i32 := by decide
        rw [parts_true_of_dangling hdangling, ← h]
        simp only [Bool.not_false, Bool.and_self, if_true]
        rw [List.singleton_append, parts_primitive hint, partsFrom_dangling (hhead ▸ hdangling)]

theorem sameBehind_normalForm (behindPrimitive : Bool) (ts : List Token) :
    SameBehind behindPrimitive (normalForm behindPrimitive ts) ts := by
  -- Whether a primitive stands before it decides how a run is read, so the claim is made for both.
  fun_induction normalForm behindPrimitive ts with
  | case1 b ts h =>
    obtain ⟨qs, hqs⟩ := exists_qualifiers ts
    have hts : qs.map Token.qualifier ++ [] = ts := by
      rw [← hqs, ← h, List.takeWhile_append_dropWhile]
    have hnil : SameBehind b [] [] := by cases b <;> simp [SameBehind]
    have hrun := hnil.residue_append rfl (by simp) qs
    rw [hts] at hrun
    simpa [← hts] using hrun
  | case2 b ts t rest h ih =>
    obtain ⟨qs, hqs⟩ := exists_qualifiers ts
    have hts : qs.map Token.qualifier ++ t :: rest = ts := by
      rw [← hqs, ← h, List.takeWhile_append_dropWhile]
    have ht := not_isQualifier_of_dropWhile h
    have hcons := ih.cons ht b
    have hrun := hcons.residue_append rfl (by simpa using ht) qs
    rw [hts] at hrun
    rw [hqs]
    exact hrun

end NormalForm

namespace Lowering

variable {σ : Type}

theorem lowerTokens_congr {ts us : List Token} (h : parts false ts = parts false us)
    (oracle : Oracle σ) (depth : Nat) :
    lowerTokens oracle depth ts = lowerTokens oracle depth us := by
  rw [lowerTokens, lowerTokens, h]

/-- Qualifiers have a normal form, without qualifiers, which is lowered alike in all respects. So
`const` and `struct` may stand anywhere or not, one sign keyword is as good as the other, and one in
front of a name counts for nothing. -/
theorem lowerTokens_normalForm (oracle : Oracle σ) (depth : Nat) (ts : List Token) :
    lowerTokens oracle depth (normalForm false ts) = lowerTokens oracle depth ts ∧
    (∀ t ∈ normalForm false ts, t.isQualifier = false) ∧
    (∀ before after (k : Qualifier), k.isSign = false →
      lowerTokens oracle depth (before ++ .qualifier k :: after) =
        lowerTokens oracle depth (before ++ after)) ∧
    (∀ before after (k l : Qualifier), k.isSign = true → l.isSign = true →
      lowerTokens oracle depth (before ++ .qualifier k :: after) =
        lowerTokens oracle depth (before ++ .qualifier l :: after)) ∧
    ∀ before after (qs : List Qualifier) word,
      lowerTokens oracle depth (before ++ (qs.map .qualifier ++ .name word :: after)) =
        lowerTokens oracle depth (before ++ .name word :: after) := by
  refine ⟨lowerTokens_congr (sameBehind_normalForm false ts) oracle depth,
    fun t => isQualifier_of_mem_normalForm, ?_, ?_, ?_⟩
  · intro before after k hk
    have halike := (readAlike_of_not_sign hk after).append before
    exact lowerTokens_congr (halike.behindMark false) oracle depth
  · intro before after k l hk hl
    have halike := (readAlike_sign hk hl after).append before
    exact lowerTokens_congr (halike.behindMark false) oracle depth
  · intro before after qs word
    have halike := (readAlike_word qs word after).append before
    exact lowerTokens_congr (halike.behindMark false) oracle depth

/-- Every name is an aggregate without members. -/
def hollow : Oracle Unit := .ofFun fun _ => some ⟨[]⟩

theorem lowerTokens_normalForm_hollow :
    let ts := [Token.qualifier .unsigned, .stars 1, .name "long", .qualifier .const,
      .qualifier .signed, .name "int", .qualifier .unsigned, .comma, .qualifier .struct,
      .name "list", .qualifier .signed, .qualifier .const]
    let plain := [Token.name "int", .stars 1, .name "long", .name "int", .comma, .name "list",
      .name "int"]
    normalForm false ts = plain ∧
    (lowerTokens hollow 1 ts ()).result = .ok "i32*i64,\x7b\x7di32" ∧
    lowerTokens hollow 1 [.name "long", .qualifier .const, .name "int"] =
      lowerTokens hollow 1 [.name "long", .name "int"] ∧
    lowerTokens hollow 1 [.name "list", .qualifier .signed] =
      lowerTokens hollow 1 [.name "list", .qualifier .unsigned] := by
  intro ts plain
  obtain ⟨hform, -, hdelete, hexchange, -⟩ := lowerTokens_normalForm hollow 1 ts
  have hplain : normalForm false ts = plain := by decide +kernel
  have hvalue : (lowerTokens hollow 1 plain ()).value? = some "i32*i64,\x7b\x7di32" := by
    decide +kernel
  rw [hplain] at hform
  refine ⟨hplain, ?_, ?_, ?_⟩
  · rw [← hform]
    exact Outcome.value?_eq_some_iff.mp hvalue
  · exact hdelete [.name "long"] [.name "int"] .const (by decide)
  · exact hexchange [.name "list"] [] .signed .unsigned (by decide) (by decide)

end Lowering

end DecompConfig
