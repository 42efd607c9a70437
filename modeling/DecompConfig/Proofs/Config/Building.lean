import DecompConfig.Proofs.Config.Conversion
import DecompConfig.Proofs.Lowering.Agreement
import DecompConfig.Proofs.Lowering.Session
import DecompConfig.Proofs.TypeTable.Cycle

namespace DecompConfig

variable {σ ε α β : Type}

section Traversal

variable {f : α → Except ε β}

theorem mapM_eq_ok_iff {l : List α} {bs : List β} : l.mapM f = .ok bs ↔ l.map f = bs.map .ok := by
  induction l generalizing bs with
  | nil => cases bs <;> simp [pure, Except.pure]
  | cons a l ih =>
    rw [List.mapM_cons]
    cases bs with
    | nil =>
      cases f a <;> cases l.mapM f <;> simp [bind, Except.bind, pure, Except.pure]
    | cons b bs =>
      rw [List.map_cons, List.map_cons, List.cons_eq_cons, ← ih]
      cases f a <;> cases l.mapM f <;> simp [bind, Except.bind, pure, Except.pure]

theorem mapM_eq_error_iff {l : List α} {e : ε} : l.mapM f = .error e ↔
    ∃ before a after, l = before ++ a :: after ∧ (∀ b ∈ before, ∃ c, f b = .ok c) ∧
      f a = .error e := by
  induction l with
  | nil => simp [pure, Except.pure]
  | cons first l ih =>
    rw [List.mapM_cons]
    cases hfirst : f first with
    | error e' =>
      constructor
      · intro h
        obtain rfl := Except.error.inj h
        exact ⟨[], first, l, rfl, nofun, hfirst⟩
      · intro h
        obtain ⟨before, a, after, heq, hbefore, ha⟩ := h
        cases before with
        | nil =>
          obtain ⟨rfl, rfl⟩ := List.cons_eq_cons.mp heq
          obtain rfl := Except.error.inj (hfirst.symm.trans ha)
          rfl
        | cons b before =>
          obtain ⟨rfl, rfl⟩ := List.cons_eq_cons.mp heq
          obtain ⟨c, hc⟩ := hbefore _ List.mem_cons_self
          rw [hfirst] at hc
          cases hc
    | ok c =>
      have hbind : (Except.ok c >>= fun c => l.mapM f >>= fun cs => pure (c :: cs)) = .error e ↔
          l.mapM f = .error e := by
        cases l.mapM f <;> simp [bind, Except.bind, pure, Except.pure]
      rw [hbind, ih]
      constructor
      · intro h
        obtain ⟨before, a, after, rfl, hbefore, ha⟩ := h
        exact ⟨first :: before, a, after, rfl, List.forall_mem_cons.mpr ⟨⟨c, hfirst⟩, hbefore⟩, ha⟩
      · intro h
        obtain ⟨before, a, after, heq, hbefore, ha⟩ := h
        cases before with
        | nil =>
          obtain ⟨rfl, rfl⟩ := List.cons_eq_cons.mp heq
          rw [hfirst] at ha
          cases ha
        | cons b before =>
          obtain ⟨rfl, rfl⟩ := List.cons_eq_cons.mp heq
          exact ⟨before, a, after, rfl, (List.forall_mem_cons.mp hbefore).2, ha⟩

end Traversal

namespace Converter

section Functions

variable (c : Converter σ) {f : Analysis.Function} (fs : List Analysis.Function) {s : σ}
  {record : Config.Function} {e : ConversionError}

theorem functions_cons_of_ok (lenient : Bool) (hf : (c.function f s).result = .ok record) :
    c.functions lenient (f :: fs) s =
      ((c.functions lenient fs (c.function f s).state).map (record :: ·)).after
        (c.function f s).events := by
  have hattempt : ((c.function f).attempt s : Outcome σ ConversionError _).result =
      .ok (.ok record) := congrArg Except.ok hf
  rw [functions, Run.bind_of_ok hattempt]
  exact congrArg _ (Run.bind_pure_apply _ _ _)

theorem functions_lenient_cons_of_error (hf : (c.function f s).result = .error e) :
    c.functions true (f :: fs) s =
      (c.functions true fs (c.function f s).state).after
        ((c.function f s).events ++ [.skipped f.name e]) := by
  have hattempt : ((c.function f).attempt s : Outcome σ ConversionError _).result =
      .ok (.error e) := congrArg Except.ok hf
  rw [functions, Run.bind_of_ok hattempt, Outcome.after_append]
  rfl

theorem functions_strict_cons_of_error (hf : (c.function f s).result = .error e) :
    c.functions false (f :: fs) s = ⟨.error e, (c.function f s).state, (c.function f s).events⟩ := by
  have hattempt : ((c.function f).attempt s : Outcome σ ConversionError _).result =
      .ok (.error e) := congrArg Except.ok hf
  rw [functions, Run.bind_of_ok hattempt, ← List.append_nil (c.function f s).events]
  rfl

end Functions

/-- The results of runs, whatever states they begin in. -/
def SameResult (ε α : Type) (x y : Run σ ε α) : Prop := ∀ s t, (x s).result = (y t).result

theorem SameResult.congruence : Run.Congruence (SameResult (σ := σ)) where
  compatible ε :=
    { pure := fun _ _ _ => rfl
      bind := by
        intro α β x y f g hx hf s t
        have hresult := hx s t
        cases h : (x s).result with
        | error e =>
          rw [Run.bind_of_error h, Run.bind_of_error (hresult.symm.trans h)]
        | ok a =>
          rw [Run.bind_of_ok h, Run.bind_of_ok (hresult.symm.trans h)]
          exact hf a _ _ }
  fail _ _ _ := rfl
  emit _ _ _ := rfl
  mapError f h s t := congrArg (Except.mapError f) (h s t)
  attempt h s t := congrArg Except.ok (h s t)

section Steady

variable {c : Converter σ} (h : Related SameResult c c) (t : σ)
include h

theorem result_functions_lenient (fs : List Analysis.Function) (s : σ) :
    (c.functions true fs s).result =
      .ok (fs.filterMap fun f => (c.function f t).result.toOption) := by
  induction fs generalizing s with
  | nil => rfl
  | cons f fs ih =>
    have hsteady := h.function f s t
    cases hf : (c.function f s).result with
    | ok record =>
      rw [functions_cons_of_ok c fs true hf, Outcome.result_after, Outcome.map, ih,
        List.filterMap_cons, ← hsteady, hf]
      rfl
    | error e =>
      rw [functions_lenient_cons_of_error c fs hf, Outcome.result_after, ih, List.filterMap_cons,
        ← hsteady, hf]
      rfl

theorem result_functions_strict (fs : List Analysis.Function) (s : σ) :
    (c.functions false fs s).result = fs.mapM fun f => (c.function f t).result := by
  induction fs generalizing s with
  | nil => rfl
  | cons f fs ih =>
    have hsteady := h.function f s t
    rw [List.mapM_cons, ← hsteady]
    cases hf : (c.function f s).result with
    | ok record =>
      rw [functions_cons_of_ok c fs false hf, Outcome.result_after, Outcome.map, ih]
      cases fs.mapM fun f => (c.function f t).result <;> rfl
    | error e =>
      rw [functions_strict_cons_of_error c fs hf]
      rfl

end Steady

theorem result_build (c : Converter σ) (lenient : Bool) (functions : List Analysis.Function)
    (symbols : List Analysis.Symbol) (flags : List Analysis.Flag) (s : σ) :
    (c.build lenient functions symbols flags s).result =
      (c.functions lenient functions s).result.map fun records =>
        ⟨records, globalVariables symbols flags (functions.map Analysis.Function.address)⟩ := by
  cases h : (c.functions lenient functions s).result with
  | ok records =>
    rw [build, Run.bind_of_ok h]
    rfl
  | error e =>
    rw [build, Run.bind_of_error h]
    rfl

end Converter

namespace Session

/-- Whatever the register holds, `x` does what `y` does without a register. -/
def Ignores (ε α : Type) (x : Run (Session σ) ε α) (y : Run σ ε α) : Prop :=
  ∀ l, erase (x l) = y l.oracleState

theorem Ignores.congruence : Run.Congruence (Ignores (σ := σ)) where
  compatible ε :=
    { pure := fun _ _ => rfl
      bind := by
        intro α β x y f g hx hf l
        have hx := hx l
        have hresult : (x l).result = (y l.oracleState).result := congrArg Outcome.result hx
        cases h : (y l.oracleState).result with
        | error e =>
          rw [Run.bind_of_error h, Run.bind_of_error (hresult.trans h), ← hx]
          rfl
        | ok a =>
          have hrest := hf a (x l).state
          rw [Run.bind_of_ok h, Run.bind_of_ok (hresult.trans h), ← hx]
          exact congrArg (Outcome.after (x l).events) hrest }
  fail _ _ := rfl
  emit _ _ := rfl
  mapError f h l :=
    congrArg (fun o => (⟨o.result.mapError f, o.state, o.events⟩ : Outcome σ _ _)) (h l)
  attempt h l := congrArg (fun o => (⟨.ok o.result, o.state, o.events⟩ : Outcome σ _ _)) (h l)

end Session

namespace Builder

variable (b : Builder σ)

/-- The converter whose types are all encoded by one lowerer, which keeps its register of open
aggregates from one type to the next and from one function to the next. -/
def sharing : Converter (Session σ) :=
  ⟨fun type => Session.lower b.oracle b.depth (.type type), b.word⟩

theorem related_sharing : Converter.Related Session.Ignores b.sharing b.converter where
  congruence := Session.Ignores.congruence
  encode type := Session.erase_lower b.oracle b.depth (.type type)
  word := rfl

theorem related_converter {answer : String → Except LoweringError (Option Aggregate)}
    (h : b.oracle.DeterminedBy answer) :
    Converter.Related Converter.SameResult b.converter b.converter where
  congruence := Converter.SameResult.congruence
  encode type s t :=
    have hsame : (lowerType b.oracle b.depth type s).Same (lowerType b.oracle b.depth type t) :=
      Lowering.same_of_eq_on_queries h h (fun _ _ => rfl) t
    hsame.1
  word := rfl

/-- Strict and lenient builds agree, function by function, with conversions that are begun afresh. A
strict build succeeds exactly if every function can be converted alone, with these configurations in
order, and fails with the error of the first function that cannot. A lenient build always succeeds, with
the configurations of the functions that can. Its globals leave out the addresses of all functions, also
of those it skips, so that it repeats every successful strict build. None of this depends on whether
conversions share a register of open aggregates, nor on what a failure before them left in it. -/
theorem builds_agree_by_function {answer : String → Except LoweringError (Option Aggregate)}
    (h : b.oracle.DeterminedBy answer) (functions : List Analysis.Function)
    (symbols : List Analysis.Symbol) (flags : List Analysis.Flag) (l : Session σ) (t : σ) :
    let alone := fun f => (b.function f t).result
    let strict := (b.build false functions symbols flags l.oracleState).result
    let lenient := (b.build true functions symbols flags l.oracleState).result
    let globals := globalVariables symbols flags (functions.map Analysis.Function.address)
    ((∃ config, strict = .ok config) ↔ ∀ f ∈ functions, ∃ record, alone f = .ok record) ∧
    (∀ config, strict = .ok config ↔
      functions.map alone = config.functions.map .ok ∧ config.globals = globals) ∧
    (∀ e, strict = .error e ↔ ∃ before f after, functions = before ++ f :: after ∧
      (∀ g ∈ before, ∃ record, alone g = .ok record) ∧ alone f = .error e) ∧
    lenient = .ok ⟨functions.filterMap fun f => (alone f).toOption, globals⟩ ∧
    (∀ config, strict = .ok config → lenient = .ok config) ∧
    (∀ f, Session.erase (b.sharing.function f l) = b.function f l.oracleState) ∧
    ∀ skips, Session.erase (b.sharing.build skips functions symbols flags l) =
      b.build skips functions symbols flags l.oracleState := by
  intro alone strict lenient globals
  have hsteady := b.related_converter h
  have hstrict : strict = (functions.mapM alone).map fun records => ⟨records, globals⟩ := by
    show (b.converter.build _ _ _ _ _).result = _
    rw [Converter.result_build, Converter.result_functions_strict hsteady t]
    rfl
  have hlenient : lenient = .ok ⟨functions.filterMap fun f => (alone f).toOption, globals⟩ := by
    show (b.converter.build _ _ _ _ _).result = _
    rw [Converter.result_build, Converter.result_functions_lenient hsteady t]
    rfl
  have hok (config : Config) : strict = .ok config ↔
      functions.map alone = config.functions.map .ok ∧ config.globals = globals := by
    rw [hstrict, ← mapM_eq_ok_iff]
    cases functions.mapM alone with
    | error e => simp [Except.map]
    | ok records =>
      constructor
      · intro heq
        obtain rfl := Except.ok.inj heq
        exact ⟨rfl, rfl⟩
      · rintro ⟨hrecords, hglobals⟩
        rw [Except.ok.inj hrecords, ← hglobals]
        rfl
  have herror (e : ConversionError) : strict = .error e ↔ functions.mapM alone = .error e := by
    rw [hstrict]
    cases functions.mapM alone <;> simp [Except.map]
  refine ⟨⟨?_, ?_⟩, hok, fun e => (herror e).trans mapM_eq_error_iff, hlenient, ?_,
    fun f => b.related_sharing.function f l,
    fun skips => b.related_sharing.build skips functions symbols flags l⟩
  · intro hexists f hf
    obtain ⟨config, hconfig⟩ := hexists
    have hmem : alone f ∈ functions.map alone := List.mem_map_of_mem hf
    rw [((hok config).mp hconfig).1] at hmem
    obtain ⟨record, -, hrecord⟩ := List.mem_map.mp hmem
    exact ⟨record, hrecord.symm⟩
  · intro hall
    cases hresult : strict with
    | ok config => exact ⟨config, rfl⟩
    | error e =>
      obtain ⟨before, f, after, heq, -, hf⟩ := mapM_eq_error_iff.mp ((herror e).mp hresult)
      obtain ⟨record, hrecord⟩ := hall f (heq ▸ List.mem_append_right before List.mem_cons_self)
      rw [hf] at hrecord
      cases hrecord
  · intro config hconfig
    obtain ⟨hrecords, hglobals⟩ := (hok config).mp hconfig
    have hall : functions.filterMap (fun f => (alone f).toOption) = config.functions := by
      have hmap : functions.filterMap (fun f => (alone f).toOption) =
          (functions.map alone).filterMap Except.toOption := by rw [List.filterMap_map]; rfl
      rw [hmap, hrecords, List.filterMap_map]
      exact List.filterMap_some
    rw [hlenient, hall, ← hglobals]

/-- A function without arguments and variables. -/
def plainFunction (name : String) (address : UInt64) (returnType : String) : Analysis.Function where
  name := name
  address := address
  size := 16
  convention := none
  baseVariables := []
  stackVariables := []
  registerVariables := []
  arguments := []
  returnType := returnType

/-- The first function fails inside `e`; with what it leaves in the register, `a` would be nested too
deeply. -/
theorem builds_agree_by_function_diamond :
    let b : Builder Unit := ⟨TypeTable.diamond.oracle, .bits64, 3⟩
    let functions := [plainFunction "sym.one" 4096 "e *", plainFunction "sym.two" 8192 "a"]
    let symbols := [⟨"sym.one", 4096, "GLOBAL", "FUNC"⟩, ⟨"sym.count", 64, "GLOBAL", "OBJ"⟩]
    let left : Session Unit := ⟨(), ["e"]⟩
    b.oracle.DeterminedBy (fun name => .ok (TypeTable.diamond.get? name)) ∧
    (b.sharing.function (plainFunction "sym.one" 4096 "e *") (.fresh ())).state = left ∧
    (b.build false functions symbols [] ()).result =
      .error ⟨.returnValue "one", .cyclic "e" ["e", "e"]⟩ ∧
    ∃ record, (b.sharing.function (plainFunction "sym.two" 8192 "a") left).result = .ok record ∧
      (b.build true functions symbols [] ()).result =
        .ok ⟨[record], [⟨"count", .global "0x40"⟩]⟩ := by
  intro b functions symbols left
  have horacle : b.oracle.DeterminedBy (fun name => .ok (TypeTable.diamond.get? name)) :=
    fun _ _ => rfl
  obtain ⟨-, -, herror, hlenient, -, hshared, -⟩ :=
    b.builds_agree_by_function horacle functions symbols [] left ()
  have hone : (b.function (plainFunction "sym.one" 4096 "e *") ()).failure? =
      some ⟨.returnValue "one", .cyclic "e" ["e", "e"]⟩ := by decide +kernel
  have htwo : (b.function (plainFunction "sym.two" 8192 "a") ()).failure? = none := by
    decide +kernel
  have hleft : (b.sharing.function (plainFunction "sym.one" 4096 "e *") (.fresh ())).state = left := by
    decide +kernel
  have hglobals : globalVariables symbols [] (functions.map Analysis.Function.address) =
      [⟨"count", .global "0x40"⟩] := by decide +kernel
  obtain ⟨record, hrecord⟩ := Outcome.failure?_eq_none_iff.mp htwo
  have hskipped := Outcome.failure?_eq_some_iff.mp hone
  refine ⟨horacle, hleft, (herror _).mpr ⟨[], _, _, rfl, nofun, hskipped⟩, record, ?_, ?_⟩
  · exact (congrArg Outcome.result (hshared _)).trans hrecord
  · rw [hglobals] at hlenient
    refine hlenient.trans ?_
    simp [functions, hskipped, hrecord, Except.toOption]

end Builder

end DecompConfig
