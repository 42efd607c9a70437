import DecompConfig.Config.Building
import DecompConfig.Proofs.Run

namespace DecompConfig

variable {σ τ ε ε' α β : Type}

namespace Run

/-- A relation between runs that everything keeps of which conversions are made. -/
structure Congruence (R : (ε α : Type) → Run σ ε α → Run τ ε α → Prop) : Prop where
  compatible : ∀ ε, Compatible (R ε)
  fail : ∀ {ε α : Type} (e : ε), R ε α (.fail e) (.fail e)
  emit : ∀ {ε : Type} (event : Event), R ε Unit (.emit event) (.emit event)
  mapError : ∀ {ε ε' α : Type} {x : Run σ ε α} {y : Run τ ε α} (f : ε → ε'),
    R ε α x y → R ε' α (x.mapError f) (y.mapError f)
  attempt : ∀ {ε ε' α : Type} {x : Run σ ε α} {y : Run τ ε α},
    R ε α x y → R ε' (Except ε α) x.attempt y.attempt

end Run

namespace Converter

/-- Converters that differ in nothing but the runs by which they encode types, and these are related. -/
structure Related (R : (ε α : Type) → Run σ ε α → Run τ ε α → Prop) (c : Converter σ)
    (d : Converter τ) : Prop where
  congruence : Run.Congruence R
  encode : ∀ type, R LoweringError String (c.encode type) (d.encode type)
  word : c.word = d.word

namespace Related

variable {R : (ε α : Type) → Run σ ε α → Run τ ε α → Prop} {c : Converter σ} {d : Converter τ}

theorem pure (h : Related R c d) (a : α) : R ε α (Pure.pure a) (Pure.pure a) :=
  (h.congruence.compatible ε).pure a

theorem bind (h : Related R c d) {x : Run σ ε α} {y : Run τ ε α} {f : α → Run σ ε β}
    {g : α → Run τ ε β} (hx : R ε α x y) (hf : ∀ a, R ε β (f a) (g a)) :
    R ε β (x >>= f) (y >>= g) :=
  (h.congruence.compatible ε).bind hx hf

theorem lower (h : Related R c d) (subject : Subject) (type : String) :
    R _ _ (c.lower subject type) (d.lower subject type) :=
  h.congruence.mapError _ (h.bind (h.encode type) fun _ => h.pure _)

theorem convention (h : Related R c d) (name : String) (convention? : Option String) :
    R _ _ (Converter.convention name convention?) (Converter.convention name convention?) := by
  cases convention? with
  | none => exact h.pure _
  | some convention =>
    simp only [Converter.convention]
    split
    · exact h.bind (h.congruence.emit _) fun _ => h.pure _
    · exact h.pure _

theorem parameters (h : Related R c d) (function : String) (arguments : List Analysis.Argument) :
    R _ _ (c.parameters function arguments) (d.parameters function arguments) := by
  induction arguments with
  | nil => exact h.pure _
  | cons a arguments ih => exact h.bind (h.lower _ _) fun _ => h.bind ih fun _ => h.pure _

theorem locals (h : Related R c d) (function : String) (vs : List Analysis.Variable) :
    R _ _ (c.locals function vs) (d.locals function vs) := by
  have hstorage : c.storage = d.storage := by
    funext location
    cases location <;> simp [storage, h.word]
  induction vs with
  | nil => exact h.pure _
  | cons v vs ih =>
    rw [Converter.locals, Converter.locals, hstorage]
    split
    · exact h.bind (h.congruence.emit _) fun _ => ih
    · exact h.bind (h.lower _ _) fun _ => h.bind ih fun _ => h.pure _

theorem function (h : Related R c d) (f : Analysis.Function) :
    R _ _ (c.function f) (d.function f) :=
  h.bind (h.congruence.emit _) fun _ => h.bind (h.convention _ _) fun _ =>
    h.bind (h.parameters _ _) fun _ => h.bind (h.locals _ _) fun _ =>
      h.bind (h.lower _ _) fun _ => h.pure _

theorem functions (h : Related R c d) (lenient : Bool) (fs : List Analysis.Function) :
    R _ _ (c.functions lenient fs) (d.functions lenient fs) := by
  induction fs with
  | nil => exact h.pure _
  | cons f fs ih =>
    refine h.bind (h.congruence.attempt (h.function f)) fun result => ?_
    cases result with
    | ok record => exact h.bind ih fun _ => h.pure _
    | error e =>
      cases lenient with
      | true => exact h.bind (h.congruence.emit _) fun _ => ih
      | false => exact h.congruence.fail e

theorem build (h : Related R c d) (lenient : Bool) (functions : List Analysis.Function)
    (symbols : List Analysis.Symbol) (flags : List Analysis.Flag) :
    R _ _ (c.build lenient functions symbols flags) (d.build lenient functions symbols flags) :=
  h.bind (h.functions lenient functions) fun _ =>
    h.bind (h.congruence.emit _) fun _ => h.pure _

end Related

end Converter

end DecompConfig
