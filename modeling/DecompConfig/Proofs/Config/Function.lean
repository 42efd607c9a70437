import DecompConfig.Proofs.Config.Building
import DecompConfig.Proofs.Frame.Spelling

namespace DecompConfig

namespace Analysis

/-- A part of a function whose type is encoded. -/
structure TypedPart where
  subject : Subject
  type : String
  deriving DecidableEq

namespace Function

variable (f : Function)

/-- The function without its variables that have no location. -/
def located : Function :=
  { f with
    baseVariables := f.baseVariables.filter (·.location.isSome)
    stackVariables := f.stackVariables.filter (·.location.isSome)
    registerVariables := f.registerVariables.filter (·.location.isSome) }

/-- The parts of a function, in the order in which their types are encoded. -/
def typedParts : List TypedPart :=
  f.arguments.map (fun a => ⟨.parameter a.name (functionName f.name), a.type⟩) ++
    (f.located.variables.map (fun v => ⟨.localVariable v.name (functionName f.name), v.type⟩) ++
      [⟨.returnValue (functionName f.name), f.returnType⟩])

theorem variables_located : f.located.variables = f.variables.filter (·.location.isSome) := by
  rw [Function.variables, Function.variables, List.filter_append, List.filter_append]
  rfl

theorem variables_located_located : f.located.located.variables = f.located.variables := by
  rw [variables_located, variables_located, List.filter_filter]
  simp only [Bool.and_self]

theorem typedParts_located : f.located.typedParts = f.typedParts := by
  rw [typedParts, variables_located_located]
  rfl

/-- The types of a function in the order in which they are encoded, each behind the words that name what
it belongs to. -/
def namedTypes : List (String × String) :=
  let name := functionName f.name
  let declared := f.stackVariables ++ f.baseVariables ++ f.registerVariables
  f.arguments.map (fun a => ("parameter `" ++ a.name ++ "` of `" ++ name ++ "`", a.type)) ++
    ((declared.filter (·.location.isSome)).map
      (fun v => ("variable `" ++ v.name ++ "` of `" ++ name ++ "`", v.type)) ++
    [("return value of `" ++ name ++ "`", f.returnType)])

theorem map_typedParts_eq_namedTypes :
    (f.typedParts.map fun p => (p.subject.text, p.type)) = f.namedTypes := by
  rw [typedParts, variables_located, List.map_append, List.map_append, List.map_map, List.map_map]
  rfl

theorem toNat_endAddress :
    f.endAddress.toNat = min (f.address.toNat + f.size.toNat) (2 ^ 64 - 1) := by
  have hlt : min (f.address.toNat + f.size.toNat) maxAddress < 2 ^ 64 :=
    lt_of_le_of_lt (Nat.min_le_right _ _) (by decide)
  rw [endAddress, UInt64.toNat_ofNat', Nat.mod_eq_of_lt hlt]
  rfl

theorem address_le_endAddress : f.address ≤ f.endAddress := by
  have hlt : f.address.toNat < 2 ^ 64 := f.address.toNat_lt
  rw [UInt64.le_iff_toNat_le, toNat_endAddress]
  omega

end Function

end Analysis

variable {σ α β : Type}

/-- A list has no more than one first member without a property. -/
theorem first_not_unique {P : α → Prop} {before before' after after' : List α} {a a' : α}
    (h : before ++ a :: after = before' ++ a' :: after') (hbefore : ∀ b ∈ before, P b)
    (hbefore' : ∀ b ∈ before', P b) (ha : ¬P a) (ha' : ¬P a') : before = before' ∧ a = a' := by
  induction before generalizing before' with
  | nil =>
    cases before' with
    | nil => exact ⟨rfl, (List.cons_eq_cons.mp h).1⟩
    | cons b before' =>
      obtain ⟨rfl, -⟩ := List.cons_eq_cons.mp h
      exact absurd (hbefore' a List.mem_cons_self) ha
  | cons b before ih =>
    cases before' with
    | nil =>
      obtain ⟨rfl, -⟩ := List.cons_eq_cons.mp h
      exact absurd (hbefore b List.mem_cons_self) ha'
    | cons b' before' =>
      obtain ⟨rfl, htail⟩ := List.cons_eq_cons.mp h
      obtain ⟨rfl, rfl⟩ := ih htail (List.forall_mem_cons.mp hbefore).2
        (List.forall_mem_cons.mp hbefore').2
      exact ⟨rfl, rfl⟩

section Conversion

-- What each type comes to when it is encoded on its own.
variable (alone : String → Outcome σ LoweringError String)

/-- The type of the part has an encoding. -/
def Analysis.TypedPart.HasCode (p : Analysis.TypedPart) : Prop :=
  ∃ code, (alone p.type).result = .ok code

/-- What the oracle is asked for while types are encoded. -/
def asked (parts : List Analysis.TypedPart) : List String :=
  parts.flatMap fun p => (alone p.type).queries

/-- How a conversion of parts ends: with a value as described if all types have encodings, and else with
the error of the first one that has none. -/
inductive Converted : List Analysis.TypedPart → (α → Prop) → Outcome σ ConversionError α → Prop
  | success {parts Q o a} : o.Yields a (asked alone parts) → Q a → (∀ p ∈ parts, p.HasCode alone) →
    Converted parts Q o
  | failure {before p after Q o cause} : (∀ q ∈ before, q.HasCode alone) →
    (alone p.type).result = .error cause → o.result = .error ⟨p.subject, cause⟩ →
    o.queries = asked alone (before ++ [p]) → Converted (before ++ p :: after) Q o

variable {alone} {parts parts' : List Analysis.TypedPart} {Q : α → Prop} {R : β → Prop} {s : σ}

theorem Analysis.TypedPart.not_hasCode {p : Analysis.TypedPart} {cause : LoweringError}
    (h : (alone p.type).result = .error cause) : ¬p.HasCode alone := by
  rintro ⟨code, hcode⟩
  rw [h] at hcode
  cases hcode

theorem asked_append (parts parts' : List Analysis.TypedPart) :
    asked alone (parts ++ parts') = asked alone parts ++ asked alone parts' :=
  List.flatMap_append

namespace Converted

theorem pure {a : α} (h : Q a) : Converted alone [] Q ((Pure.pure a : Run σ _ α) s) :=
  .success ⟨rfl, rfl⟩ h (by simp)

theorem emit {event : Event} (h : event.query? = none) :
    Converted alone [] (fun _ => True) ((Run.emit event : Run σ _ Unit) s) := by
  refine .success (a := ()) ⟨rfl, ?_⟩ trivial (by simp)
  show [event].filterMap Event.query? = []
  simp [h]

theorem bind {x : Run σ ConversionError α} {f : α → Run σ ConversionError β}
    (hx : Converted alone parts Q (x s))
    (hf : ∀ a, Q a → Converted alone parts' R (f a (x s).state)) :
    Converted alone (parts ++ parts') R ((x >>= f) s) := by
  cases hx with
  | @success _ _ _ a hyields hQ hparts =>
    have hbind := Run.bind_of_ok hyields.1 f
    have hqueries : ((x >>= f) s).queries = asked alone parts ++ (f a (x s).state).queries := by
      rw [hbind, Outcome.queries_after]
      exact congrArg (· ++ _) hyields.2
    have hresult : ((x >>= f) s).result = (f a (x s).state).result := by rw [hbind]; rfl
    have hrest := hf a hQ
    -- A failure of the rest stands behind all parts of `x`.
    generalize f a (x s).state = rest at hqueries hresult hrest
    cases hrest with
    | success hyields' hR hparts' =>
      have hall := List.forall_mem_append.mpr ⟨hparts, hparts'⟩
      refine .success ⟨hresult.trans hyields'.1, ?_⟩ hR hall
      rw [hqueries, hyields'.2, asked_append]
    | failure hbefore hp hresult' hqueries' =>
      rw [← List.append_assoc]
      have hall := List.forall_mem_append.mpr ⟨hparts, hbefore⟩
      refine .failure hall hp (hresult.trans hresult') ?_
      rw [hqueries, hqueries', ← asked_append, List.append_assoc]
  | failure hbefore hp hresult hqueries =>
    have hbind := Run.bind_of_error hresult f
    rw [List.append_assoc, List.cons_append]
    refine .failure hbefore hp ?_ ?_
    · rw [hbind]
    · rw [hbind, ← hqueries]
      rfl

/-- The value of a conversion that asks for nothing more. -/
theorem map {x : Run σ ConversionError α} {g : α → β} (hx : Converted alone parts Q (x s))
    (hg : ∀ a, Q a → R (g a)) : Converted alone parts R ((x >>= fun a => Pure.pure (g a)) s) := by
  rw [← List.append_nil parts]
  exact hx.bind fun a ha => pure (hg a ha)

variable {o : Outcome σ ConversionError α}

theorem of_ok (h : Converted alone parts Q o) {a : α} (ha : o.result = .ok a) :
    Q a ∧ o.queries = asked alone parts ∧ ∀ p ∈ parts, p.HasCode alone := by
  cases h with
  | success hyields hQ hparts =>
    obtain rfl := Except.ok.inj (hyields.1.symm.trans ha)
    exact ⟨hQ, hyields.2, hparts⟩
  | failure _ _ hresult =>
    rw [ha] at hresult
    cases hresult

theorem of_error (h : Converted alone parts Q o) {e : ConversionError} (he : o.result = .error e) :
    ∃ before p after, parts = before ++ p :: after ∧ (∀ q ∈ before, q.HasCode alone) ∧
      e.subject = p.subject ∧ (alone p.type).result = .error e.cause ∧
      o.queries = asked alone (before ++ [p]) := by
  cases h with
  | success hyields =>
    rw [hyields.1] at he
    cases he
  | failure hbefore hp hresult hqueries =>
    obtain rfl := Except.error.inj (hresult.symm.trans he)
    exact ⟨_, _, _, rfl, hbefore, rfl, hp, hqueries⟩

/-- The first part without an encoding decides how a conversion ends. -/
theorem of_first_failure (h : Converted alone parts Q o) {before after : List Analysis.TypedPart}
    {p : Analysis.TypedPart} {cause : LoweringError} (hsplit : parts = before ++ p :: after)
    (hbefore : ∀ q ∈ before, q.HasCode alone) (hp : (alone p.type).result = .error cause) :
    o.result = .error ⟨p.subject, cause⟩ ∧ o.queries = asked alone (before ++ [p]) := by
  have hnone := Analysis.TypedPart.not_hasCode hp
  cases ho : o.result with
  | ok a =>
    have hparts := (h.of_ok ho).2.2
    exact absurd (hparts p (hsplit ▸ List.mem_append_right before List.mem_cons_self)) hnone
  | error e =>
    obtain ⟨before', p', after', hsplit', hbefore', hsubject, hp', hqueries⟩ := h.of_error ho
    obtain ⟨rfl, rfl⟩ := first_not_unique (hsplit.symm.trans hsplit') hbefore hbefore' hnone
      (Analysis.TypedPart.not_hasCode hp')
    obtain rfl := Except.error.inj (hp.symm.trans hp')
    exact ⟨by rw [← hsubject], hqueries⟩

theorem imp (h : Converted alone parts Q o) {R : α → Prop} (hQR : ∀ a, Q a → R a) :
    Converted alone parts R o := by
  cases h with
  | success hyields hQ hparts => exact .success hyields (hQR _ hQ) hparts
  | failure hbefore hp hresult hqueries => exact .failure hbefore hp hresult hqueries

theorem exists_ok_iff (h : Converted alone parts Q o) :
    (∃ a, o.result = .ok a) ↔ ∀ p ∈ parts, p.HasCode alone := by
  constructor
  · rintro ⟨a, ha⟩
    exact (h.of_ok ha).2.2
  · intro hparts
    cases ho : o.result with
    | ok a => exact ⟨a, rfl⟩
    | error e =>
      obtain ⟨before, p, after, rfl, -, -, hp, -⟩ := h.of_error ho
      have hcode := hparts p (List.mem_append_right before List.mem_cons_self)
      exact absurd hcode (Analysis.TypedPart.not_hasCode hp)

/-- If a description leaves nothing open, conversions succeed with what is described. -/
theorem ok_iff (h : Converted alone parts Q o) (hunique : ∀ {a a'}, Q a → Q a' → a = a')
    (hparts : ∀ {a}, Q a → ∀ p ∈ parts, p.HasCode alone) (a : α) : o.result = .ok a ↔ Q a := by
  constructor
  · intro ha
    exact (h.of_ok ha).1
  · intro hQ
    obtain ⟨a', ha'⟩ := h.exists_ok_iff.mpr (hparts hQ)
    rw [ha', hunique (h.of_ok ha').1 hQ]

theorem error_iff (h : Converted alone parts Q o) (e : ConversionError) :
    o.result = .error e ↔ ∃ before p after, parts = before ++ p :: after ∧
      (∀ q ∈ before, q.HasCode alone) ∧ e.subject = p.subject ∧
      (alone p.type).result = .error e.cause := by
  constructor
  · intro he
    obtain ⟨before, p, after, hsplit, hbefore, hsubject, hp, -⟩ := h.of_error he
    exact ⟨before, p, after, hsplit, hbefore, hsubject, hp⟩
  · rintro ⟨before, p, after, hsplit, hbefore, hsubject, hp⟩
    rw [(h.of_first_failure hsplit hbefore hp).1, ← hsubject]

theorem same {o' : Outcome σ ConversionError α} (h : Converted alone parts Q o)
    (h' : Converted alone parts Q o') (hunique : ∀ {a a'}, Q a → Q a' → a = a') : o.Same o' := by
  cases ho : o.result with
  | ok a =>
    obtain ⟨ha, hqueries, hparts⟩ := h.of_ok ho
    obtain ⟨a', ho'⟩ := h'.exists_ok_iff.mpr hparts
    obtain ⟨ha', hqueries', -⟩ := h'.of_ok ho'
    exact ⟨by rw [ho, ho', hunique ha ha'], hqueries.trans hqueries'.symm⟩
  | error e =>
    obtain ⟨before, p, after, hsplit, hbefore, hsubject, hp, hqueries⟩ := h.of_error ho
    obtain ⟨ho', hqueries'⟩ := h'.of_first_failure hsplit hbefore hp
    exact ⟨by rw [ho, ho', ← hsubject], hqueries.trans hqueries'.symm⟩

end Converted

end Conversion

namespace Converter

variable {c : Converter σ} {alone : String → Outcome σ LoweringError String}

/-- Each type comes to the same from every state. -/
def Steady (c : Converter σ) (alone : String → Outcome σ LoweringError String) : Prop :=
  ∀ type s, (c.encode type s).Same (alone type)

theorem lower_apply (subject : Subject) (type : String) (s : σ) :
    c.lower subject type s =
      ⟨((c.encode type s).map Config.EncodedType.mk).result.mapError (⟨subject, ·⟩),
        (c.encode type s).state, (c.encode type s).events⟩ := by
  have hmap := Run.bind_pure_apply (c.encode type) Config.EncodedType.mk s
  exact congrArg (fun o : Outcome σ _ _ =>
    (⟨o.result.mapError (⟨subject, ·⟩), o.state, o.events⟩ : Outcome σ ConversionError _)) hmap

/-- What a parameter is for the argument `a`. -/
structure IsParameter (alone : String → Outcome σ LoweringError String) (a : Analysis.Argument)
    (p : Config.Parameter) : Prop where
  name : p.name = a.name
  realName : p.realName = a.name
  type : (alone a.type).result = .ok p.type.code

/-- What a local variable is for the variable `v`. -/
structure IsLocal (word : WordSize) (alone : String → Outcome σ LoweringError String)
    (v : Analysis.Variable) (l : Config.LocalVariable) : Prop where
  name : l.name = v.name
  realName : l.realName = v.name
  storage : match v.location with
    | some (.frame _ offset) => l.storage = .stack (offset.normalize word)
    | some (.register name) => l.storage = .register name
    | none => False
  type : (alone v.type).result = .ok l.type.code

/-- What the configuration of a function says. -/
structure Describes (word : WordSize) (alone : String → Outcome σ LoweringError String)
    (f : Analysis.Function) (record : Config.Function) : Prop where
  startAddress : record.startAddress = addressText f.address
  endAddress : ∃ last : UInt64, record.endAddress = addressText last ∧
    last.toNat = min (f.address.toNat + f.size.toNat) (2 ^ 64 - 1) ∧ f.address ≤ last
  name : record.name = functionName f.name
  realName : record.realName = functionName f.name
  convention : record.convention = (f.convention.map conventionTag).getD unknownConvention
  parameters : List.Forall₂ (IsParameter alone) f.arguments record.parameters
  locals : List.Forall₂ (IsLocal word alone) f.located.variables record.locals
  returnType : (alone f.returnType).result = .ok record.returnType.code

theorem IsParameter.unique {a : Analysis.Argument} {p q : Config.Parameter}
    (hp : IsParameter alone a p) (hq : IsParameter alone a q) : p = q := by
  obtain ⟨name, realName, ⟨code⟩⟩ := p
  obtain ⟨rfl, rfl, hcode⟩ := hp
  obtain ⟨name', realName', ⟨code'⟩⟩ := q
  obtain ⟨rfl, rfl, hcode'⟩ := hq
  obtain rfl := Except.ok.inj (hcode.symm.trans hcode')
  rfl

theorem IsLocal.unique {word : WordSize} {v : Analysis.Variable} {l m : Config.LocalVariable}
    (hl : IsLocal word alone v l) (hm : IsLocal word alone v m) : l = m := by
  have hstorage : l.storage = m.storage := by
    have hl := hl.storage
    have hm := hm.storage
    cases hlocation : v.location with
    | none =>
      rw [hlocation] at hl
      exact hl.elim
    | some location =>
      rw [hlocation] at hl hm
      cases location with
      | frame => exact hl.trans hm.symm
      | register => exact hl.trans hm.symm
  obtain ⟨name, realName, storage, ⟨code⟩⟩ := l
  obtain ⟨rfl, rfl, -, hcode⟩ := hl
  obtain ⟨name', realName', storage', ⟨code'⟩⟩ := m
  obtain ⟨rfl, rfl, -, hcode'⟩ := hm
  obtain rfl := Except.ok.inj (hcode.symm.trans hcode')
  obtain rfl : storage = storage' := hstorage
  rfl

theorem Describes.unique {word : WordSize} {f : Analysis.Function} {r r' : Config.Function}
    (h : Describes word alone f r) (h' : Describes word alone f r') : r = r' := by
  have hend : r.endAddress = r'.endAddress := by
    obtain ⟨last, hlast, hnat, -⟩ := h.endAddress
    obtain ⟨last', hlast', hnat', -⟩ := h'.endAddress
    rw [hlast, hlast', UInt64.toNat_inj.mp (hnat.trans hnat'.symm)]
  have hparameter : Relator.RightUnique (IsParameter alone) := fun _ _ _ => IsParameter.unique
  have hlocal : Relator.RightUnique (IsLocal word alone) := fun _ _ _ => IsLocal.unique
  have hparameters : r.parameters = r'.parameters := hparameter.forall₂ h.parameters h'.parameters
  have hlocals : r.locals = r'.locals := hlocal.forall₂ h.locals h'.locals
  have htype : r.returnType.code = r'.returnType.code :=
    Except.ok.inj (h.returnType.symm.trans h'.returnType)
  obtain ⟨start, _, name, realName, convention, _, _, ⟨code⟩⟩ := r
  obtain ⟨start', _, name', realName', convention', _, _, ⟨code'⟩⟩ := r'
  obtain rfl : start = start' := h.startAddress.trans h'.startAddress.symm
  obtain rfl : name = name' := h.name.trans h'.name.symm
  obtain rfl : realName = realName' := h.realName.trans h'.realName.symm
  obtain rfl : convention = convention' := h.convention.trans h'.convention.symm
  obtain rfl : code = code' := htype
  cases hend
  cases hparameters
  cases hlocals
  rfl

theorem Describes.hasCode {word : WordSize} {f : Analysis.Function} {record : Config.Function}
    (h : Describes word alone f record) : ∀ p ∈ f.typedParts, p.HasCode alone := by
  have harguments : ∀ a ∈ f.arguments, ∃ code, (alone a.type).result = .ok code :=
    ((List.forall₂_and_left _ _).mp (h.parameters.imp fun a p hp => ⟨⟨_, hp.type⟩, hp⟩)).1
  have hvariables : ∀ v ∈ f.located.variables, ∃ code, (alone v.type).result = .ok code :=
    ((List.forall₂_and_left _ _).mp (h.locals.imp fun v l hl => ⟨⟨_, hl.type⟩, hl⟩)).1
  rw [Analysis.Function.typedParts]
  simp only [List.forall_mem_append, List.forall_mem_map, List.forall_mem_singleton]
  exact ⟨harguments, hvariables, _, h.returnType⟩

theorem Describes.of_located {word : WordSize} {f : Analysis.Function} {record : Config.Function}
    (h : Describes word alone f.located record) : Describes word alone f record :=
  { startAddress := h.startAddress
    endAddress := h.endAddress
    name := h.name
    realName := h.realName
    convention := h.convention
    parameters := h.parameters
    locals := f.variables_located_located ▸ h.locals
    returnType := h.returnType }

/-- The addresses are hexadecimal numbers that read back. -/
theorem Describes.addresses {word : WordSize} {f : Analysis.Function} {record : Config.Function}
    (h : Describes word alone f record) : ∃ last : UInt64,
    last.toNat = min (f.address.toNat + f.size.toNat) (2 ^ 64 - 1) ∧ f.address ≤ last ∧
    record.startAddress = "0x" ++ String.ofList (Nat.toDigits 16 f.address.toNat) ∧
    record.endAddress = "0x" ++ String.ofList (Nat.toDigits 16 last.toNat) ∧
    RawOffset.parse record.startAddress = .ok (.wire f.address) ∧
    RawOffset.parse record.endAddress = .ok (.wire last) := by
  have htext (address : UInt64) :
      addressText address = "0x" ++ String.ofList (Nat.toDigits 16 address.toNat) :=
    String.toList_injective (by simp [addressText, Text.hexadecimal])
  obtain ⟨last, hlast, hnat, hle⟩ := h.endAddress
  refine ⟨last, hnat, hle, h.startAddress.trans (htext _), hlast.trans (htext _), ?_, ?_⟩
  · rw [h.startAddress, RawOffset.parse_addressText]
  · rw [hlast, RawOffset.parse_addressText]

theorem converted_convention (owner : String) (convention? : Option String) (s : σ) :
    Converted alone [] (· = (convention?.map conventionTag).getD unknownConvention)
      (Converter.convention owner convention? s : Outcome σ _ _) := by
  cases convention? with
  | none => exact .pure rfl
  | some convention =>
    rw [Converter.convention]
    split
    · exact (Converted.emit rfl).map fun _ _ => rfl
    · exact .pure rfl

namespace Steady

variable (h : c.Steady alone) (owner : String) (s : σ)
include h

theorem lower (p : Analysis.TypedPart) :
    Converted alone [p] (fun type => (alone p.type).result = .ok type.code)
      (c.lower p.subject p.type s) := by
  obtain ⟨hresult, hqueries⟩ := h p.type s
  have hasked : (c.lower p.subject p.type s).queries = asked alone [p] := by
    rw [lower_apply, asked, List.flatMap_singleton, ← hqueries]
    rfl
  cases halone : (alone p.type).result with
  | ok code =>
    refine .success (a := ⟨code⟩) ⟨?_, hasked⟩ rfl ?_
    · rw [lower_apply, Outcome.map, hresult, halone]
      rfl
    · exact List.forall_mem_singleton.mpr ⟨code, halone⟩
  | error cause =>
    show Converted alone ([] ++ [p]) _ _
    refine .failure (List.forall_mem_nil _) halone ?_ hasked
    rw [lower_apply, Outcome.map, hresult, halone]
    rfl

theorem parameters (arguments : List Analysis.Argument) :
    Converted alone (arguments.map fun a => ⟨.parameter a.name owner, a.type⟩)
      (List.Forall₂ (IsParameter alone) arguments) (c.parameters owner arguments s) := by
  induction arguments generalizing s with
  | nil => exact .pure .nil
  | cons a arguments ih =>
    refine (h.lower s ⟨.parameter a.name owner, a.type⟩).bind fun type htype => ?_
    exact (ih _).map fun ps hps => .cons ⟨rfl, rfl, htype⟩ hps

theorem locals (vs : List Analysis.Variable) :
    Converted alone
      ((vs.filter (·.location.isSome)).map fun v => ⟨.localVariable v.name owner, v.type⟩)
      (List.Forall₂ (IsLocal c.word alone) (vs.filter (·.location.isSome)))
      (c.locals owner vs s) := by
  induction vs generalizing s with
  | nil => exact .pure .nil
  | cons v vs ih =>
    rw [Converter.locals]
    cases hlocation : v.location with
    | none =>
      -- The warning is an event, but no query.
      rw [List.filter_cons_of_neg (by simp [hlocation])]
      exact (Converted.emit rfl).bind fun _ _ => ih _
    | some location =>
      rw [List.filter_cons_of_pos (by simp [hlocation])]
      refine (h.lower s ⟨.localVariable v.name owner, v.type⟩).bind fun type htype => ?_
      refine (ih _).map fun ls hls => .cons ⟨rfl, rfl, ?_, htype⟩ hls
      rw [hlocation]
      cases location <;> rfl

theorem function (f : Analysis.Function) :
    Converted alone f.typedParts (Describes c.word alone f) (c.function f s) := by
  rw [Analysis.Function.typedParts, Analysis.Function.variables_located]
  refine (Converted.emit rfl).bind fun _ _ => ?_
  refine (converted_convention _ f.convention _).bind fun convention hconvention => ?_
  refine (h.parameters _ _ f.arguments).bind fun parameters hparameters => ?_
  refine (h.locals _ _ f.variables).bind fun locals hlocals => ?_
  refine (h.lower _ ⟨.returnValue (functionName f.name), f.returnType⟩).map fun type htype => ?_
  exact
    { startAddress := rfl
      endAddress := ⟨f.endAddress, rfl, f.toNat_endAddress, f.address_le_endAddress⟩
      name := rfl
      realName := rfl
      convention := hconvention
      parameters := hparameters
      locals := f.variables_located ▸ hlocals
      returnType := htype }

end Steady

end Converter

namespace Builder

variable (b : Builder σ)

theorem steady_converter {answer : String → Except LoweringError (Option Aggregate)}
    (h : b.oracle.DeterminedBy answer) (t : σ) :
    b.converter.Steady fun type => lowerType b.oracle b.depth type t := fun _ _ =>
  Lowering.same_of_eq_on_queries h h (fun _ _ => rfl) t

/-- A function is converted completely or fails at the first of its types that has no encoding. Its types
are those of the arguments, of the variables with a location and of the return value, in this order, and
the oracle is asked for what they ask for alone, up to the first failure. The addresses are those of the
function in hexadecimal, and the error names the part that has the type and the cleaned name of the
function. Variables without a location play no part, and a register of open aggregates that is shared by
all types makes no difference. -/
theorem function_exact {answer : String → Except LoweringError (Option Aggregate)}
    (h : b.oracle.DeterminedBy answer) (f : Analysis.Function) (l : Session σ) (t : σ) :
    let alone := fun type => lowerType b.oracle b.depth type t
    let outcome := b.function f l.oracleState
    ((∃ record, outcome.result = .ok record) ↔ ∀ p ∈ f.typedParts, p.HasCode alone) ∧
    (∀ record, outcome.result = .ok record ↔ Converter.Describes b.word alone f record) ∧
    (∀ record, outcome.result = .ok record → ∃ last : UInt64,
      last.toNat = min (f.address.toNat + f.size.toNat) (2 ^ 64 - 1) ∧ f.address ≤ last ∧
      record.startAddress = "0x" ++ String.ofList (Nat.toDigits 16 f.address.toNat) ∧
      record.endAddress = "0x" ++ String.ofList (Nat.toDigits 16 last.toNat) ∧
      RawOffset.parse record.startAddress = .ok (.wire f.address) ∧
      RawOffset.parse record.endAddress = .ok (.wire last)) ∧
    (∀ e, outcome.result = .error e ↔ ∃ before p after, f.typedParts = before ++ p :: after ∧
      (∀ q ∈ before, q.HasCode alone) ∧ e.subject = p.subject ∧
      (alone p.type).result = .error e.cause) ∧
    (f.typedParts.map fun p => (p.subject.text, p.type)) = f.namedTypes ∧
    (∀ e, outcome.result = .error e → ∃ named ∈ f.namedTypes,
      (alone named.2).result = .error e.cause ∧
      e.message = "cannot lower type of " ++ named.1 ++ ": " ++ e.cause.message) ∧
    ((∀ p ∈ f.typedParts, p.HasCode alone) → outcome.queries = asked alone f.typedParts) ∧
    (∀ before p after, f.typedParts = before ++ p :: after → (∀ q ∈ before, q.HasCode alone) →
      ¬p.HasCode alone → outcome.queries = asked alone (before ++ [p])) ∧
    (b.function f.located l.oracleState).Same outcome ∧
    Session.erase (b.sharing.function f l) = outcome := by
  intro alone outcome
  have hsteady := b.steady_converter h t
  have hconverted : Converted alone f.typedParts (Converter.Describes b.word alone f) outcome :=
    hsteady.function l.oracleState f
  have hlocated : Converted alone f.typedParts (Converter.Describes b.word alone f)
      (b.function f.located l.oracleState) := by
    rw [← f.typedParts_located]
    exact (hsteady.function l.oracleState f.located).imp fun _ => .of_located
  have hunique {record record' : Config.Function} (h : Converter.Describes b.word alone f record)
      (h' : Converter.Describes b.word alone f record') : record = record' := h.unique h'
  refine ⟨hconverted.exists_ok_iff, hconverted.ok_iff hunique fun h => h.hasCode, ?_,
    hconverted.error_iff, f.map_typedParts_eq_namedTypes, ?_, ?_, ?_,
    hlocated.same hconverted hunique, b.related_sharing.function f l⟩
  · intro record hrecord
    exact ((hconverted.ok_iff hunique (fun h => h.hasCode) record).mp hrecord).addresses
  · intro e he
    obtain ⟨before, p, after, hsplit, -, hsubject, hcause⟩ := (hconverted.error_iff e).mp he
    refine ⟨(p.subject.text, p.type), ?_, hcause, by rw [← hsubject]; rfl⟩
    rw [← f.map_typedParts_eq_namedTypes, hsplit]
    exact List.mem_map_of_mem (List.mem_append_right _ List.mem_cons_self)
  · intro hparts
    obtain ⟨record, hrecord⟩ := hconverted.exists_ok_iff.mpr hparts
    exact (hconverted.of_ok hrecord).2.1
  · intro before p after hsplit hbefore hp
    cases hcause : (alone p.type).result with
    | ok code => exact absurd ⟨code, hcause⟩ hp
    | error cause => exact (hconverted.of_first_failure hsplit hbefore hcause).2

/-- The variable without a location, whose type closes a cycle, is left out. -/
theorem function_exact_diamond :
    let b : Builder Unit := ⟨TypeTable.diamond.oracle, .bits64, 3⟩
    let f returnType : Analysis.Function :=
      { plainFunction "sym.f" 4096 returnType with
        arguments := [⟨"x", "a"⟩]
        stackVariables := [⟨"lost", "e", none⟩, ⟨"v", "d", some (.frame none (.signed (-8)))⟩]
        registerVariables := [⟨"r", "int", some (.register "rax")⟩] }
    let record : Config.Function :=
      { startAddress := "0x1000", endAddress := "0x1010", name := "f", realName := "f",
        convention := "unknown",
        parameters := [⟨"x", "x", ⟨"\x7b\x7b\x7bi32\x7d\x7d,\x7bi32,\x7bi32\x7d\x7d*\x7d"⟩⟩],
        locals := [⟨"v", "v", .stack ⟨-16, by decide⟩, ⟨"\x7bi32\x7d"⟩⟩,
          ⟨"r", "r", .register "rax", ⟨"i32"⟩⟩],
        returnType := ⟨"\x7bi32,\x7bi32\x7d\x7d"⟩ }
    let cycle : ConversionError := ⟨.returnValue "f", .cyclic "e" ["e", "e"]⟩
    b.oracle.DeterminedBy (fun name => .ok (TypeTable.diamond.get? name)) ∧
    (b.function (f "c") ()).Yields record ["a", "b", "d", "c", "d", "d", "c", "d"] ∧
    (b.function (f "e") ()).result = .error cycle ∧
    cycle.message = "cannot lower type of return value of `f`: " ++
      "aggregate `e` contains itself: e -> e" ∧
    (b.function (f "e") ()).queries = ["a", "b", "d", "c", "d", "d", "e"] := by
  intro b f record cycle
  have horacle : b.oracle.DeterminedBy (fun name => .ok (TypeTable.diamond.get? name)) :=
    fun _ _ => rfl
  let alone (type : String) := lowerType b.oracle b.depth type ()
  have hcodes : ∀ p ∈ (f "c").typedParts, p.HasCode alone := by
    have hnone : ∀ p ∈ (f "c").typedParts, (alone p.type).failure? = none := by decide +kernel
    exact fun p hp => Outcome.failure?_eq_none_iff.mp (hnone p hp)
  have hsplit : (f "e").typedParts = (f "c").typedParts.dropLast ++ [⟨.returnValue "f", "e"⟩] := by
    decide +kernel
  have hbefore : ∀ p ∈ (f "c").typedParts.dropLast, p.HasCode alone := fun p hp =>
    hcodes p ((List.dropLast_sublist _).subset hp)
  have hcycle : (alone "e").result = .error (.cyclic "e" ["e", "e"]) :=
    Outcome.failure?_eq_some_iff.mp (by decide +kernel)
  obtain ⟨-, -, -, -, -, -, hall, -⟩ := b.function_exact horacle (f "c") (.fresh ()) ()
  obtain ⟨-, -, -, herror, -, -, -, hfirst, -⟩ := b.function_exact horacle (f "e") (.fresh ()) ()
  have hrecord : (b.function (f "c") ()).value? = some record := by decide +kernel
  refine ⟨horacle, ⟨Outcome.value?_eq_some_iff.mp hrecord, ?_⟩, ?_, by decide +kernel, ?_⟩
  · have hasked : asked alone (f "c").typedParts = ["a", "b", "d", "c", "d", "d", "c", "d"] := by
      decide +kernel
    exact (hall hcodes).trans hasked
  · exact (herror _).mpr ⟨_, _, [], hsplit, hbefore, rfl, hcycle⟩
  · have hasked : asked alone ((f "c").typedParts.dropLast ++ [⟨.returnValue "f", "e"⟩]) =
        ["a", "b", "d", "c", "d", "d", "e"] := by decide +kernel
    have hnone : ¬Analysis.TypedPart.HasCode alone ⟨.returnValue "f", "e"⟩ :=
      Analysis.TypedPart.not_hasCode hcycle
    exact (hfirst _ _ [] hsplit hbefore hnone).trans hasked

end Builder

end DecompConfig
