import DecompConfig.Config.Json
import DecompConfig.Proofs.Json.Record

namespace DecompConfig

open Json

section Codecs

theorem FrameOffset.ofJson?_toJson (offset : FrameOffset) :
    FrameOffset.ofJson? offset.toJson = some offset :=
  dif_pos offset.inRange

theorem Storage.ofJson?_toJson (storage : Storage) : ofJson? storage.toJson = some storage := by
  cases storage with
  | stack offset =>
    have hoffset := offset.ofJson?_toJson
    simp [toJson, ofJson?, kind?, ofKind?, hoffset]
  | register name => simp [toJson, ofJson?, kind?, ofKind?]
  | global address => simp [toJson, ofJson?, kind?, ofKind?]

namespace Config

theorem EncodedType.ofJson?_toJson (t : EncodedType) : ofJson? t.toJson = some t := by
  simp [toJson, ofJson?]

theorem Parameter.ofJson?_toJson (p : Parameter) : ofJson? p.toJson = some p := by
  have htype := p.type.ofJson?_toJson
  simp [toJson, ofJson?, htype]

theorem LocalVariable.ofJson?_toJson (v : LocalVariable) : ofJson? v.toJson = some v := by
  have hstorage := v.storage.ofJson?_toJson
  have htype := v.type.ofJson?_toJson
  simp [toJson, ofJson?, hstorage, htype]

theorem Function.ofJson?_toJson (f : Function) : ofJson? f.toJson = some f := by
  have hparameters := list?_ofList Parameter.ofJson?_toJson f.parameters
  have hlocals := list?_ofList LocalVariable.ofJson?_toJson f.locals
  have hreturn := f.returnType.ofJson?_toJson
  simp [toJson, ofJson?, hparameters, hlocals, hreturn]

theorem GlobalVariable.ofJson?_toJson (g : GlobalVariable) : ofJson? g.toJson = some g := by
  have hstorage := g.storage.ofJson?_toJson
  simp [toJson, ofJson?, hstorage]

theorem ofJson?_toJson (c : Config) : ofJson? c.toJson = some c := by
  have hfunctions := list?_ofList Function.ofJson?_toJson c.functions
  have hglobals := list?_ofList GlobalVariable.ofJson?_toJson c.globals
  simp [toJson, ofJson?, hfunctions, hglobals]

end Config

end Codecs

section Nesting

theorem Storage.nesting_toJson_le (storage : Storage) : storage.toJson.nesting ≤ 1 := by
  cases storage <;> simp [toJson, FrameOffset.toJson, nesting, fieldNesting]

namespace Config

theorem EncodedType.nesting_toJson_le (t : EncodedType) : t.toJson.nesting ≤ 1 := by
  simp [toJson, nesting, fieldNesting]

theorem Parameter.nesting_toJson_le (p : Parameter) : p.toJson.nesting ≤ 2 := by
  have htype := p.type.nesting_toJson_le
  simp only [toJson, nesting, fieldNesting]
  omega

theorem LocalVariable.nesting_toJson_le (v : LocalVariable) : v.toJson.nesting ≤ 2 := by
  have hstorage := v.storage.nesting_toJson_le
  have htype := v.type.nesting_toJson_le
  simp only [toJson, nesting, fieldNesting]
  omega

theorem Function.nesting_toJson_le (f : Function) : f.toJson.nesting ≤ 4 := by
  have hparameters := nesting_ofList_le Parameter.nesting_toJson_le f.parameters
  have hlocals := nesting_ofList_le LocalVariable.nesting_toJson_le f.locals
  have hreturn := f.returnType.nesting_toJson_le
  simp only [toJson, nesting, fieldNesting]
  omega

theorem GlobalVariable.nesting_toJson_le (g : GlobalVariable) : g.toJson.nesting ≤ 2 := by
  have hstorage := g.storage.nesting_toJson_le
  simp only [toJson, nesting, fieldNesting]
  omega

theorem nesting_toJson_le (c : Config) : c.toJson.nesting ≤ maxNesting := by
  have hfunctions := nesting_ofList_le Function.nesting_toJson_le c.functions
  have hglobals := nesting_ofList_le GlobalVariable.nesting_toJson_le c.globals
  simp only [toJson, nesting, fieldNesting, maxNesting]
  omega

end Config

end Nesting

namespace Config

/-- A configuration is read back from its text in any layout. -/
theorem ofJson?_parse?_write {l : Layout} (hl : l.Spaced) (c : Config) :
    (parse? (.ofList (c.toJson.write l 0))).bind ofJson? = some c := by
  rw [parse?_write hl c.nesting_toJson_le, Option.bind_some, ofJson?_toJson]

/-- A configuration survives its file and its text on one line, and so no other configuration has
either text, in any of the two layouts. -/
theorem text_roundtrip (c : Config) :
    (parse? c.text).bind ofJson? = some c ∧
      (parse? c.toJson.compact).bind ofJson? = some c ∧
      ∀ c' : Config, c'.text = c.text ∨ c'.toJson.compact = c.toJson.compact ∨
        c'.text = c.toJson.compact → c' = c := by
  have hread : ∀ c : Config, (parse? c.text).bind ofJson? = some c :=
    ofJson?_parse?_write Layout.spaced_pretty
  have hreadLine : ∀ c : Config, (parse? c.toJson.compact).bind ofJson? = some c :=
    ofJson?_parse?_write Layout.spaced_compact
  refine ⟨hread c, hreadLine c, ?_⟩
  rintro c' (heq | heq | heq)
  · exact Option.some.inj ((hread c').symm.trans (heq ▸ hread c))
  · exact Option.some.inj ((hreadLine c').symm.trans (heq ▸ hreadLine c))
  · exact Option.some.inj ((hread c').symm.trans (heq ▸ hreadLine c))

end Config

end DecompConfig
