import DecompConfig.Config.Globals
import DecompConfig.Proofs.Frame.Spelling
import Mathlib.Logic.Relation

namespace DecompConfig

open Analysis

/-- A symbol of a global variable: an object or a function that is visible everywhere and at no start of
a function. -/
structure Analysis.Symbol.IsGlobal (functionStarts : List UInt64) (s : Symbol) : Prop where
  binding : s.binding = "GLOBAL"
  kind : s.kind = "OBJ" ∨ s.kind = "FUNC"
  outside : s.address ∉ functionStarts

/-- The name of a symbol: that of the last flag at its address, or else its own without the marker. -/
inductive Analysis.Symbol.Named (flags : List Flag) (s : Symbol) : String → Prop
  | flag (earlier : List Flag) (flag : Flag) (later : List Flag)
      (hflags : flags = earlier ++ flag :: later) (haddress : flag.address = s.address)
      (hlast : ∀ other ∈ later, other.address ≠ s.address) : Named flags s flag.name
  | symbol (h : ∀ flag ∈ flags, flag.address ≠ s.address) : Named flags s (symbolName s.flagName)

/-- The symbols of global variables, each with its record, in order. -/
inductive Discovered (flags : List Flag) (functionStarts : List UInt64) :
    List Symbol → List Config.GlobalVariable → Prop
  | nil : Discovered flags functionStarts [] []
  | global {s : Symbol} {name : String} {symbols : List Symbol} {globals : List Config.GlobalVariable}
      (hs : s.IsGlobal functionStarts) (hname : s.Named flags name)
      (h : Discovered flags functionStarts symbols globals) :
      Discovered flags functionStarts (s :: symbols)
        (⟨name, .global (addressText s.address)⟩ :: globals)
  | other {s : Symbol} {symbols : List Symbol} {globals : List Config.GlobalVariable}
      (hs : ¬s.IsGlobal functionStarts) (h : Discovered flags functionStarts symbols globals) :
      Discovered flags functionStarts (s :: symbols) globals

/-- A change of the flags that the global variables do not show: flags of different addresses change
places, or a flag is added at an address of none of them. -/
inductive FlagChange (symbols : List Symbol) (functionStarts : List UInt64) :
    List Flag → List Flag → Prop
  | swap (before after : List Flag) {a b : Flag} (h : a.address ≠ b.address) :
      FlagChange symbols functionStarts (before ++ a :: b :: after) (before ++ b :: a :: after)
  | add (before after : List Flag) {flag : Flag}
      (h : ∀ s ∈ symbols, s.IsGlobal functionStarts → s.address ≠ flag.address) :
      FlagChange symbols functionStarts (before ++ after) (before ++ flag :: after)

section Flags

variable (flags more : List Flag) (flag : Flag) {address : UInt64}

theorem flagAt?_append :
    flagAt? (flags ++ more) address = (flagAt? more address).or (flagAt? flags address) := by
  rw [flagAt?, List.reverse_append, List.find?_append, Option.map_or]
  rfl

theorem flagAt?_singleton_self : flagAt? [flag] flag.address = some flag.name := by
  simp [flagAt?]

theorem flagAt?_singleton_of_ne (h : flag.address ≠ address) : flagAt? [flag] address = none := by
  simp [flagAt?, h]

theorem flagAt?_eq_none_iff : flagAt? flags address = none ↔ ∀ flag ∈ flags, flag.address ≠ address := by
  simp [flagAt?]

/-- Of the flags of an address the last one counts. -/
theorem flagAt?_last {later : List Flag} (hlast : ∀ other ∈ later, other.address ≠ flag.address) :
    flagAt? (flags ++ flag :: later) flag.address = some flag.name := by
  rw [flagAt?_append, ← List.singleton_append, flagAt?_append, (flagAt?_eq_none_iff later).mpr hlast,
    flagAt?_singleton_self, Option.none_or, Option.some_or]

theorem exists_of_flagAt?_eq_some {name : String} (h : flagAt? flags address = some name) :
    ∃ earlier flag later, flags = earlier ++ flag :: later ∧ flag.address = address ∧
      flag.name = name ∧ ∀ other ∈ later, other.address ≠ address := by
  obtain ⟨flag, hfind, hname⟩ := Option.map_eq_some_iff.mp h
  obtain ⟨haddress, later, earlier, hreverse, hlater⟩ := List.find?_eq_some_iff_append.mp hfind
  refine ⟨earlier.reverse, flag, later.reverse, ?_, by simpa using haddress, hname, ?_⟩
  · rw [← List.reverse_inj, hreverse]
    simp
  · intro other hother
    simpa using hlater other (List.mem_reverse.mp hother)

theorem flagAt?_insert (before after : List Flag) (h : flag.address ≠ address) :
    flagAt? (before ++ flag :: after) address = flagAt? (before ++ after) address := by
  rw [flagAt?_append, ← List.singleton_append, flagAt?_append, flagAt?_singleton_of_ne flag h,
    Option.or_none, ← flagAt?_append]

theorem flagAt?_swap (before after : List Flag) {a b : Flag} (h : a.address ≠ b.address) :
    flagAt? (before ++ a :: b :: after) address = flagAt? (before ++ b :: a :: after) address := by
  -- One of the two is at another address, and it may stand anywhere.
  by_cases ha : a.address = address
  · have hb : b.address ≠ address := fun hb => h (ha.trans hb.symm)
    have hbehind := flagAt?_insert b (before ++ [a]) after hb
    rw [List.append_assoc, List.append_assoc] at hbehind
    exact hbehind.trans (flagAt?_insert b before (a :: after) hb).symm
  · have hbehind := flagAt?_insert a (before ++ [b]) after ha
    rw [List.append_assoc, List.append_assoc] at hbehind
    exact (flagAt?_insert a before (b :: after) ha).trans hbehind.symm

end Flags

section Selection

variable {symbols : List Symbol} {flags flags' : List Flag} {functionStarts : List UInt64}

theorem isGlobal_iff {s : Symbol} :
    s.IsGlobal functionStarts ↔ (s.mayBeGlobal && !functionStarts.contains s.address) = true := by
  simp only [Symbol.mayBeGlobal, Bool.and_eq_true, Bool.or_eq_true, beq_iff_eq, Bool.not_eq_true',
    List.contains_eq_mem, decide_eq_false_iff_not]
  constructor
  · intro h
    exact ⟨⟨h.binding, h.kind⟩, h.outside⟩
  · rintro ⟨⟨hbinding, hkind⟩, houtside⟩
    exact ⟨hbinding, hkind, houtside⟩

theorem globalVariables_append (more : List Symbol) :
    globalVariables (symbols ++ more) flags functionStarts =
      globalVariables symbols flags functionStarts ++ globalVariables more flags functionStarts := by
  rw [globalVariables, List.filter_append, List.map_append]
  rfl

theorem globalVariables_cons_of_isGlobal {s : Symbol} (h : s.IsGlobal functionStarts) :
    globalVariables (s :: symbols) flags functionStarts =
      ⟨(flagAt? flags s.address).getD (symbolName s.flagName), .global (addressText s.address)⟩ ::
        globalVariables symbols flags functionStarts := by
  rw [globalVariables, List.filter_cons, if_pos (isGlobal_iff.mp h), List.map_cons]
  rfl

theorem globalVariables_cons_of_not_isGlobal {s : Symbol} (h : ¬s.IsGlobal functionStarts) :
    globalVariables (s :: symbols) flags functionStarts =
      globalVariables symbols flags functionStarts := by
  rw [globalVariables, List.filter_cons, if_neg (mt isGlobal_iff.mpr h)]
  rfl

theorem named_iff {s : Symbol} {name : String} :
    s.Named flags name ↔ name = (flagAt? flags s.address).getD (symbolName s.flagName) := by
  constructor
  · intro h
    cases h with
    | flag earlier flag later hflags haddress hlast =>
      rw [← haddress] at hlast ⊢
      rw [hflags, flagAt?_last earlier flag hlast, Option.getD_some]
    | symbol h => rw [(flagAt?_eq_none_iff flags).mpr h, Option.getD_none]
  · rintro rfl
    cases h : flagAt? flags s.address with
    | none => exact .symbol ((flagAt?_eq_none_iff flags).mp h)
    | some name =>
      obtain ⟨earlier, flag, later, hflags, haddress, rfl, hlast⟩ := exists_of_flagAt?_eq_some flags h
      exact .flag earlier flag later hflags haddress hlast

theorem discovered_iff {globals : List Config.GlobalVariable} :
    Discovered flags functionStarts symbols globals ↔
      globals = globalVariables symbols flags functionStarts := by
  constructor
  · intro h
    induction h with
    | nil => rfl
    | global hs hname _ ih => rw [globalVariables_cons_of_isGlobal hs, ih, named_iff.mp hname]
    | other hs _ ih => rw [globalVariables_cons_of_not_isGlobal hs, ih]
  · rintro rfl
    induction symbols with
    | nil => exact .nil
    | cons s symbols ih =>
      by_cases hs : s.IsGlobal functionStarts
      · rw [globalVariables_cons_of_isGlobal hs]
        exact .global hs (named_iff.mpr rfl) ih
      · rw [globalVariables_cons_of_not_isGlobal hs]
        exact .other hs ih

theorem globalVariables_congr_starts {functionStarts' : List UInt64}
    (h : ∀ address, address ∈ functionStarts' ↔ address ∈ functionStarts) :
    globalVariables symbols flags functionStarts' = globalVariables symbols flags functionStarts := by
  simp only [globalVariables, List.contains_eq_mem, h]

/-- Only the flags at the addresses of global variables count. -/
theorem globalVariables_congr_flags
    (h : ∀ s ∈ symbols, s.IsGlobal functionStarts → flagAt? flags' s.address = flagAt? flags s.address) :
    globalVariables symbols flags' functionStarts = globalVariables symbols flags functionStarts := by
  apply List.map_congr_left
  intro s hs
  obtain ⟨hmem, hglobal⟩ := List.mem_filter.mp hs
  rw [h s hmem (isGlobal_iff.mpr hglobal)]

theorem FlagChange.globalVariables_eq (h : FlagChange symbols functionStarts flags flags') :
    globalVariables symbols flags' functionStarts = globalVariables symbols flags functionStarts := by
  cases h with
  | swap before after hne =>
    exact globalVariables_congr_flags fun s _ _ => flagAt?_swap before after hne.symm
  | add before after hnone =>
    exact globalVariables_congr_flags fun s hs hglobal =>
      flagAt?_insert _ before after (hnone s hs hglobal).symm

theorem globalVariables_eq_of_changes
    (h : Relation.EqvGen (FlagChange symbols functionStarts) flags flags') :
    globalVariables symbols flags' functionStarts = globalVariables symbols flags functionStarts := by
  induction h with
  | rel _ _ hchange => exact hchange.globalVariables_eq
  | refl => rfl
  | symm _ _ _ ih => exact ih.symm
  | trans _ _ _ _ _ ih₁ ih₂ => exact ih₂.trans ih₁

theorem storage_of_mem_globalVariables {g : Config.GlobalVariable}
    (hg : g ∈ globalVariables symbols flags functionStarts) :
    ∃ address ∉ functionStarts, g.storage = .global (addressText address) := by
  obtain ⟨s, hs, rfl⟩ := List.mem_map.mp hg
  exact ⟨s.address, (isGlobal_iff.mpr (List.mem_filter.mp hs).2).outside, rfl⟩

/-- The global variables are the symbols of global variables with their records, none lost, added or
moved. Only the set of function starts counts, of the flags only the last at each address of a global
variable, and each symbol is treated on its own. The text of an address reads back as a number that is no
start of a function. -/
theorem globalVariables_exact (symbols : List Symbol) (flags : List Flag)
    (functionStarts : List UInt64) :
    let globals := globalVariables symbols flags functionStarts
    (∀ found, Discovered flags functionStarts symbols found ↔ found = globals) ∧
    (∀ functionStarts', (∀ address, address ∈ functionStarts' ↔ address ∈ functionStarts) →
      globalVariables symbols flags functionStarts' = globals) ∧
    (∀ flags', Relation.EqvGen (FlagChange symbols functionStarts) flags flags' →
      globalVariables symbols flags' functionStarts = globals) ∧
    (∀ more, globalVariables (symbols ++ more) flags functionStarts =
      globals ++ globalVariables more flags functionStarts) ∧
    ∀ g ∈ globals, ∃ text, g.storage = .global text ∧
      ∃ address ∉ functionStarts, RawOffset.parse text = .ok (.wire address) := by
  intro globals
  refine ⟨fun _ => discovered_iff, fun _ => globalVariables_congr_starts,
    fun _ => globalVariables_eq_of_changes, globalVariables_append, ?_⟩
  intro g hg
  obtain ⟨address, houtside, hstorage⟩ := storage_of_mem_globalVariables hg
  exact ⟨_, hstorage, address, houtside, RawOffset.parse_addressText address⟩

/-- A function start between two objects, the first of which has two flags. A flag at no symbol comes to
stand between them, and one of another address moves in front of both. -/
theorem globalVariables_exact_table :
    let symbols : List Symbol := [⟨"sym.table", 0x601080, "GLOBAL", "OBJ"⟩,
      ⟨"sym.main", 0x401000, "GLOBAL", "FUNC"⟩, ⟨"sym.count", 0x601040, "GLOBAL", "OBJ"⟩]
    let flags : List Flag := [⟨"old", 0x601080⟩, ⟨"new", 0x601080⟩, ⟨"entry", 0x401000⟩]
    let flags' : List Flag :=
      [⟨"old", 0x601080⟩, ⟨"entry", 0x401000⟩, ⟨"hole", 0x700000⟩, ⟨"new", 0x601080⟩]
    let globals := globalVariables symbols flags [0x401000]
    globals = [⟨"new", .global "0x601080"⟩, ⟨"count", .global "0x601040"⟩] ∧
    Relation.EqvGen (FlagChange symbols [0x401000]) flags flags' ∧
    globalVariables symbols flags' [0x401000] = globals ∧
    globalVariables symbols flags [0x401000, 0x401000] = globals := by
  intro symbols flags flags' globals
  obtain ⟨-, hstarts, hflags, -, -⟩ := globalVariables_exact symbols flags [0x401000]
  have hswap : FlagChange symbols [0x401000] flags
      [⟨"old", 0x601080⟩, ⟨"entry", 0x401000⟩, ⟨"new", 0x601080⟩] :=
    .swap [⟨"old", 0x601080⟩] [] (by decide)
  have hnone : ∀ s ∈ symbols, s.address ≠ 0x700000 := by decide
  have hadd : FlagChange symbols [0x401000]
      [⟨"old", 0x601080⟩, ⟨"entry", 0x401000⟩, ⟨"new", 0x601080⟩] flags' :=
    .add [⟨"old", 0x601080⟩, ⟨"entry", 0x401000⟩] [⟨"new", 0x601080⟩] fun s hs _ => hnone s hs
  have hchanges := Relation.EqvGen.trans _ _ _ (.rel _ _ hswap) (.rel _ _ hadd)
  exact ⟨by decide +kernel, hchanges, hflags flags' hchanges, hstarts _ (by simp)⟩

end Selection

end DecompConfig
