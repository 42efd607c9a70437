import DecompConfig.Json.Record
import DecompConfig.Proofs.Json.Reading

namespace DecompConfig.Json

section Records

variable {α : Type} {fields : Fields} {name other : String} {j : Json}

/-- The fields of a record that is complete and in order are taken as they stand. -/
@[simp] theorem knownFields?_eq_self {known : List String} (hknown : fields.map Prod.fst = known)
    (h : known.Nodup) : knownFields? known fields = some fields := by
  have hpresent : fields.filter (fun field => known.contains field.1) = fields := by
    refine List.filter_eq_self.mpr fun field hfield => ?_
    rw [List.contains_iff_mem, ← hknown]
    exact List.mem_map_of_mem hfield
  rw [knownFields?, hpresent, if_pos (hknown ▸ h)]

@[simp] theorem record?_object {known : List String} (hknown : fields.map Prod.fst = known)
    (h : known.Nodup) : (object fields).record? known = some fields :=
  knownFields?_eq_self hknown h

namespace Fields

@[simp] theorem required?_cons_self (value? : Json → Option α) :
    required? ((name, j) :: fields) name value? = value? j := by
  rw [required?, List.lookup_cons_self]
  rfl

@[simp] theorem required?_cons_of_ne (h : name ≠ other) (value? : Json → Option α) :
    required? ((other, j) :: fields) name value? = required? fields name value? := by
  rw [required?, required?, List.lookup_cons, beq_false_of_ne h]

@[simp] theorem orElse?_cons_self (absent : α) (value? : Json → Option α) :
    orElse? ((name, j) :: fields) name absent value? = value? j := by
  rw [orElse?, List.lookup_cons_self]

@[simp] theorem orElse?_cons_of_ne (h : name ≠ other) (absent : α) (value? : Json → Option α) :
    orElse? ((other, j) :: fields) name absent value? = orElse? fields name absent value? := by
  rw [orElse?, orElse?, List.lookup_cons, beq_false_of_ne h]

end Fields

end Records

section Values

variable {α β : Type} {toJson : α → Json} {ofJson? : Json → Option β} {reread : α → β}

@[simp] theorem string?_string (s : String) : (string s).string? = some s := rfl

theorem below?_eq_some_iff {bound n : Nat} {j : Json} :
    j.below? bound = some n ↔ j = integer n ∧ n < bound := by
  constructor
  · intro h
    unfold below? at h
    split at h
    next k =>
      split at h
      next hlt =>
        obtain rfl := Option.some.inj h
        exact ⟨rfl, hlt⟩
      next => cases h
    next => cases h
  · rintro ⟨rfl, hlt⟩
    exact if_pos hlt

@[simp] theorem uint64?_ofUInt64 (n : UInt64) : (ofUInt64 n).uint64? = some n := by
  have hbelow : (ofUInt64 n).below? UInt64.size = some n.toNat := if_pos n.toNat_lt_size
  rw [uint64?, hbelow, Option.map_some, UInt64.ofNat_toNat]

theorem list?_ofList (h : ∀ a, ofJson? (toJson a) = some (reread a)) (l : List α) :
    (ofList toJson l).list? ofJson? = some (l.map reread) := by
  rw [ofList, list?]
  induction l with
  | nil => rfl
  | cons a l ih =>
    rw [List.map_cons, List.mapM_cons, h, ih]
    rfl

theorem optional?_ofOption (hnull : ∀ a, toJson a ≠ null)
    (h : ∀ a, ofJson? (toJson a) = some (reread a)) (o : Option α) :
    (ofOption toJson o).optional? ofJson? = some (o.map reread) := by
  cases o with
  | none => rfl
  | some a =>
    rw [ofOption, optional?, h]
    · rfl
    · exact hnull a

@[simp] theorem optional?_ofOption_string (o : Option String) :
    (ofOption string o).optional? string? = some o := by
  cases o <;> rfl

end Values

section Nesting

variable {α : Type} {toJson : α → Json} {n : Nat}

theorem nesting_ofList_le (h : ∀ a, (toJson a).nesting ≤ n) (l : List α) :
    (ofList toJson l).nesting ≤ n + 1 := by
  rw [ofList, nesting, Nat.add_le_add_iff_right, itemNesting_le]
  intro j hj
  obtain ⟨a, -, rfl⟩ := List.mem_map.mp hj
  exact h a

theorem nesting_ofOption_le (h : ∀ a, (toJson a).nesting ≤ n) (o : Option α) :
    (ofOption toJson o).nesting ≤ n := by
  cases o with
  | none => exact Nat.zero_le n
  | some a => exact h a

theorem nesting_ofOption_string (o : Option String) : (ofOption string o).nesting = 0 := by
  cases o <;> rfl

end Nesting

section Readable

/-- Rounding to 53 digits less than doubles a number. -/
theorem nearestDouble_le (n : Nat) : nearestDouble n ≤ 2 * n + 1 := by
  have hunit : Nat.pow 2 (n.log2 - 52) ≤ n + 1 := by
    obtain rfl | hn := Nat.eq_zero_or_pos n
    · decide
    · calc
        2 ^ (n.log2 - 52) ≤ 2 ^ n.log2 := Nat.pow_le_pow_right (by decide) (Nat.sub_le _ _)
        _ ≤ n := Nat.log2_self_le (Nat.ne_of_gt hn)
        _ ≤ n + 1 := Nat.le_succ n
  have hbelow := Nat.div_mul_le_self n (Nat.pow 2 (n.log2 - 52))
  unfold nearestDouble
  dsimp only
  generalize Nat.pow 2 (n.log2 - 52) = unit at hunit hbelow ⊢
  split
  · omega
  · rw [Nat.succ_mul]
    omega

theorem leadingDigits_of_lt {n : Nat} (h : n < UInt64.size) : leadingDigits n = (n, 0) := by
  have hlength : (Nat.toDigits 10 n).length ≤ 20 := by
    rw [Nat.length_toDigits_le_iff (by decide) (by decide)]
    exact Nat.lt_trans h (by decide)
  rw [leadingDigits, Nat.sub_eq_zero_of_le hlength]
  show (if n / 1 < UInt64.size then _ else _) = _
  rw [Nat.div_one, if_pos h]

/-- The integers of 64 bits are finite in double precision. -/
theorem fitsDouble_of_lt {n : Int} (h : n.natAbs < UInt64.size) : fitsDouble n 0 = true := by
  have hbound : 2 * UInt64.size + 1 < doubleBound := by decide +kernel
  have hone : nearestDouble (Nat.pow 10 0) = 1 := by decide
  have hround := nearestDouble_le n.natAbs
  rw [fitsDouble, leadingDigits_of_lt h]
  simp only [Bool.or_eq_true, Bool.and_eq_true, decide_eq_true_eq]
  refine .inr ⟨by decide, ?_⟩
  show nearestDouble n.natAbs * nearestDouble (Nat.pow 10 0) < doubleBound
  rw [hone]
  omega

end Readable

end DecompConfig.Json
