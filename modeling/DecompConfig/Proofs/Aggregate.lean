import DecompConfig.Proofs.Aggregate.Reading
import DecompConfig.Proofs.Lowering.Expansion
import DecompConfig.Proofs.Token.Reading

namespace DecompConfig

open Text

namespace Aggregate

/-- The members of a definition that can be read have no braces. -/
theorem not_brace_of_parse {name text : String} {aggregate : Aggregate}
    (h : parse name text = .ok aggregate) {t : Token} (ht : t ∈ aggregate.tokens) :
    t ≠ .openBrace ∧ t ≠ .closeBrace := by
  obtain ⟨-, body, -, -, hbody, rfl⟩ := ofText?_eq_some_iff.mp (parse_eq_ok_iff.mp h)
  obtain ⟨member, hmember, ht⟩ := List.mem_flatMap.mp ht
  have hbrace : ∀ c ∈ t.text.toList, isBrace c = false := fun c hc =>
    hbody c (mem_of_mem_membersOf hmember (mem_of_mem_memberTokens ht hc))
  constructor
  · rintro rfl
    exact absurd (hbrace '{' (by decide)) (by decide)
  · rintro rfl
    exact absurd (hbrace '}' (by decide)) (by decide)

end Aggregate

end DecompConfig
