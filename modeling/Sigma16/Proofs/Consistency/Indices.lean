import Sigma16.Consistency
import Mathlib.Data.List.Basic

namespace Sigma16

/-- The check of a namespace is sound and complete: it passes when the indices
    lie within the register and none is repeated, nor among those seen before. -/
theorem indexViolations_eq_nil_iff {space : String} {seen indices : List UInt8} :
    indexViolations space seen indices = [] ↔
      (∀ index ∈ indices, index.toNat < registerBits ∧ index ∉ seen) ∧ indices.Nodup := by
  induction indices generalizing seen with
  | nil => simp [indexViolations]
  | cons index indices ih =>
    rw [indexViolations]
    split
    next hbad =>
      have hnot : ¬ (index.toNat < registerBits ∧ index ∉ seen) := by
        rintro ⟨hbound, hnew⟩
        rcases hbad with hwide | hmem
        · omega
        · exact hnew hmem
      simp [hnot]
    next hgood =>
      rw [not_or, Nat.not_le] at hgood
      rw [ih, List.forall_mem_cons, List.nodup_cons]
      simp only [List.mem_cons, not_or]
      constructor
      · rintro ⟨hrest, hnodup⟩
        exact ⟨⟨hgood, fun later hlater => ⟨(hrest later hlater).1, (hrest later hlater).2.2⟩⟩,
          fun hmem => (hrest index hmem).2.1 rfl, hnodup⟩
      · rintro ⟨⟨_, hrest⟩, hnew, hnodup⟩
        exact ⟨fun later hlater => ⟨(hrest later hlater).1,
          fun heq => hnew (heq ▸ hlater), (hrest later hlater).2⟩, hnodup⟩

/-- The flags of the architecture pass their check, so that they never add to
    what is wrong with a registry. -/
theorem flagViolations_eq_nil : flagViolations = [] := by
  simp only [flagViolations, List.append_eq_nil_iff, indexViolations_eq_nil_iff]
  decide +kernel

namespace ControlRegisters

/-- The indices of the control registers are 0, 1 and so on up to the number of
    registers. -/
def Gapless (registers : ControlRegisters) : Prop :=
  registers.entries.map (·.index.toNat) = List.range registers.size

instance (registers : ControlRegisters) : Decidable registers.Gapless :=
  inferInstanceAs (Decidable (_ = _))

theorem violations_eq_nil_iff_gapless {registers : ControlRegisters} :
    registers.violations = [] ↔ registers.Gapless := by
  rw [violations, List.map_eq_nil_iff, List.filter_eq_nil_iff]
  simp only [Prod.forall, List.mem_zipIdx_iff_getElem?, decide_not, Bool.not_eq_true',
    decide_eq_false_iff_not, Decidable.not_not]
  constructor
  · intro hrank
    apply List.ext_getElem
    · simp [size]
    · intro rank hrank' hsize
      have hbound : rank < registers.entries.length := by simpa using hrank'
      simpa using hrank registers.entries[rank] rank (List.getElem?_eq_getElem hbound)
  · intro hgapless register rank hregister
    obtain ⟨hbound, rfl⟩ := List.getElem?_eq_some_iff.1 hregister
    have hindex := congrArg (·[rank]?) hgapless
    simpa [size, hbound] using hindex

end ControlRegisters

end Sigma16
