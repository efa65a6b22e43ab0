import Sigma16.Proofs.Consistency.Report
import Sigma16.Proofs.ControlRegisters.History

namespace Sigma16

open Violation

namespace ControlRegisters

variable {registers : ControlRegisters}

/-- Indices grow at least as fast as the places of the registers that have
    them. -/
theorem index_add_le (rank distance : Nat) (hbound : rank + distance < registers.entries.length) :
    registers.entries[rank].index.toNat + distance
      ≤ registers.entries[rank + distance].index.toNat := by
  induction distance with
  | zero => exact Nat.le_refl _
  | succ distance ih =>
    have hle := ih (Nat.lt_of_succ_lt hbound)
    have hlt := List.pairwise_iff_getElem.1 registers.increasing (rank + distance)
      (rank + (distance + 1)) (Nat.lt_of_succ_lt hbound) hbound (Nat.lt_succ_self _)
    rw [UInt8.lt_iff_toNat_lt] at hlt
    omega

theorem rank_le_index {rank : Nat} (hbound : rank < registers.entries.length) :
    rank ≤ registers.entries[rank].index.toNat := by
  have hle := index_add_le 0 rank (by simpa using hbound)
  simp only [Nat.zero_add] at hle
  exact Nat.le_of_add_left_le hle

theorem exists_unused (registers : ControlRegisters) :
    ∃ index, ∀ register ∈ registers.entries, register.index.toNat ≠ index :=
  ⟨256, fun register _ => Nat.ne_of_lt register.index.toNat_lt⟩

/-- The least index that no register has. It is no index at all if there is a
    register for each of them. -/
def firstGap (registers : ControlRegisters) : Nat :=
  Nat.find registers.exists_unused

theorem index_ne_firstGap {register : ControlRegister} (hregister : register ∈ registers.entries) :
    register.index.toNat ≠ registers.firstGap :=
  Nat.find_spec registers.exists_unused register hregister

theorem exists_of_lt_firstGap {index : Nat} (hindex : index < registers.firstGap) :
    ∃ register ∈ registers.entries, register.index.toNat = index := by
  have hused := Nat.find_min registers.exists_unused hindex
  push Not at hused
  exact hused

/-- Below the first gap every register stands at the place of its index. -/
theorem exists_index_eq_of_lt_firstGap {rank : Nat} (hrank : rank < registers.firstGap) :
    ∃ hbound : rank < registers.entries.length, registers.entries[rank].index.toNat = rank := by
  induction rank using Nat.strong_induction_on with
  | h rank ih =>
    obtain ⟨register, hregister, hindex⟩ := exists_of_lt_firstGap hrank
    obtain ⟨place, hplace, rfl⟩ := List.getElem_of_mem hregister
    have hle : place ≤ rank := hindex ▸ rank_le_index hplace
    rcases Nat.eq_or_lt_of_le hle with rfl | hlt
    · exact ⟨hplace, hindex⟩
    · -- The place before it is taken by the register with the index of that place.
      obtain ⟨_, hown⟩ := ih place hlt (Nat.lt_trans hlt hrank)
      exact absurd (hown.symm.trans hindex) (Nat.ne_of_lt hlt)

theorem rank_lt_index_of_firstGap_le {rank : Nat} (hbound : rank < registers.entries.length)
    (hgap : registers.firstGap ≤ rank) : rank < registers.entries[rank].index.toNat := by
  obtain ⟨distance, rfl⟩ := Nat.exists_eq_add_of_le hgap
  have hgapBound : registers.firstGap < registers.entries.length :=
    Nat.lt_of_le_of_lt (Nat.le_add_right _ _) hbound
  have hle := rank_le_index hgapBound
  have hne := index_ne_firstGap (List.getElem_mem hgapBound)
  have hspread := index_add_le registers.firstGap distance hbound
  omega

theorem index_ne_rank_iff {rank : Nat} (hbound : rank < registers.entries.length) :
    registers.entries[rank].index.toNat ≠ rank ↔ registers.firstGap ≤ rank := by
  constructor
  · intro hne
    by_contra hbelow
    obtain ⟨_, hindex⟩ := exists_index_eq_of_lt_firstGap (Nat.lt_of_not_le hbelow)
    exact hne hindex
  · intro hgap
    exact Nat.ne_of_gt (rank_lt_index_of_firstGap_le hbound hgap)

theorem firstGap_lt_index_iff {rank : Nat} (hbound : rank < registers.entries.length) :
    registers.firstGap < registers.entries[rank].index.toNat ↔ registers.firstGap ≤ rank := by
  constructor
  · intro hlt
    by_contra hbelow
    obtain ⟨_, hindex⟩ := exists_index_eq_of_lt_firstGap (Nat.lt_of_not_le hbelow)
    omega
  · intro hgap
    exact Nat.lt_of_le_of_lt hgap (rank_lt_index_of_firstGap_le hbound hgap)

/-- The registers with indices above the first gap. -/
def aboveGap (registers : ControlRegisters) : List ControlRegister :=
  registers.entries.filter (registers.firstGap < ·.index.toNat)

theorem aboveGap_eq_drop (registers : ControlRegisters) :
    registers.aboveGap = registers.entries.drop registers.firstGap := by
  have hbelow : (registers.entries.take registers.firstGap).filter
      (registers.firstGap < ·.index.toNat) = [] := by
    rw [List.filter_eq_nil_iff]
    intro register hregister
    obtain ⟨rank, hrank, rfl⟩ := List.getElem_of_mem hregister
    rw [List.length_take, Nat.lt_min] at hrank
    rw [List.getElem_take, decide_eq_true_eq, firstGap_lt_index_iff hrank.2]
    exact Nat.not_le_of_lt hrank.1
  have habove : (registers.entries.drop registers.firstGap).filter
      (registers.firstGap < ·.index.toNat) = registers.entries.drop registers.firstGap := by
    rw [List.filter_eq_self]
    intro register hregister
    obtain ⟨rank, hrank, rfl⟩ := List.getElem_of_mem hregister
    rw [List.length_drop] at hrank
    rw [List.getElem_drop, decide_eq_true_eq, firstGap_lt_index_iff (by omega)]
    exact Nat.le_add_right _ _
  rw [aboveGap]
  conv_lhs => rw [← List.take_append_drop registers.firstGap registers.entries]
  rw [List.filter_append, hbelow, habove, List.nil_append]

/-- A register is not at the place of its index when it lies above the first
    gap. -/
theorem index_ne_rank_iff_firstGap_lt {place : ControlRegister × Nat}
    (hplace : place ∈ registers.entries.zipIdx) :
    place.1.index.toNat ≠ place.2 ↔ registers.firstGap < place.1.index.toNat := by
  obtain ⟨register, rank⟩ := place
  have hregister : registers.entries[rank]? = some register :=
    List.mem_zipIdx_iff_getElem?.1 hplace
  obtain ⟨hbound, rfl⟩ := List.getElem?_eq_some_iff.1 hregister
  rw [index_ne_rank_iff hbound, firstGap_lt_index_iff hbound]

theorem violations_eq_map_aboveGap (registers : ControlRegisters) :
    registers.violations = registers.aboveGap.map .controlRegister := by
  calc registers.violations
      = (registers.entries.zipIdx.filter (registers.firstGap < ·.1.index.toNat)).map
          (.controlRegister ·.1) := by
        refine congrArg (List.map _) (List.filter_congr ?_)
        intro place hplace
        exact decide_eq_decide.2 (index_ne_rank_iff_firstGap_lt hplace)
    _ = ((registers.entries.zipIdx.map Prod.fst).filter
          (registers.firstGap < ·.index.toNat)).map .controlRegister := by
        rw [List.filter_map, List.map_map]
        rfl
    _ = registers.aboveGap.map .controlRegister := by rw [List.zipIdx_map_fst, aboveGap]

example :
    (ofList [⟨"vect", 5⟩, ⟨"status", 0⟩, ⟨"ipc", 3⟩, ⟨"mask", 1⟩]).violations
      = [.controlRegister ⟨"ipc", 3⟩, .controlRegister ⟨"vect", 5⟩] := by decide

/-- A list of the registers that a history of additions leaves above the first
    index which none of them has. -/
structure ListsAboveGap (history : List ControlRegister) (listed : List ControlRegister) :
    Prop where
  mem_iff : ∀ register, register ∈ listed ↔
    register.Survives history ∧ (ofList history).firstGap < register.index.toNat
  increasing : listed.Pairwise (·.index < ·.index)
  /-- Nothing is left out once the first gap is passed. -/
  suffix : listed <:+ (ofList history).entries
  eq_nil_iff : listed = [] ↔ (ofList history).Gapless

theorem listsAboveGap_aboveGap (history : List ControlRegister) :
    ListsAboveGap history (ofList history).aboveGap where
  mem_iff register := by
    rw [aboveGap, List.mem_filter, mem_entries_ofList, decide_eq_true_eq]
  increasing := (ofList history).increasing.filter _
  suffix := by
    rw [aboveGap_eq_drop]
    exact List.drop_suffix _ _
  eq_nil_iff := by
    rw [← violations_eq_nil_iff_gapless, violations_eq_map_aboveGap, List.map_eq_nil_iff]

end ControlRegisters

/-- Whatever the mnemonics are, the report names the control registers above the
    first gap that a history of additions leaves between their indices, each
    once and in the order of the indices. -/
theorem Registry.ofKinds_controlRegister_reported (table : Table)
    (history : List ControlRegister) :
    ∃ listed, ControlRegisters.ListsAboveGap history listed
      ∧ ofKinds [.controlRegister] (reported ⟨table, .ofList history⟩)
        = listed.map .controlRegister := by
  refine ⟨_, ControlRegisters.listsAboveGap_aboveGap history, ?_⟩
  have honly : ∀ other : Kind, other.part = Kind.controlRegister.part →
      other = .controlRegister := by
    intro other
    cases other <;> simp [Kind.part]
  rw [ofKinds_reported_eq_violationsIn _ honly]
  exact (ControlRegisters.ofList history).violations_eq_map_aboveGap

end Sigma16
