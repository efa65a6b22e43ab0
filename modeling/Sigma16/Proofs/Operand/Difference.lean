import Sigma16.Operand
import Mathlib.Algebra.Order.Group.Multiset

namespace Sigma16.Operand

/-- What one trailing literal can supply, with the order of the operands left
    aside: at least one operand, registers and at most one constant. -/
def Coverable (omitted : Multiset Operand) : Prop :=
  omitted ≠ 0 ∧ (∀ operand ∈ omitted, operand = register ∨ operand = constant)
    ∧ omitted.count constant ≤ 1

theorem literalCovers_iff_coverable {omitted : List Operand} :
    literalCovers omitted = true ↔ Coverable omitted := by
  simp only [literalCovers, Coverable, Bool.and_eq_true, Bool.not_eq_true', List.isEmpty_eq_false_iff,
    decide_eq_true_eq, List.all_eq_true, Bool.or_eq_true, Multiset.coe_eq_zero, Multiset.mem_coe,
    Multiset.coe_count, ne_eq]
  constructor
  · rintro ⟨⟨hnonempty, hcount⟩, hkinds⟩
    exact ⟨hnonempty, fun operand hmem => (hkinds operand hmem).symm, hcount⟩
  · rintro ⟨hnonempty, hkinds, hcount⟩
    exact ⟨⟨hnonempty, hcount⟩, fun operand hmem => (hkinds operand hmem).symm⟩

/-- Matching operands loses none: those of the base are the written ones and
    the ones left over. -/
theorem add_of_difference?_eq_some {full written omitted : List Operand}
    (hdifference : difference? full written = some omitted) :
    (full : Multiset Operand) = written + omitted := by
  induction full generalizing written omitted with
  | nil =>
    cases written with
    | nil =>
      simp only [difference?, Option.some.injEq] at hdifference
      subst hdifference
      rfl
    | cons operand written => simp [difference?] at hdifference
  | cons operand full ih =>
    rw [difference?] at hdifference
    split at hdifference
    next hmem =>
      have hperm := List.perm_cons_erase hmem
      rw [← Multiset.cons_coe, ih hdifference, Multiset.coe_eq_coe.2 hperm, ← Multiset.cons_coe,
        Multiset.cons_add]
    next =>
      obtain ⟨rest, hrest, rfl⟩ := Option.map_eq_some_iff.1 hdifference
      rw [← Multiset.cons_coe, ih hrest, ← Multiset.cons_coe, Multiset.add_cons]

/-- Matching fails exactly for an operand that the base lacks, or lacks in that
    number. -/
theorem isSome_difference?_iff {full written : List Operand} :
    (difference? full written).isSome = true ↔ (written : Multiset Operand) ≤ full := by
  constructor
  · intro hsome
    obtain ⟨omitted, homitted⟩ := Option.isSome_iff_exists.1 hsome
    rw [add_of_difference?_eq_some homitted]
    exact Multiset.le_add_right _ _
  · induction full generalizing written with
    | nil =>
      intro hle
      have hempty : written = [] := by simpa [Multiset.le_zero] using hle
      subst hempty
      rfl
    | cons operand full ih =>
      intro hle
      rw [difference?]
      split
      next hmem =>
        apply ih
        have hperm := List.perm_cons_erase hmem
        rw [Multiset.coe_eq_coe.2 hperm, ← Multiset.cons_coe, ← Multiset.cons_coe] at hle
        exact (Multiset.cons_le_cons_iff operand).1 hle
      next hmem =>
        rw [Option.isSome_map]
        apply ih
        rw [← Multiset.cons_coe] at hle
        exact (Multiset.le_cons_of_notMem (by simpa using hmem)).1 hle

/-- The operands left over pass the check of the literal when the written ones
    are among those of the base and the difference can be covered. An entry with
    an operand that the base lacks fails it like one that leaves out none. -/
theorem literalCovers_difference?_iff {full written : List Operand} :
    literalCovers ((difference? full written).getD []) = true ↔
      (written : Multiset Operand) ≤ full ∧ Coverable (full - written) := by
  cases hdifference : difference? full written with
  | none =>
    have hnot : ¬ (written : Multiset Operand) ≤ full := by
      rw [← isSome_difference?_iff, hdifference]
      simp
    simp [hnot, literalCovers]
  | some omitted =>
    have hle : (written : Multiset Operand) ≤ full := by
      rw [← isSome_difference?_iff, hdifference]
      rfl
    have hrest : (full : Multiset Operand) - written = omitted := by
      rw [add_of_difference?_eq_some hdifference, add_tsub_cancel_left]
    rw [Option.getD_some, literalCovers_iff_coverable, hrest]
    simp [hle]

/-- The operands of a list that come after as many of their kind as are written:
    what is left of it when the written ones take the earliest of each kind. -/
def unmatched (full written : List Operand) : List Operand :=
  (full.zipIdx.filter fun (operand, position) =>
    written.count operand ≤ (full.take position).count operand).map Prod.fst

theorem unmatched_sublist (full written : List Operand) : (unmatched full written).Sublist full := by
  have hkept := List.filter_sublist (l := full.zipIdx) (p := fun (operand, position) =>
    written.count operand ≤ (full.take position).count operand)
  simpa only [unmatched, List.zipIdx_map_fst] using hkept.map Prod.fst

/-- Behind its first operand a list is searched with that operand counted once
    more. -/
private theorem unmatched_cons (operand : Operand) (full written : List Operand) :
    unmatched (operand :: full) written
      = (if operand ∈ written then [] else [operand])
        ++ (full.zipIdx.filter fun (other, position) =>
            written.count other ≤ (full.take position).count other
              + if operand == other then 1 else 0).map Prod.fst := by
  have hfirst : (written.count operand ≤ 0) ↔ operand ∉ written := by
    rw [Nat.le_zero, List.count_eq_zero]
  rw [unmatched, List.zipIdx_cons', List.filter_cons, List.filter_map]
  by_cases hmem : operand ∈ written
  · simp [hfirst, hmem, List.count_cons, Function.comp_def]
  · simp [hfirst, hmem, List.count_cons, Function.comp_def]

theorem unmatched_cons_of_mem {operand : Operand} {full written : List Operand}
    (hmem : operand ∈ written) :
    unmatched (operand :: full) written = unmatched full (written.erase operand) := by
  rw [unmatched_cons, if_pos hmem, List.nil_append, unmatched]
  refine congrArg (List.map Prod.fst) (List.filter_congr ?_)
  rintro ⟨other, position⟩ -
  simp only [List.count_erase, Nat.sub_le_iff_le_add]

theorem unmatched_cons_of_notMem {operand : Operand} {full written : List Operand}
    (hmem : operand ∉ written) :
    unmatched (operand :: full) written = operand :: unmatched full written := by
  rw [unmatched_cons, if_neg hmem, unmatched, List.singleton_append]
  refine congrArg (operand :: List.map Prod.fst ·) (List.filter_congr ?_)
  rintro ⟨other, position⟩ -
  by_cases hkind : operand = other
  · subst hkind
    simp [List.count_eq_zero_of_not_mem hmem]
  · simp [hkind]

theorem eq_unmatched_of_difference?_eq_some {full written omitted : List Operand}
    (hdifference : difference? full written = some omitted) : omitted = unmatched full written := by
  induction full generalizing written omitted with
  | nil =>
    cases written with
    | nil =>
      simp only [difference?, Option.some.injEq] at hdifference
      rw [← hdifference]
      rfl
    | cons operand written => simp [difference?] at hdifference
  | cons operand full ih =>
    rw [difference?] at hdifference
    split at hdifference
    next hmem => rw [ih hdifference, unmatched_cons_of_mem hmem]
    next hmem =>
      obtain ⟨rest, hrest, rfl⟩ := Option.map_eq_some_iff.1 hdifference
      rw [ih hrest, unmatched_cons_of_notMem hmem]

theorem isSome_difference?_iff_forall_count_le {full written : List Operand} :
    (difference? full written).isSome = true ↔
      ∀ operand, written.count operand ≤ full.count operand := by
  simp only [isSome_difference?_iff, Multiset.le_iff_count, Multiset.coe_count]

/-- What is left over of a list of operands once all the written ones have been
    matched with some of it. -/
structure LeftOver (full written omitted : List Operand) : Prop where
  sublist : omitted.Sublist full
  perm : full.Perm (written ++ omitted)
  /-- Of every kind the earliest operands are matched and the later ones left
      over. -/
  eq_unmatched : omitted = unmatched full written

/-- Matching one operand after the other, with operands of any kinds in any
    order, is the difference of the two lists as multisets, in the order of the
    first. -/
theorem difference?_eq_some_iff_leftOver {full written omitted : List Operand} :
    difference? full written = some omitted ↔ LeftOver full written omitted := by
  constructor
  · intro hdifference
    have heq := eq_unmatched_of_difference?_eq_some hdifference
    exact {
      sublist := heq ▸ unmatched_sublist full written
      perm := Multiset.coe_eq_coe.1 (add_of_difference?_eq_some hdifference)
      eq_unmatched := heq }
  · intro hleft
    have hsome : (difference? full written).isSome = true := by
      rw [isSome_difference?_iff_forall_count_le]
      intro operand
      rw [hleft.perm.count_eq, List.count_append]
      exact Nat.le_add_right _ _
    obtain ⟨found, hfound⟩ := Option.isSome_iff_exists.1 hsome
    rw [hfound, eq_unmatched_of_difference?_eq_some hfound, hleft.eq_unmatched]

/-- The first two registers are matched, so that the one behind the constant is
    left over. -/
example : difference? [.register, .register, .constant, .register] [.register, .register]
    = some [.constant, .register] := by decide

end Sigma16.Operand
