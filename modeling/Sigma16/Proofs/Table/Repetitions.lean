import Sigma16.Proofs.Table.Rows

namespace Sigma16

namespace Row

def withEncoding (rows : List Row) (encoding : Format × List UInt8) : List Row :=
  rows.filter (·.entry.encoding = encoding)

theorem mem_withEncoding {rows : List Row} {encoding : Format × List UInt8} {row : Row} :
    row ∈ withEncoding rows encoding ↔ row ∈ rows ∧ row.entry.encoding = encoding := by
  rw [withEncoding, List.mem_filter, decide_eq_true_eq]

/-- The latest of some rows that has an encoding. -/
def latest? (rows : List Row) (encoding : Format × List UInt8) : Option Row :=
  (withEncoding rows encoding).getLast?

theorem latest?_append_singleton (rows : List Row) (row : Row) (encoding : Format × List UInt8) :
    latest? (rows ++ [row]) encoding
      = if row.entry.encoding = encoding then some row else latest? rows encoding := by
  by_cases hencoding : row.entry.encoding = encoding
  · simp [latest?, withEncoding, List.filter_append, hencoding]
  · simp [latest?, withEncoding, List.filter_append, hencoding]

namespace Ordered

theorem position_le_of_latest?_eq_some {rows : List Row} (hrows : Ordered rows) {found other : Row}
    (hfound : latest? rows other.entry.encoding = some found) (hother : other ∈ rows) :
    other.position ≤ found.position := by
  obtain ⟨front, hfront⟩ := List.getLast?_eq_some_iff.1 hfound
  have hordered : Ordered (withEncoding rows other.entry.encoding) := hrows.filter _
  have hmem := mem_withEncoding.2 ⟨hother, rfl⟩
  rw [hfront] at hordered hmem
  rcases List.mem_append.1 hmem with hbefore | hlast
  · have hlower := (List.pairwise_append.1 hordered).2.2 other hbefore found
    exact Nat.le_of_lt (hlower (List.mem_singleton_self found))
  · exact Nat.le_of_eq (congrArg Row.position (List.mem_singleton.1 hlast))

/-- The latest of ordered rows with an encoding is the one with the greatest
    position. -/
theorem latest?_eq_some_iff {rows : List Row} (hrows : Ordered rows) {row : Row}
    {encoding : Format × List UInt8} :
    latest? rows encoding = some row ↔
      row ∈ rows ∧ row.entry.encoding = encoding
        ∧ ∀ other ∈ rows, other.entry.encoding = encoding → other.position ≤ row.position := by
  constructor
  · intro hfound
    obtain ⟨hrow, hencoding⟩ := mem_withEncoding.1 (List.mem_of_getLast? hfound)
    refine ⟨hrow, hencoding, ?_⟩
    rintro other hother rfl
    exact hrows.position_le_of_latest?_eq_some hfound hother
  · rintro ⟨hrow, rfl, hlatest⟩
    have hmem := mem_withEncoding.2 ⟨hrow, rfl⟩
    cases hfound : latest? rows row.entry.encoding with
    | none => simp [List.getLast?_eq_none_iff.1 hfound] at hmem
    | some found =>
      obtain ⟨hfoundRow, hsame⟩ := mem_withEncoding.1 (List.mem_of_getLast? hfound)
      have hle := hlatest found hfoundRow hsame
      have hge := hrows.position_le_of_latest?_eq_some hfound hrow
      rw [hrows.eq_of_position_eq hfoundRow hrow (Nat.le_antisymm hle hge)]

end Ordered

/-- The rows that repeat an encoding, each with the latest row before it that has
    the same, given the rows that come before all of them. -/
def repetitions (before : List Row) : List Row → List (Row × Row)
  | [] => []
  | row :: rows =>
    ((latest? before row.entry.encoding).map (·, row)).toList ++ repetitions (before ++ [row]) rows

theorem mem_repetitions {before rows : List Row} {earlier later : Row} :
    (earlier, later) ∈ repetitions before rows ↔
      ∃ front back, rows = front ++ later :: back
        ∧ latest? (before ++ front) later.entry.encoding = some earlier := by
  induction rows generalizing before with
  | nil => simp [repetitions]
  | cons row rows ih =>
    rw [repetitions, List.mem_append, ih]
    simp only [Option.mem_toList, Option.map_eq_some_iff, Prod.mk.injEq]
    constructor
    · rintro (⟨found, hfound, rfl, rfl⟩ | ⟨front, back, rfl, hlatest⟩)
      · exact ⟨[], rows, rfl, by simpa using hfound⟩
      · exact ⟨row :: front, back, rfl, by simpa using hlatest⟩
    · rintro ⟨front, back, hrows, hlatest⟩
      cases front with
      | nil =>
        obtain ⟨rfl, rfl⟩ := List.cons_eq_cons.1 hrows
        exact .inl ⟨earlier, by simpa using hlatest, rfl, rfl⟩
      | cons first front =>
        obtain ⟨rfl, rfl⟩ := List.cons_eq_cons.1 hrows
        exact .inr ⟨front, back, rfl, by simpa using hlatest⟩

theorem map_snd_repetitions_sublist (before rows : List Row) :
    ((repetitions before rows).map Prod.snd).Sublist rows := by
  induction rows generalizing before with
  | nil => exact .slnil
  | cons row rows ih =>
    rw [repetitions]
    cases latest? before row.entry.encoding with
    | none => exact (ih _).cons row
    | some earlier => exact (ih _).cons_cons row

/-- The repetitions of one encoding link each row that has it to the next one. -/
theorem filter_repetitions (before rows : List Row) (encoding : Format × List UInt8) :
    (repetitions before rows).filter (·.2.entry.encoding = encoding)
      = ((latest? before encoding).toList ++ withEncoding rows encoding).zip
          ((latest? before encoding).toList ++ withEncoding rows encoding).tail := by
  induction rows generalizing before with
  | nil => cases latest? before encoding <;> rfl
  | cons row rows ih =>
    rw [repetitions, List.filter_append, ih, latest?_append_singleton]
    by_cases hencoding : row.entry.encoding = encoding
    · subst hencoding
      cases latest? before row.entry.encoding <;> simp [withEncoding]
    · -- A row with another encoding adds nothing to the chain of this one.
      cases latest? before row.entry.encoding <;> simp [withEncoding, hencoding]

/-- Two encodings in turns, and one that is not repeated. -/
example :
    (repetitions [] (ofEntries [⟨"add", .rrr, [0], false⟩, ⟨"sub", .rrr, [1], false⟩,
        ⟨"plus", .rrr, [0], false⟩, ⟨"addx", .rr, [0], false⟩, ⟨"minus", .rrr, [1], false⟩,
        ⟨"sum", .rrr, [0], false⟩])).map (fun pair => (pair.1.position, pair.2.position))
      = [(0, 2), (1, 4), (2, 5)] := by decide

end Row

end Sigma16
