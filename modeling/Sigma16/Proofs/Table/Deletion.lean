import Sigma16.Proofs.Consistency.Verdict

namespace Sigma16

namespace Row

/-- A row when no others are left than the given ones: its position is the
    number of those before it. -/
def among (kept : List Row) (row : Row) : Row :=
  ⟨kept.idxOf row, row.entry⟩

theorem ofEntries_map_entry {kept : List Row} (hnodup : kept.Nodup) :
    ofEntries (kept.map (·.entry)) = kept.map (among kept) := by
  apply List.ext_getElem
  · simp [ofEntries]
  · intro position hposition hbound
    simp [ofEntries, among, hnodup.idxOf_getElem]

end Row

namespace Table

variable {table : Table} {deleted : Row → Bool}

/-- The rows of the entries that are no pseudo-instructions. -/
def realRows (table : Table) : List Row :=
  table.rows.filter (!·.entry.pseudo)

theorem realInstructions_eq_filter_realRows (table : Table) :
    table.realInstructions = table.realRows.filter (·.entry.isInstruction) :=
  List.filter_comm _ _ _

theorem base?_eq_find?_realRows (table : Table) {entry : Entry} (hpseudo : entry.pseudo = true) :
    table.base? entry = table.realRows.find? (entry.Extends ·.entry) := by
  rw [base?, if_pos hpseudo, realRows, List.find?_filter]
  simp

/-- The rows that are left when those that meet a condition are deleted. -/
def kept (table : Table) (deleted : Row → Bool) : List Row :=
  table.rows.filter (!deleted ·)

/-- A table without the rows that meet a condition. Those behind them move up. -/
def without (table : Table) (deleted : Row → Bool) : Table :=
  ofEntries ((table.kept deleted).map (·.entry))

theorem rows_without (table : Table) (deleted : Row → Bool) :
    (table.without deleted).rows = (table.kept deleted).map (Row.among (table.kept deleted)) :=
  Row.ofEntries_map_entry (table.ordered_rows.filter _).nodup

theorem entries_without_sublist (table : Table) (deleted : Row → Bool) :
    (table.without deleted).entries.Sublist table.entries := by
  rw [← table.map_entry_rows]
  exact List.filter_sublist.map _

section PseudosDeleted

variable (hdeleted : ∀ row ∈ table.rows, deleted row = true → row.entry.pseudo = true)
include hdeleted

/-- If only pseudo-instructions are deleted, the other rows are all there, in
    the same order. -/
theorem realRows_without :
    (table.without deleted).realRows
      = table.realRows.map (Row.among (table.kept deleted)) := by
  have hreal : (table.kept deleted).filter (!·.entry.pseudo) = table.realRows := by
    rw [kept, realRows, List.filter_filter]
    apply List.filter_congr
    intro row hrow
    -- A deleted row is a pseudo-instruction, so that either filter drops it.
    cases hcase : deleted row with
    | false => simp
    | true => simp [hdeleted row hrow hcase]
  rw [realRows, rows_without, List.filter_map, ← hreal]
  rfl

theorem realInstructions_without :
    (table.without deleted).realInstructions
      = table.realInstructions.map (Row.among (table.kept deleted)) := by
  rw [realInstructions_eq_filter_realRows, realRows_without hdeleted, List.filter_map,
    realInstructions_eq_filter_realRows]
  rfl

/-- No pseudo-instruction is the base of another. -/
theorem base?_without (entry : Entry) :
    (table.without deleted).base? entry
      = (table.base? entry).map (Row.among (table.kept deleted)) := by
  cases hpseudo : entry.pseudo with
  | false => simp [base?_eq_none_of_not_pseudo _ hpseudo]
  | true =>
    rw [base?_eq_find?_realRows _ hpseudo, realRows_without hdeleted, List.find?_map,
      base?_eq_find?_realRows _ hpseudo]
    rfl

theorem omitted?_without (entry : Entry) :
    (table.without deleted).omitted? entry = table.omitted? entry := by
  cases hbase : table.base? entry <;> simp [omitted?, base?_without hdeleted, hbase, Row.among]

/-- The laws of a table ask nothing of one pseudo-instruction that another would
    have to supply. -/
theorem Lawful.without (hlawful : table.Lawful) :
    (table.without deleted).Lawful where
  encodingsDistinct := by
    have hsublist := table.entries_without_sublist deleted
    have hdistinct := encodingsDistinct_iff_nodup.1 hlawful.encodingsDistinct
    exact encodingsDistinct_iff_nodup.2 (((hsublist.filter _).map _).nodup hdistinct)
  wellFormed entry hentry :=
    hlawful.wellFormed entry ((table.entries_without_sublist deleted).subset hentry)
  pseudosSupplied := by
    intro entry hentry hpseudo
    obtain ⟨base, hfirst, hsupplied⟩ := hlawful.pseudosSupplied entry
      ((table.entries_without_sublist deleted).subset hentry) hpseudo
    have hbase := base?_without hdeleted entry
    rw [base?_eq_some_iff.2 ⟨hpseudo, hfirst⟩, Option.map_some] at hbase
    exact ⟨base.among (table.kept deleted), (base?_eq_some_iff.1 hbase).2, hsupplied⟩

/-- Pseudo-instructions are a layer on top of the real ones. Whichever of them
    are deleted, and wherever they stand, words are decoded to the same entries,
    every entry keeps its base and the operands that it leaves out, and a
    registry that was accepted is accepted still. Only positions change, to the
    places among the rows that are left. -/
theorem without_conservative :
    (∀ word, (Decoder.ofTable (table.without deleted)).decode? word
        = ((Decoder.ofTable table).decode? word).map (Row.among (table.kept deleted)))
      ∧ (∀ entry, (table.without deleted).base? entry
          = (table.base? entry).map (Row.among (table.kept deleted)))
      ∧ (∀ entry, (table.without deleted).omitted? entry = table.omitted? entry)
      ∧ ∀ registers, Registry.validate ⟨table, registers⟩ = .ok () →
          Registry.validate ⟨table.without deleted, registers⟩ = .ok () := by
  refine ⟨?_, base?_without hdeleted, omitted?_without hdeleted, ?_⟩
  · intro word
    simp only [Decoder.decode?_ofTable, realInstructions_without hdeleted, List.find?_map]
    rfl
  · intro registers hvalid
    rw [Registry.validate_eq_ok_iff_lawful] at hvalid ⊢
    exact ⟨hvalid.1.without hdeleted, hvalid.2⟩

end PseudosDeleted

/-- A conditional jump that has moved up once the pseudo-instruction in front of
    it is deleted. -/
theorem without_conservative_jumpeq :
    Registry.validate
        ⟨.ofEntries [⟨"jumpeq", .jx, [15, 5, 2], true⟩, ⟨"jumpc1", .kx, [15, 5], false⟩],
          .ofList []⟩ = .ok ()
      ∧ Registry.validate
          ⟨(ofEntries [⟨"jumpeq", .jx, [15, 5, 2], true⟩, ⟨"jumpc1", .kx, [15, 5], false⟩]).without
            (·.position = 0), .ofList []⟩ = .ok ()
      ∧ (Decoder.ofTable
          ((ofEntries [⟨"jumpeq", .jx, [15, 5, 2], true⟩, ⟨"jumpc1", .kx, [15, 5], false⟩]).without
            (·.position = 0))).decode? 0xf2a5
          = some ⟨0, ⟨"jumpc1", .kx, [15, 5], false⟩⟩ := by
  have hvalid : Registry.validate
      ⟨.ofEntries [⟨"jumpeq", .jx, [15, 5, 2], true⟩, ⟨"jumpc1", .kx, [15, 5], false⟩],
        .ofList []⟩ = .ok () := by
    rw [Registry.validate_eq_ok_iff_lawful]
    exact ⟨⟨by decide, by decide, by decide⟩, by decide⟩
  have hdecode : (Decoder.ofTable
      (ofEntries [⟨"jumpeq", .jx, [15, 5, 2], true⟩, ⟨"jumpc1", .kx, [15, 5], false⟩])).decode?
        0xf2a5 = some ⟨1, ⟨"jumpc1", .kx, [15, 5], false⟩⟩ := by
    rw [Decoder.decode?_ofTable]
    decide
  obtain ⟨hsame, -, -, hkept⟩ := @without_conservative
    (ofEntries [⟨"jumpeq", .jx, [15, 5, 2], true⟩, ⟨"jumpc1", .kx, [15, 5], false⟩])
    (·.position = 0) (by decide)
  refine ⟨hvalid, hkept _ hvalid, ?_⟩
  rw [hsame, hdecode]
  decide

end Table

end Sigma16
