import Sigma16.Pseudo
import Sigma16.Proofs.Table.Rows

namespace Sigma16

namespace Row

/-- A row once a number of others have come to stand before it. -/
def after (count : Nat) (row : Row) : Row :=
  ⟨row.position + count, row.entry⟩

theorem ofEntries_append (entries appended : List Entry) :
    ofEntries (entries ++ appended)
      = ofEntries entries ++ (ofEntries appended).map (after entries.length) := by
  have hshift : appended.mapIdx (fun position => mk (position + entries.length))
      = (ofEntries appended).map (after entries.length) := by
    simp only [ofEntries, List.mapIdx_eq_zipIdx_map, List.map_map]
    rfl
  rw [← hshift]
  exact List.mapIdx_append

/-- A scan of a list of entries comes to those appended to it only if it has
    found nothing before them. -/
theorem find?_ofEntries_append (p : Entry → Bool) (entries appended : List Entry) :
    (ofEntries (entries ++ appended)).find? (p ·.entry)
      = ((ofEntries entries).find? (p ·.entry)).or
          (((ofEntries appended).find? (p ·.entry)).map (after entries.length)) := by
  rw [ofEntries_append, List.find?_append, List.find?_map]
  rfl

end Row

namespace Table

variable {entries appended : List Entry}

theorem lookup?_append (entries appended : List Entry) (mnemonic : String) :
    (ofEntries (entries ++ appended)).lookup? mnemonic
      = ((ofEntries entries).lookup? mnemonic).or
          (((ofEntries appended).lookup? mnemonic).map (Row.after entries.length)) := by
  simp only [lookup?_eq_find?]
  exact Row.find?_ofEntries_append (·.mnemonic == mnemonic) entries appended

theorem base?_append (entries appended : List Entry) (entry : Entry) :
    (ofEntries (entries ++ appended)).base? entry
      = ((ofEntries entries).base? entry).or
          (((ofEntries appended).base? entry).map (Row.after entries.length)) := by
  unfold base?
  split
  next =>
    exact Row.find?_ofEntries_append (fun base => !base.pseudo && entry.Extends base) entries
      appended
  next => rfl

/-- Once an entry has a base, what it leaves out is settled too, even if there
    is no answer. -/
theorem omitted?_append_of_base?_eq_some {entry : Entry} {base : Row}
    (hbase : (ofEntries entries).base? entry = some base) :
    (ofEntries (entries ++ appended)).omitted? entry = (ofEntries entries).omitted? entry := by
  simp [omitted?, base?_append, hbase]

end Table

end Sigma16
