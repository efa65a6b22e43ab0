import Sigma16.Text.Lines

namespace Sigma16.Text

theorem lineFeed_notMem_of_mem_breakLines {chars line : List Char}
    (hline : line ∈ breakLines chars) : '\n' ∉ line := by
  fun_induction breakLines chars generalizing line with
  | case1 => cases hline
  | case2 chars ih | case3 chars ih =>
    rcases List.mem_cons.1 hline with rfl | hline
    · exact List.not_mem_nil
    · exact ih hline
  | case4 char chars hfeed _ hrest =>
    rw [List.mem_singleton.1 hline, List.mem_singleton]
    exact fun hsame => hfeed hsame.symm
  | case5 char chars hfeed _ first lines hrest ih =>
    rcases List.mem_cons.1 hline with rfl | hline
    · refine List.not_mem_cons_of_ne_of_not_mem (fun hsame => hfeed hsame.symm) ?_
      exact ih (hrest ▸ List.mem_cons_self)
    · exact ih (hrest ▸ List.mem_cons_of_mem _ hline)

/-- The lines of a text have no characters but those of the text. -/
theorem mem_of_mem_of_mem_breakLines {chars line : List Char} {char : Char}
    (hline : line ∈ breakLines chars) (hchar : char ∈ line) : char ∈ chars := by
  fun_induction breakLines chars generalizing line with
  | case1 => cases hline
  | case2 chars ih | case3 chars ih =>
    rcases List.mem_cons.1 hline with rfl | hline
    · cases hchar
    · simp [ih hline hchar]
  | case4 first chars _ _ hrest =>
    rw [List.mem_singleton.1 hline, List.mem_singleton] at hchar
    exact hchar ▸ List.mem_cons_self
  | case5 first chars _ _ next lines hrest ih =>
    rw [hrest] at ih
    rcases List.mem_cons.1 hline with rfl | hline
    · rcases List.mem_cons.1 hchar with rfl | hchar
      · exact List.mem_cons_self
      · exact List.mem_cons_of_mem _ (ih List.mem_cons_self hchar)
    · exact List.mem_cons_of_mem _ (ih (List.mem_cons_of_mem _ hline) hchar)

/-- A character that ends no line belongs to the first line of what it starts. -/
theorem breakLines_cons {char : Char} {chars : List Char} (hfeed : char ≠ '\n')
    (hreturn : char = '\r' → ∀ rest, chars ≠ '\n' :: rest) :
    breakLines (char :: chars) =
      match breakLines chars with
      | [] => [[char]]
      | line :: lines => (char :: line) :: lines :=
  breakLines.eq_4 char chars hfeed fun rest hchar => hreturn hchar rest

theorem breakLines_of_lineFeed_notMem {chars : List Char} (hchars : '\n' ∉ chars)
    (hne : chars ≠ []) : breakLines chars = [chars] := by
  induction chars with
  | nil => exact absurd rfl hne
  | cons char chars ih =>
    rw [List.mem_cons, not_or] at hchars
    have hreturn : char = '\r' → ∀ rest, chars ≠ '\n' :: rest := by
      rintro - rest rfl
      exact hchars.2 List.mem_cons_self
    rw [breakLines_cons (Ne.symm hchars.1) hreturn]
    cases chars with
    | nil => rfl
    | cons next chars => rw [ih hchars.2 (List.cons_ne_nil _ _)]

/-- A line feed ends the line before it. -/
theorem breakLines_append_lineFeed_cons {line : List Char} (hfeed : '\n' ∉ line)
    (hreturn : line.getLast? ≠ some '\r') (rest : List Char) :
    breakLines (line ++ '\n' :: rest) = line :: breakLines rest := by
  induction line with
  | nil => rfl
  | cons char line ih =>
    rw [List.mem_cons, not_or] at hfeed
    rw [List.cons_append]
    cases line with
    | nil =>
      -- A carriage return here would be dropped together with the line feed.
      have hchar : char ≠ '\r' := fun hsame => hreturn (congrArg some hsame)
      rw [breakLines_cons (Ne.symm hfeed.1) (fun hsame => absurd hsame hchar), List.nil_append]
      rfl
    | cons next line =>
      rw [List.getLast?_cons_cons] at hreturn
      have hnext : char = '\r' → ∀ rest', next :: line ++ '\n' :: rest ≠ '\n' :: rest' := by
        rintro - rest' hcons
        rw [(List.cons.inj hcons).1] at hfeed
        exact hfeed.2 List.mem_cons_self
      rw [breakLines_cons (Ne.symm hfeed.1) hnext, ih hfeed.2 hreturn]

section Lines

variable {text : String}

theorem lineFeed_notMem_of_mem_lines {line : String} (hline : line ∈ lines text) :
    '\n' ∉ line.toList := by
  obtain ⟨chars, hchars, rfl⟩ := List.mem_map.1 hline
  rw [String.toList_ofList]
  exact lineFeed_notMem_of_mem_breakLines hchars

theorem mem_of_mem_of_mem_lines {line : String} {char : Char} (hline : line ∈ lines text)
    (hchar : char ∈ line.toList) : char ∈ text.toList := by
  obtain ⟨chars, hchars, rfl⟩ := List.mem_map.1 hline
  rw [String.toList_ofList] at hchar
  exact mem_of_mem_of_mem_breakLines hchars hchar

/-- A text without line feeds is a single line, unless it is empty. -/
theorem lines_of_lineFeed_notMem (htext : '\n' ∉ text.toList) :
    lines text = if text = "" then [] else [text] := by
  unfold lines
  split
  next hempty => rw [hempty]; rfl
  next hne =>
    rw [breakLines_of_lineFeed_notMem htext (by simpa using hne), List.map_singleton,
      String.ofList_toList]

theorem length_lines_le_one (htext : '\n' ∉ text.toList) : (lines text).length ≤ 1 := by
  rw [lines_of_lineFeed_notMem htext]
  split <;> simp

theorem getD_lines_zero (htext : '\n' ∉ text.toList) : (lines text).getD 0 "" = text := by
  rw [lines_of_lineFeed_notMem htext]
  split
  next hempty => rw [hempty]; rfl
  next => rfl

/-- A text in which a line feed ends every line is read back line by line. -/
theorem lines_join {ended : List String} (hfeed : ∀ line ∈ ended, '\n' ∉ line.toList)
    (hreturn : ∀ line ∈ ended, line.toList.getLast? ≠ some '\r') :
    lines (String.join (ended.map (· ++ "\n"))) = ended := by
  have hbreak : breakLines (ended.flatMap fun line => line.toList ++ ['\n'])
      = ended.map String.toList := by
    induction ended with
    | nil => rfl
    | cons line ended ih =>
      rw [List.forall_mem_cons] at hfeed hreturn
      rw [List.flatMap_cons, List.append_assoc, List.singleton_append,
        breakLines_append_lineFeed_cons hfeed.1 hreturn.1, ih hfeed.2 hreturn.2, List.map_cons]
  have hjoin : (String.join (ended.map (· ++ "\n"))).toList
      = ended.flatMap fun line => line.toList ++ ['\n'] := by
    simp [String.toList_join, List.flatMap_map]
  rw [lines, hjoin, hbreak, List.map_map]
  simp

end Lines

end Sigma16.Text
