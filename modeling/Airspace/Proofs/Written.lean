import Airspace.Proofs.Reordering
import Airspace.Proofs.Spelling

/-! # Reading what was written

  A table is written by joining its lines with feeds, and read by splitting its content at
  them. The two undo each other as long as the feeds of the content are those of the join and
  nothing before them is taken for a part of the ending. Only an empty last line is lost: it
  leaves a feed at the end of the content, behind which no line begins. A content without a
  single byte is refused before it is split.
-/

namespace Airspace

/-! ### Lines of a content -/

namespace Text

variable {α : Type} [BEq α] [LawfulBEq α] {m : LineMarks α}

/-- A line that does not end in a carriage return is left as it is. -/
theorem dropCarriage_of_ne {line : List α} (h : line.getLast? ≠ some m.carriage) :
    dropCarriage m line = line := by
  rcases dropCarriage_cases m line with hsame | hdropped
  · exact hsame
  · refine absurd ?_ h
    rw [hdropped, List.getLast?_concat]

/-- A content without a feed is one line. -/
theorem lines_of_not_mem {line : List α} (h : m.feed ∉ line) (hne : line ≠ []) :
    lines m line = [line] := by
  obtain ⟨c, tail, rfl⟩ := List.exists_cons_of_ne_nil hne
  have hall : ∀ x ∈ c :: tail, (x != m.feed) = true := by
    intro x hx
    rw [bne_iff_ne]
    exact fun heq => h (heq ▸ hx)
  rw [lines]
  split
  · rfl
  · next hcons =>
    rw [List.dropWhile_eq_nil_iff.mpr hall] at hcons
    cases hcons

omit [BEq α] [LawfulBEq α] in
theorem joinLines_cons (m : LineMarks α) (line : List α) {rest : List (List α)} (h : rest ≠ []) :
    joinLines m (line :: rest) = line ++ m.feed :: joinLines m rest := by
  obtain ⟨next, rest, rfl⟩ := List.exists_cons_of_ne_nil h
  rfl

/-- Splitting undoes joining, but for an empty last line. -/
theorem lines_joinLines {rows : List (List α)} (hfeed : ∀ line ∈ rows, m.feed ∉ line)
    (hcarriage : ∀ line ∈ rows.dropLast, line.getLast? ≠ some m.carriage) :
    lines m (joinLines m rows) =
      if rows.getLast?.any List.isEmpty then rows.dropLast else rows := by
  induction rows with
  | nil => simp [joinLines, lines]
  | cons line rest ih =>
    have hline := hfeed line List.mem_cons_self
    by_cases hrest : rest = []
    · subst hrest
      by_cases hempty : line = []
      · simp [hempty, joinLines, lines]
      · simp [hempty, joinLines, lines_of_not_mem hline hempty]
    · -- a line before others is ended by a feed and keeps its own end
      have hlast : (line :: rest).getLast? = rest.getLast? := by
        rw [List.getLast?_cons, List.getLast?_eq_some_getLast hrest, Option.getD_some]
      rw [List.dropLast_cons_of_ne_nil hrest] at hcarriage ⊢
      have hown := dropCarriage_of_ne (hcarriage line List.mem_cons_self)
      have hothers := ih (fun l hl => hfeed l (List.mem_cons_of_mem _ hl))
        fun l hl => hcarriage l (List.mem_cons_of_mem _ hl)
      rw [joinLines_cons m line hrest, lines_append_feed hline, hown, hothers, hlast]
      split <;> rfl

/-- In text, lines are joined by feeds. -/
theorem joinLines_ofChars (rows : List String) :
    joinLines .ofChars (rows.map String.toList) = ("\n".intercalate rows).toList := by
  rw [String.toList_intercalate]
  induction rows.map String.toList with
  | nil => rfl
  | cons line rest ih =>
    by_cases hrest : rest = []
    · simp [hrest, joinLines]
    · rw [joinLines_cons _ line hrest, ih]
      obtain ⟨next, rest, rfl⟩ := List.exists_cons_of_ne_nil hrest
      simp [LineMarks.ofChars]

end Text

/-- The reading of lines that were joined by feeds. -/
theorem Reading.ofText_intercalate {rows : List String} (hfeed : ∀ line ∈ rows, '\n' ∉ line.toList)
    (hcarriage : ∀ line ∈ rows.dropLast, line.toList.getLast? ≠ some '\r') :
    ofText ("\n".intercalate rows) =
      ⟨if rows.getLast? = some "" then rows.dropLast else rows, none⟩ := by
  have hlast : (rows.map String.toList).getLast?.any List.isEmpty =
      decide (rows.getLast? = some "") := by
    rw [List.getLast?_map, Bool.eq_iff_iff]
    cases rows.getLast? <;> simp
  have hfeed' : ∀ line ∈ rows.map String.toList, Text.LineMarks.ofChars.feed ∉ line := by
    simpa [Text.LineMarks.ofChars] using hfeed
  have hcarriage' : ∀ line ∈ (rows.map String.toList).dropLast,
      line.getLast? ≠ some Text.LineMarks.ofChars.carriage := by
    simpa [Text.LineMarks.ofChars, ← List.map_dropLast] using hcarriage
  have hlines := Text.lines_joinLines hfeed' hcarriage'
  rw [Text.joinLines_ofChars, hlast] at hlines
  unfold ofText
  rw [hlines]
  by_cases hempty : rows.getLast? = some ""
  · simp [hempty, ← List.map_dropLast]
  · simp [hempty]

/-! ### Tables -/

namespace Volume

variable {v : Volume} {t : Table}

/-- The volume with contents put into tables one after the other. -/
def putAll (v : Volume) (contents : List (Table × Content)) : Volume :=
  contents.foldl (fun v entry => v.put entry.1 entry.2) v

@[simp] theorem mounted_putAll (v : Volume) (contents : List (Table × Content)) :
    (v.putAll contents).mounted = v.mounted := by
  induction contents generalizing v with
  | nil => rfl
  | cons entry rest ih => exact ih (v.put entry.1 entry.2)

/-- A table stays as it is while contents are put into others. -/
theorem table_putAll {contents : List (Table × Content)} (h : ∀ entry ∈ contents, entry.1 ≠ t) :
    (v.putAll contents).table t = v.table t := by
  induction contents generalizing v with
  | nil => rfl
  | cons entry rest ih =>
    have hother : (v.put entry.1 entry.2).table t = v.table t :=
      if_neg (h entry List.mem_cons_self).symm
    exact (ih fun e he => h e (List.mem_cons_of_mem _ he)).trans hother

/-- Lines are put into a table with a feed between neighbours. -/
theorem putLines_eq (v : Volume) (t : Table) (rows : List String) :
    v.putLines t rows = v.put t (.text ("\n".intercalate rows)) := by
  unfold putLines
  rw [Text.joinLines_ofChars, String.ofList_toList]

/-- What was written into a table is read from it, every time and whatever is put into other
    tables before and after, as long as no line holds a feed and none but the last ends in a
    carriage return. An empty last line is not read; if nothing but that was written, the
    table is refused as empty. -/
theorem read_written (before after : List (Table × Content)) (t : Table) (rows : List String)
    (hother : ∀ entry ∈ after, entry.1 ≠ t) (hfeed : ∀ line ∈ rows, '\n' ∉ line.toList)
    (hcarriage : ∀ line ∈ rows.dropLast, line.toList.getLast? ≠ some '\r') :
    let v := ((empty.putAll before).putLines t rows).putAll after
    (∀ last, rows.getLast? = some last → last ≠ "" → v.read t = .ok ⟨rows, none⟩) ∧
      (rows.getLast? = some "" → "\n".intercalate rows ≠ "" →
        v.read t = .ok ⟨rows.dropLast, none⟩) ∧
      ("\n".intercalate rows = "" → v.read t = .error (.empty t)) := by
  intro v
  have htable : v.table t = some (.text ("\n".intercalate rows)) := by
    have hput : ((empty.putAll before).putLines t rows).table t =
        some (.text ("\n".intercalate rows)) := by
      rw [putLines_eq]
      exact if_pos rfl
    exact (table_putAll hother).trans hput
  have hmounted : v.mounted = true := by
    rw [mounted_putAll, putLines_eq]
    exact mounted_putAll empty before
  have hread : "\n".intercalate rows ≠ "" →
      v.read t = .ok ⟨if rows.getLast? = some "" then rows.dropLast else rows, none⟩ := by
    intro hcontent
    rw [← Reading.ofText_intercalate hfeed hcarriage]
    simp [read, hmounted, htable, hcontent]
  refine ⟨?_, ?_, ?_⟩
  · intro last hlast hne
    have hnot : rows.getLast? ≠ some "" := by
      rw [hlast]
      exact fun heq => hne (Option.some.inj heq)
    -- an empty content would have no line at all
    have hcontent : "\n".intercalate rows ≠ "" := by
      intro hempty
      have hlines := Reading.ofText_intercalate hfeed hcarriage
      rw [hempty, if_neg hnot] at hlines
      have hnil : rows = [] := by simpa [Reading.ofText, Text.lines] using hlines.symm
      rw [hnil] at hlast
      cases hlast
    rw [hread hcontent, if_neg hnot]
  · intro hlast hcontent
    rw [hread hcontent, if_pos hlast]
  · intro hcontent
    simp [read, hmounted, htable, hcontent]

/-- A last line may end in a carriage return and keeps it; a feed at the end is not a line; and
    a single line without a character leaves nothing to read. -/
theorem read_written_notes :
    let written (rows : List String) :=
      ((empty.putAll [(.prisons, .text "old"), (.airports, .folder)]).putLines .prisons rows).putAll
        [(.countries, .bytes [255])]
    (written ["1.5,2.5", "", "3.5\r"]).read .prisons = .ok ⟨["1.5,2.5", "", "3.5\r"], none⟩ ∧
      (written ["1.5,2.5", "", ""]).read .prisons = .ok ⟨["1.5,2.5", ""], none⟩ ∧
      (written [""]).read .prisons = .error (.empty .prisons) := by
  intro written
  refine ⟨?_, ?_, ?_⟩
  · exact (read_written _ _ .prisons _ (by decide) (by decide) (by decide)).1 "3.5\r" rfl
      (by decide)
  · exact (read_written _ _ .prisons _ (by decide) (by decide) (by decide)).2.1 rfl (by decide)
  · exact (read_written _ _ .prisons _ (by decide) (by decide) (by decide)).2.2 rfl

end Volume

end Airspace
