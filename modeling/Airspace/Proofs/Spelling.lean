import Airspace.Record
import Airspace.Text.Line
import Mathlib.Data.List.DropRight
import Mathlib.Tactic.SplitIfs

/-! # Spellings of a record

  A border record can be written in many ways: with blanks around the line and around its
  numbers, with any text behind the mark of a delimiter, and with either of two line endings.
  The record is the same.
-/

namespace Airspace

namespace Text

/-! ### Blanks -/

/-- Nothing but blanks. -/
def Blank (cs : List Char) : Prop := ∀ c ∈ cs, isBlank c = true

variable {cs blanks before after : List Char} {c : Char}

theorem trim_eq (cs : List Char) : trim cs = (cs.dropWhile isBlank).rdropWhile isBlank := rfl

theorem dropWhile_blank_append (h : Blank blanks) (cs : List Char) :
    (blanks ++ cs).dropWhile isBlank = cs.dropWhile isBlank :=
  List.dropWhile_append_of_pos h

theorem rdropWhile_append_blank (h : Blank blanks) (cs : List Char) :
    (cs ++ blanks).rdropWhile isBlank = cs.rdropWhile isBlank := by
  unfold List.rdropWhile
  rw [List.reverse_append, dropWhile_blank_append]
  intro c hc
  exact h c (List.mem_reverse.mp hc)

/-- Blanks behind a text are kept by a cut at its beginning, unless nothing else is left. -/
theorem dropWhile_append_blank (h : Blank blanks) (cs : List Char) :
    (cs ++ blanks).dropWhile isBlank = if cs.dropWhile isBlank = [] then []
      else cs.dropWhile isBlank ++ blanks := by
  rw [List.dropWhile_append]
  by_cases hnil : cs.dropWhile isBlank = []
  · have hblanks : blanks.dropWhile isBlank = [] := List.dropWhile_eq_nil_iff.mpr h
    simp [hnil, hblanks]
  · simp [hnil]

theorem trim_blank_append (h : Blank blanks) (cs : List Char) : trim (blanks ++ cs) = trim cs := by
  rw [trim_eq, dropWhile_blank_append h]
  rfl

theorem trim_append_blank (h : Blank blanks) (cs : List Char) : trim (cs ++ blanks) = trim cs := by
  rw [trim_eq, dropWhile_append_blank h, trim_eq]
  by_cases hnil : cs.dropWhile isBlank = []
  · simp [hnil]
  · rw [if_neg hnil, rdropWhile_append_blank h]

/-- What is cut off at the beginning is blank. -/
theorem trim_dropWhile (cs : List Char) : trim (cs.dropWhile isBlank) = trim cs := by
  have hblank : Blank (cs.takeWhile isBlank) := fun c hc => List.mem_takeWhile_imp hc
  rw [← trim_blank_append hblank, List.takeWhile_append_dropWhile]

/-- What is cut off at the end is blank. -/
theorem trim_rdropWhile (cs : List Char) : trim (cs.rdropWhile isBlank) = trim cs := by
  have hblank : Blank (cs.rtakeWhile isBlank) := fun c hc => List.mem_rtakeWhile_imp hc
  rw [← trim_append_blank hblank, List.rdropWhile_append_rtakeWhile]

/-- A cut at the beginning ends at a character that is not blank. -/
theorem dropWhile_append_cons (h : isBlank c = false) (before after : List Char) :
    (before ++ c :: after).dropWhile isBlank = before.dropWhile isBlank ++ c :: after := by
  rw [List.dropWhile_append]
  by_cases hnil : before.dropWhile isBlank = []
  · simp [hnil, h]
  · simp [hnil]

/-- So does a cut at the end. -/
theorem rdropWhile_append_cons (h : isBlank c = false) (before after : List Char) :
    (before ++ c :: after).rdropWhile isBlank = before ++ c :: after.rdropWhile isBlank := by
  have hreverse : (before ++ c :: after).reverse = after.reverse ++ c :: before.reverse := by simp
  unfold List.rdropWhile
  rw [hreverse, dropWhile_append_cons h]
  simp

theorem trim_append_cons (h : isBlank c = false) (before after : List Char) :
    trim (before ++ c :: after) =
      before.dropWhile isBlank ++ c :: after.rdropWhile isBlank := by
  rw [trim_eq, dropWhile_append_cons h, rdropWhile_append_cons h]

/-- The first comma ends the first field. -/
theorem splitComma?_fields {first : List Char} (h : ',' ∉ first) (rest : List Char) :
    splitComma? (first ++ ',' :: rest) = some (first, rest) := by
  have hfirst : ∀ c ∈ first, (c != ',') = true := by
    intro c hc
    rw [bne_iff_ne]
    exact fun heq => h (heq ▸ hc)
  unfold splitComma?
  rw [List.dropWhile_append_of_pos hfirst, List.takeWhile_append_of_pos hfirst]
  simp

end Text

namespace Record

variable {lat lon blanks line line' : List Char}

theorem degrees_dropWhile (cs : List Char) :
    degrees (cs.dropWhile Text.isBlank) = degrees cs := by
  unfold degrees
  rw [Text.trim_dropWhile]

theorem degrees_rdropWhile (cs : List Char) :
    degrees (cs.rdropWhile Text.isBlank) = degrees cs := by
  unfold degrees
  rw [Text.trim_rdropWhile]

/-- A line that is not blank is a delimiter or a vertex. -/
theorem border?_of_trim {c : Char} {rest : List Char} (h : Text.trim line = c :: rest) :
    border? line =
      if c = '#' then some .delimiter else some (.vertex (position (c :: rest))) := by
  unfold border?
  rw [h]
  split
  · next hnil => cases hnil
  · next heq =>
    obtain ⟨rfl, -⟩ := List.cons.inj heq
    rfl
  · next hnot =>
    rw [if_neg]
    intro heq
    exact hnot rest (by rw [heq])

/-- A line with a comma is a vertex, unless a number sign comes first. -/
theorem border?_fields (h : ',' ∉ lat) (lon : List Char) :
    border? (lat ++ ',' :: lon) =
      if (lat.dropWhile Text.isBlank).head? = some '#' then some .delimiter
      else some (.vertex ⟨degrees lat, degrees lon⟩) := by
  have hcomma : Text.isBlank ',' = false := by decide
  have hfirst : ',' ∉ lat.dropWhile Text.isBlank :=
    fun hmem => h ((List.dropWhile_sublist _).mem hmem)
  have hposition : position (lat.dropWhile Text.isBlank ++ ',' :: lon.rdropWhile Text.isBlank) =
      ⟨degrees lat, degrees lon⟩ := by
    unfold position
    rw [Text.trim_append_cons hcomma, List.dropWhile_idempotent, List.rdropWhile_idempotent,
      Text.splitComma?_fields hfirst]
    simp only [degrees_dropWhile, degrees_rdropWhile]
  have htrim := Text.trim_append_cons hcomma lat lon
  cases hlat : lat.dropWhile Text.isBlank with
  | nil =>
    rw [hlat] at hposition htrim
    rw [List.nil_append] at hposition htrim
    rw [border?_of_trim htrim, hposition]
    simp
  | cons c rest =>
    rw [hlat] at hposition htrim
    rw [List.cons_append] at hposition htrim
    rw [border?_of_trim htrim, hposition]
    simp

/-! ### The same record -/

/-- A line is written in another way: with other blanks around it, with blanks around its
    numbers, or with another text behind a number sign that comes first. -/
inductive Respelled : List Char → List Char → Prop
  | around {line line' : List Char} (h : Text.trim line' = Text.trim line) :
      Respelled line line'
  | between {lat lon blanks blanks' : List Char} (field : ',' ∉ lat)
      (before : Text.Blank blanks) (after : Text.Blank blanks') :
      Respelled (lat ++ ',' :: lon) (lat ++ blanks ++ ',' :: (blanks' ++ lon))
  | remark {blanks text text' : List Char} (before : Text.Blank blanks) :
      Respelled (blanks ++ '#' :: text) (blanks ++ '#' :: text')

theorem border?_of_trim_eq (h : Text.trim line' = Text.trim line) :
    border? line' = border? line := by
  unfold border?
  rw [h]

/-- A blank line is no record. -/
theorem border?_of_blank (h : Text.Blank line) : border? line = none := by
  have htrim := Text.trim_append_blank h []
  rw [List.nil_append] at htrim
  exact border?_of_trim_eq htrim

theorem border?_remark (h : Text.Blank blanks) (text : List Char) :
    border? (blanks ++ '#' :: text) = some .delimiter := by
  have hsign : Text.isBlank '#' = false := by decide
  have hnil : blanks.dropWhile Text.isBlank = [] := List.dropWhile_eq_nil_iff.mpr h
  have htrim := Text.trim_append_cons hsign blanks text
  rw [hnil, List.nil_append] at htrim
  exact border?_of_trim htrim

theorem Respelled.border?_eq (h : Respelled line line') : border? line' = border? line := by
  cases h with
  | around htrim => exact border?_of_trim_eq htrim
  | between field before after =>
    next lat lon blanks blanks' =>
    have hcomma : ',' ∉ lat ++ blanks := by
      intro hmem
      rcases List.mem_append.mp hmem with hlat | hblanks
      · exact field hlat
      · exact absurd (before ',' hblanks) (by decide)
    have hlat : degrees (lat ++ blanks) = degrees lat := by
      unfold degrees
      rw [Text.trim_append_blank before]
    have hlon : degrees (blanks' ++ lon) = degrees lon := by
      unfold degrees
      rw [Text.trim_blank_append after]
    have hhead : ((lat ++ blanks).dropWhile Text.isBlank).head? =
        (lat.dropWhile Text.isBlank).head? := by
      rw [Text.dropWhile_append_blank before]
      by_cases hnil : lat.dropWhile Text.isBlank = []
      · simp [hnil]
      · rw [if_neg hnil, List.head?_append_of_ne_nil _ hnil]
    rw [border?_fields hcomma, border?_fields field, hhead, hlat, hlon]
  | remark before => rw [border?_remark before, border?_remark before]

end Record

/-! ### Line endings -/

namespace Text

section

variable {α : Type} [BEq α] [LawfulBEq α] {m : LineMarks α}

/-- A carriage return is dropped from the end of a line, if there is one. -/
theorem dropCarriage_concat (m : LineMarks α) (line : List α) :
    dropCarriage m (line ++ [m.carriage]) = line := by
  unfold dropCarriage
  simp

theorem dropCarriage_cases (m : LineMarks α) (line : List α) :
    dropCarriage m line = line ∨ line = dropCarriage m line ++ [m.carriage] := by
  unfold dropCarriage
  cases hlast : line.getLast? with
  | none => simp
  | some c =>
    by_cases hc : (c == m.carriage) = true
    · have hne : line ≠ [] := by
        intro hnil
        simp [hnil] at hlast
      rw [List.getLast?_eq_some_getLast hne] at hlast
      have hlast' : line.getLast hne = m.carriage := (Option.some.inj hlast).trans (eq_of_beq hc)
      simp only [hc, ↓reduceIte]
      refine Or.inr ?_
      rw [← hlast', List.dropLast_append_getLast]
    · simp [hc]

/-- A feed ends the first line. -/
theorem lines_append_feed {line : List α} (h : m.feed ∉ line) (rest : List α) :
    lines m (line ++ m.feed :: rest) = dropCarriage m line :: lines m rest := by
  have hline : ∀ c ∈ line, (c != m.feed) = true := by
    intro c hc
    rw [bne_iff_ne]
    exact fun heq => h (heq ▸ hc)
  have hdrop : (line ++ m.feed :: rest).dropWhile (· != m.feed) = m.feed :: rest := by
    rw [List.dropWhile_append_of_pos hline]
    simp
  have htake : (line ++ m.feed :: rest).takeWhile (· != m.feed) = line := by
    rw [List.takeWhile_append_of_pos hline]
    simp
  cases hcontent : line ++ m.feed :: rest with
  | nil => simp at hcontent
  | cons c tail =>
    rw [hcontent] at hdrop htake
    rw [lines]
    split
    · next hnil =>
      rw [hdrop] at hnil
      cases hnil
    · next hcons =>
      rw [hdrop] at hcons
      obtain ⟨-, rfl⟩ := List.cons.inj hcons
      rw [htake]

/-- One carriage return more before a feed is the end of one line, if it shows at all. -/
theorem lines_carriage (hmarks : m.carriage ≠ m.feed) (before after : List α) :
    ∃ (first : List (List α)) (line : List α),
      lines m (before ++ m.feed :: after) = first ++ dropCarriage m line :: lines m after ∧
      lines m (before ++ m.carriage :: m.feed :: after) = first ++ line :: lines m after := by
  -- by induction on the lines before the one that ends there
  induction hlength : before.length using Nat.strong_induction_on generalizing before with
  | _ n ih =>
    by_cases hmem : m.feed ∈ before
    · obtain ⟨line, rest, rfl, hline⟩ := List.eq_append_cons_of_mem hmem
      have hshorter : rest.length < n := by
        rw [← hlength]
        simp
        omega
      obtain ⟨first, last, hfeed, hcarriage⟩ := ih rest.length hshorter rest rfl
      refine ⟨dropCarriage m line :: first, last, ?_, ?_⟩
      · rw [List.append_assoc, List.cons_append, lines_append_feed hline, hfeed, List.cons_append]
      · rw [List.append_assoc, List.cons_append, lines_append_feed hline, hcarriage,
          List.cons_append]
    · have hcarriage : m.feed ∉ before ++ [m.carriage] := by
        simp [hmem, hmarks.symm]
      refine ⟨[], before, ?_, ?_⟩
      · rw [lines_append_feed hmem, List.nil_append]
      · rw [List.append_cons, lines_append_feed hcarriage, dropCarriage_concat, List.nil_append]

end

/-! ### Carriage returns in bytes -/

/-- What decodes to a text is the encoding of its characters. -/
theorem fromUTF8?_eq_some_iff {line : List UInt8} {s : String} :
    String.fromUTF8? ⟨line.toArray⟩ = some s ↔ line = s.toList.flatMap String.utf8EncodeChar := by
  have hbytes : (⟨line.toArray⟩ : ByteArray) = s.toByteArray ↔
      line = s.toList.flatMap String.utf8EncodeChar := by
    rw [← String.utf8Encode_toList, List.utf8Encode, ByteArray.ext_iff, List.data_toByteArray]
    simp
  rw [← hbytes]
  unfold String.fromUTF8?
  split
  · next h =>
    rw [Option.some.injEq, ← String.toByteArray_inj]
    rfl
  · next h =>
    constructor
    · intro hnone
      cases hnone
    · intro heq
      exact absurd (heq ▸ s.isValidUTF8) h

/-- No longer encoding ends in the byte of a carriage return. -/
theorem eq_carriage_of_getLast? {c : Char}
    (h : (String.utf8EncodeChar c).getLast? = some 13) : c = '\r' := by
  unfold String.utf8EncodeChar at h
  dsimp only at h
  have hvalue : c.val.toNat = 13 := by
    generalize c.val.toNat = n at h ⊢
    split_ifs at h <;> simp [← UInt8.toNat_inj] at h <;> omega
  exact Char.ext (UInt32.toNat_inj.mp hvalue)

/-- A carriage return behind a line is one character more, whether or not the line is text. -/
theorem fromUTF8?_carriage (line : List UInt8) :
    String.fromUTF8? ⟨(line ++ [13]).toArray⟩ =
      (String.fromUTF8? ⟨line.toArray⟩).map fun s => String.ofList (s.toList ++ ['\r']) := by
  have hreturn : String.utf8EncodeChar '\r' = [13] := by decide
  cases hline : String.fromUTF8? ⟨line.toArray⟩ with
  | some s =>
    rw [fromUTF8?_eq_some_iff] at hline
    rw [Option.map_some, fromUTF8?_eq_some_iff, hline]
    simp [hreturn]
  | none =>
    rw [Option.map_none, Option.eq_none_iff_forall_ne_some]
    intro s hs
    rw [fromUTF8?_eq_some_iff] at hs
    -- the last character ends in the carriage return, so it is one
    rcases List.eq_nil_or_concat s.toList with hnil | ⟨cs, c, hcs⟩
    · simp [hnil] at hs
    · rw [hcs, List.concat_eq_append, List.flatMap_append, List.flatMap_singleton] at hs
      have hlast : (String.utf8EncodeChar c).getLast? = some 13 := by
        rw [← List.getLast?_append_of_ne_nil _ String.utf8EncodeChar_ne_nil, ← hs,
          List.getLast?_concat]
      rw [eq_carriage_of_getLast? hlast, hreturn] at hs
      have hvalid : String.fromUTF8? ⟨line.toArray⟩ = some (String.ofList cs) := by
        rw [fromUTF8?_eq_some_iff, List.append_cancel_right hs, String.toList_ofList]
      rw [hvalid] at hline
      cases hline

end Text

end Airspace
