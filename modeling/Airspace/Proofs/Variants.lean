import Airspace.Proofs.Reordering
import Airspace.Proofs.Retracing
import Airspace.Proofs.Spelling
import Airspace.Proofs.Unpruned
import Mathlib.Logic.Relation

/-! # Variants of a border table

  Two contents of the border table may look different and hold the same borders: there are
  blank lines in one of them, its lines end or are spelled in another way, it has delimiters
  where no polygon is in progress or at its end, or it repeats a vertex, or the first vertex of
  a polygon at the end of the polygon. Each of these is a variation of one row or of one line
  ending, and two contents are variants of each other if a chain of variations leads from one to
  the other.

  If no vertex has a component that is not a number, no variation shows in the borders.
-/

namespace Airspace

open Border

/-! ### Variations of rows -/

/-- The border records of rows, of all that are text. -/
def recordsOf (rows : List (Option String)) : List BorderRecord :=
  rows.reduceOption.filterMap fun line => Record.border? line.toList

/-- Rows that end the polygon in progress: there are none, or the first is a delimiter. -/
def EndsPolygon (rows : List (Option String)) : Prop :=
  rows = [] ∨ ∃ line rest, rows = some line :: rest ∧
    Record.border? line.toList = some .delimiter

/-- One row more or another spelling of one, and nothing changes about the borders. -/
inductive VariedRows : List (Option String) → List (Option String) → Prop
  /-- A blank line. -/
  | blank {line : String} (first last : List (Option String)) (h : Text.Blank line.toList) :
      VariedRows (first ++ last) (first ++ some line :: last)
  /-- Another spelling of a line. -/
  | respelled {line line' : String} (first last : List (Option String))
      (h : Record.Respelled line.toList line'.toList) :
      VariedRows (first ++ some line :: last) (first ++ some line' :: last)
  /-- A delimiter where no polygon is in progress. -/
  | delimiter {line : String} {first : List (Option String)} (last : List (Option String))
      (h : Record.border? line.toList = some .delimiter)
      (idle : inProgress (recordsOf first) = []) :
      VariedRows (first ++ last) (first ++ some line :: last)
  /-- A delimiter at the end. -/
  | trailing {line : String} (rows : List (Option String))
      (h : Record.border? line.toList = some .delimiter) : VariedRows rows (rows ++ [some line])
  /-- A vertex that is the vertex before it. -/
  | again {line line' : String} {v : Position} (first last : List (Option String))
      (h : Record.border? line.toList = some (.vertex v))
      (h' : Record.border? line'.toList = some (.vertex v)) :
      VariedRows (first ++ some line :: last) (first ++ some line :: some line' :: last)
  /-- A vertex at the end of a polygon that is the first vertex of the polygon. -/
  | back {line : String} {v : Position} {first last : List (Option String)}
      (h : Record.border? line.toList = some (.vertex v))
      (begun : (inProgress (recordsOf first)).head? = some v) (ends : EndsPolygon last) :
      VariedRows (first ++ last) (first ++ some line :: last)

/-! ### Readings of rows -/

namespace Reading

variable {r r' r'' : Reading} {first last last' : List (Option String)} {line : String}

/-- Behind the first row that is not text nothing is read. -/
theorem ofRows_append_of_mem (h : none ∈ first) (last : List (Option String)) :
    ofRows (first ++ last) = ofRows first := by
  induction first with
  | nil => cases h
  | cons row rest ih =>
    cases row with
    | none => rfl
    | some s =>
      have hrest : none ∈ rest := by simpa using h
      rw [List.cons_append, ofRows, ofRows, ih hrest]

theorem fault_append (h : none ∉ first) (last : List (Option String)) :
    (ofRows (first ++ last)).fault = (ofRows last).fault := by
  simp [fault_ofRows, h]

theorem border_append (h : none ∉ first) (last : List (Option String)) :
    (ofRows (first ++ last)).border = recordsOf first ++ (ofRows last).border := by
  induction first with
  | nil => rfl
  | cons row rest ih =>
    cases row with
    | none => simp at h
    | some s =>
      have hrest : none ∉ rest := by simpa using h
      have hborder := ih hrest
      unfold border recordsOf at hborder ⊢
      rw [List.cons_append, ofRows, List.filterMap_cons, hborder, List.reduceOption_cons_of_some,
        List.filterMap_cons]
      cases Record.border? s.toList <;> rfl

theorem border_some (line : String) (rest : List (Option String)) :
    (ofRows (some line :: rest)).border =
      (Record.border? line.toList).toList ++ (ofRows rest).border := by
  unfold border
  rw [ofRows, List.filterMap_cons]
  cases Record.border? line.toList <;> rfl

theorem border_of_record {x : BorderRecord} (h : Record.border? line.toList = some x)
    (rest : List (Option String)) :
    (ofRows (some line :: rest)).border = x :: (ofRows rest).border := by
  rw [border_some, h]
  rfl

/-- Two readings have the same fault and the same vertices, and nothing tells their borders
    apart if all vertices are equal to themselves. -/
structure SameBorder (r r' : Reading) : Prop where
  fault_eq : r'.fault = r.fault
  mem_iff : ∀ v, .vertex v ∈ r'.border ↔ .vertex v ∈ r.border
  retraces : (∀ v, .vertex v ∈ r.border → (v == v) = true) →
    Border.Retraces r.fault.isSome r.border r'.border

namespace SameBorder

theorem refl (r : Reading) : r.SameBorder r := ⟨rfl, fun _ => Iff.rfl, fun _ => .refl _ _⟩

theorem symm (h : r.SameBorder r') : r'.SameBorder r := by
  refine ⟨h.fault_eq.symm, fun v => (h.mem_iff v).symm, ?_⟩
  intro hself
  rw [h.fault_eq]
  exact (h.retraces fun v hv => hself v ((h.mem_iff v).mpr hv)).symm

theorem trans (h : r.SameBorder r') (h' : r'.SameBorder r'') : r.SameBorder r'' := by
  refine ⟨h'.fault_eq.trans h.fault_eq, fun v => (h'.mem_iff v).trans (h.mem_iff v), ?_⟩
  intro hself
  have hnext := h'.retraces fun v hv => hself v ((h.mem_iff v).mp hv)
  rw [h.fault_eq] at hnext
  exact (h.retraces hself).trans hnext

/-- What differs behind the same rows. -/
theorem of_tail (hfault : (ofRows last').fault = (ofRows last).fault)
    (hmem : ∀ v, .vertex v ∈ recordsOf first ++ (ofRows last').border ↔
      .vertex v ∈ recordsOf first ++ (ofRows last).border)
    (hretraces : (∀ v, .vertex v ∈ recordsOf first ++ (ofRows last).border → (v == v) = true) →
      Border.Retraces (ofRows last).fault.isSome (recordsOf first ++ (ofRows last).border)
        (recordsOf first ++ (ofRows last').border)) :
    (ofRows (first ++ last)).SameBorder (ofRows (first ++ last')) := by
  by_cases hnone : none ∈ first
  · rw [ofRows_append_of_mem hnone, ofRows_append_of_mem hnone]
    exact refl _
  · rw [← border_append hnone, ← border_append hnone] at hmem hretraces
    rw [← fault_append hnone last] at hretraces
    refine ⟨?_, hmem, hretraces⟩
    rw [fault_append hnone, fault_append hnone, hfault]

/-- The same records behind the same rows. -/
theorem of_border_eq (hfault : (ofRows last').fault = (ofRows last).fault)
    (hborder : (ofRows last').border = (ofRows last).border) :
    (ofRows (first ++ last)).SameBorder (ofRows (first ++ last')) := by
  apply of_tail hfault
  · intro v
    rw [hborder]
  · intro _
    rw [hborder]
    exact .refl _ _

end SameBorder

/-- No variation shows in the borders. -/
theorem sameBorder_of_variedRows {rows rows' : List (Option String)} (h : VariedRows rows rows') :
    (ofRows rows).SameBorder (ofRows rows') := by
  cases h with
  | blank first last h =>
    apply SameBorder.of_border_eq
    · rfl
    · rw [border_some, Record.border?_of_blank h]
      rfl
  | respelled first last h =>
    apply SameBorder.of_border_eq
    · rfl
    · rw [border_some, border_some, h.border?_eq]
  | delimiter last h idle =>
    apply SameBorder.of_tail
    · rfl
    · intro v
      rw [border_of_record h]
      simp
    · intro _
      rw [border_of_record h]
      exact .delimiter idle _ _
  | trailing _ h =>
    next line =>
    have hends : (ofRows (rows ++ [])).SameBorder (ofRows (rows ++ [some line])) := by
      apply SameBorder.of_tail
      · rfl
      · intro v
        rw [border_of_record h]
        simp
      · intro _
        rw [border_of_record h]
        exact (List.append_nil (recordsOf rows)).symm ▸ .delimiter_end _
    rwa [List.append_nil] at hends
  | again first last h h' =>
    next line line' v =>
    have honce := border_of_record h last
    have htwice := border_of_record h (some line' :: last)
    rw [border_of_record h'] at htwice
    apply SameBorder.of_tail
    · rfl
    · intro u
      rw [honce, htwice]
      simp
    · intro hself
      rw [honce] at hself ⊢
      rw [htwice]
      exact .again (hself v (by simp)) _ _ _
  | back h begun ends =>
    next line v first last =>
    have hbegun : .vertex v ∈ recordsOf first :=
      mem_of_mem_inProgress (List.mem_of_mem_head? begun)
    apply SameBorder.of_tail
    · rfl
    · intro u
      rw [border_of_record h]
      grind
    · intro hself
      have hv : (v == v) = true := hself v (List.mem_append_left _ hbegun)
      rw [border_of_record h]
      rcases ends with rfl | ⟨mark, rest, rfl, hmark⟩
      · exact (List.append_nil (recordsOf first)).symm ▸ .back_end hv begun
      · rw [border_of_record hmark]
        exact .back hv begun _ _

end Reading

/-! ### Variations of a content -/

namespace Content

variable {content content' content'' : Content}

/-- One variation of the rows, or one carriage return more at the end of a line. -/
inductive Varied : Content → Content → Prop
  /-- The rows vary. -/
  | rows {content content' : Content} {rows rows' : List (Option String)}
      (h : content.rows? = some rows) (h' : content'.rows? = some rows')
      (varied : VariedRows rows rows') : Varied content content'
  /-- The end of a line of text varies. -/
  | ending (before after : List Char) :
      Varied (.text (String.ofList (before ++ '\n' :: after)))
        (.text (String.ofList (before ++ '\r' :: '\n' :: after)))
  /-- The end of a line of bytes varies. -/
  | endingBytes (before after : List UInt8) :
      Varied (.bytes (before ++ 10 :: after)) (.bytes (before ++ 13 :: 10 :: after))

/-- Two contents that a chain of variations connects. -/
def Redrawn : Content → Content → Prop := Relation.EqvGen Varied

/-- The readings of two contents have the same border. -/
def SameBorder (content content' : Content) : Prop :=
  ∃ rows rows', content.rows? = some rows ∧ content'.rows? = some rows' ∧
    (Reading.ofRows rows).SameBorder (.ofRows rows')

theorem SameBorder.symm (h : content.SameBorder content') : content'.SameBorder content := by
  obtain ⟨rows, rows', hrows, hrows', hsame⟩ := h
  exact ⟨rows', rows, hrows', hrows, hsame.symm⟩

theorem SameBorder.trans (h : content.SameBorder content') (h' : content'.SameBorder content'') :
    content.SameBorder content'' := by
  obtain ⟨rows, _, hrows, hmiddle, hsame⟩ := h
  obtain ⟨_, rows'', hmiddle', hrows'', hsame'⟩ := h'
  obtain rfl := Option.some.inj (hmiddle.symm.trans hmiddle')
  exact ⟨rows, rows'', hrows, hrows'', hsame.trans hsame'⟩

/-- One carriage return more before a feed does not show in the borders, if each line is
    decoded as text, and what it ends in as a carriage return. -/
theorem sameBorder_carriage {α : Type} [BEq α] [LawfulBEq α] {m : Text.LineMarks α}
    (hmarks : m.carriage ≠ m.feed) {row : List α → Option String}
    (hrow : ∀ line, row (line ++ [m.carriage]) =
      (row line).map fun s => String.ofList (s.toList ++ ['\r'])) (before after : List α) :
    (Reading.ofRows ((Text.lines m (before ++ m.feed :: after)).map row)).SameBorder
      (.ofRows ((Text.lines m (before ++ m.carriage :: m.feed :: after)).map row)) := by
  obtain ⟨first, line, hfeed, hcarriage⟩ := Text.lines_carriage hmarks before after
  rw [hfeed, hcarriage, List.map_append, List.map_append, List.map_cons, List.map_cons]
  rcases Text.dropCarriage_cases m line with hnone | hreturn
  · rw [hnone]
    exact .refl _
  · have hmore := hrow (Text.dropCarriage m line)
    rw [← hreturn] at hmore
    rw [hmore]
    cases row (Text.dropCarriage m line) with
    | none => exact .refl _
    | some s =>
      -- the line keeps a carriage return, which is blank
      apply Reading.sameBorder_of_variedRows
      apply VariedRows.respelled
      apply Record.Respelled.around
      rw [String.toList_ofList]
      apply Text.trim_append_blank
      intro c hc
      obtain rfl := List.mem_singleton.mp hc
      decide

/-- No variation shows in the borders. -/
theorem Varied.sameBorder (h : content.Varied content') : content.SameBorder content' := by
  cases h with
  | rows h h' varied => exact ⟨_, _, h, h', Reading.sameBorder_of_variedRows varied⟩
  | ending before after =>
    refine ⟨_, _, rfl, rfl, ?_⟩
    rw [String.toList_ofList, String.toList_ofList]
    apply sameBorder_carriage (m := .ofChars) (by decide)
    intro line
    rw [Option.map_some, String.toList_ofList]
    rfl
  | endingBytes before after =>
    refine ⟨_, _, rfl, rfl, ?_⟩
    exact sameBorder_carriage (m := .ofBytes) (by decide) Text.fromUTF8?_carriage before after

/-- No chain of variations does. -/
theorem Redrawn.sameBorder (h : content.Redrawn content') :
    content' = content ∨ content.SameBorder content' := by
  induction h with
  | rel _ _ h => exact Or.inr h.sameBorder
  | refl _ => exact Or.inl rfl
  | symm _ _ _ ih =>
    rcases ih with rfl | hsame
    · exact Or.inl rfl
    · exact Or.inr hsame.symm
  | trans _ _ _ _ _ ih ih' =>
    rcases ih with rfl | hsame
    · exact ih'
    · rcases ih' with rfl | hsame'
      · exact Or.inr hsame
      · exact Or.inr (hsame.trans hsame')

end Content

/-! ### Variants of a volume -/

namespace Volume

variable {v v' : Volume} {t : Table}

/-- Two volumes are the same but for the border table. That is there in two variants, of which
    neither is empty, and no vertex has a component that is not a number. -/
structure Redrawn (v v' : Volume) : Prop where
  mounted_eq : v'.mounted = v.mounted
  others : ∀ t, t ≠ .countries → v'.table t = v.table t
  borders : v'.table .countries = v.table .countries ∨
    ∃ content content', v.table .countries = some content ∧
      v'.table .countries = some content' ∧ content.Redrawn content' ∧
      content.rows? ≠ some [] ∧ content'.rows? ≠ some [] ∧
      ∀ p, .vertex p ∈ v.border → p.lat.isNaN = false ∧ p.lon.isNaN = false

theorem Redrawn.read_eq (h : v.Redrawn v') (hother : t ≠ .countries) : v'.read t = v.read t :=
  read_eq_of_table_eq h.mounted_eq (h.others t hother)

/-- The border tables open both or neither, and their readings have the same border. -/
theorem Redrawn.read_borders (h : v.Redrawn v') :
    v'.read .countries = v.read .countries ∨
      ∃ r r', v.read .countries = .ok r ∧ v'.read .countries = .ok r' ∧ r.SameBorder r' ∧
        ∀ p, .vertex p ∈ r.border → (p == p) = true := by
  rcases h.borders with
    hsame | ⟨content, content', htable, htable', hredrawn, hrows, hrows', hnumbers⟩
  · exact Or.inl (read_eq_of_table_eq h.mounted_eq hsame)
  · cases hmounted : v.mounted with
    | false =>
      left
      unfold read
      rw [h.mounted_eq, hmounted]
      rfl
    | true =>
      rcases hredrawn.sameBorder with rfl | ⟨rows, rows', hread, hread', hborder⟩
      · exact Or.inl (read_eq_of_table_eq h.mounted_eq (htable'.trans htable.symm))
      · have hopen : v.read .countries = .ok (.ofRows rows) := by
          rw [read_of_rows hmounted htable hread, if_neg]
          rintro rfl
          exact hrows hread
        have hopen' : v'.read .countries = .ok (.ofRows rows') := by
          rw [read_of_rows (h.mounted_eq.trans hmounted) htable' hread', if_neg]
          rintro rfl
          exact hrows' hread'
        refine Or.inr ⟨_, _, hopen, hopen', hborder, ?_⟩
        intro p hp
        exact beq_self_of_not_nan (hnumbers p (border_eq hopen ▸ hp))

/-- The border tables break off both or neither. -/
theorem Redrawn.fault?_eq (h : v.Redrawn v') : v'.fault? .countries = v.fault? .countries := by
  unfold fault?
  rcases h.read_borders with hsame | ⟨r, r', hopen, hopen', hborder, -⟩
  · rw [hsame]
  · rw [hopen, hopen']
    exact congrArg (Option.map _) hborder.fault_eq

/-- Nothing tells their borders apart. -/
theorem Redrawn.retraces (h : v.Redrawn v') :
    Retraces (v.fault? .countries).isSome v.border v'.border := by
  rcases h.read_borders with hsame | ⟨r, r', hopen, hopen', hborder, hself⟩
  · have heq : v'.border = v.border := by
      unfold border
      rw [hsame]
    rw [heq]
    exact .refl _ _
  · rw [border_eq hopen, border_eq hopen', (of_read hopen).2, Option.isSome_map]
    exact hborder.retraces hself

end Volume

end Airspace
