import Airspace.Proofs.Spelling

/-! # Fields of a record

  The lines of all tables are fields with commas between them, and they are split one comma
  at a time. So an airport is a category and behind it a position as it stands in the other
  tables, with the same tolerance: what has too few fields or an unknown category is the
  reserved point, blanks around a field do not count, and a field too many belongs to the
  longitude, which cannot be read then and is zero.
-/

namespace Airspace

/-! ### Commas -/

namespace Text

variable {cs : List Char}

theorem splitComma?_of_not_mem (h : ',' ∉ cs) : splitComma? cs = none := by
  have hall : ∀ c ∈ cs, (c != ',') = true := by
    intro c hc
    rw [bne_iff_ne]
    exact fun heq => h (heq ▸ hc)
  unfold splitComma?
  rw [List.dropWhile_eq_nil_iff.mpr hall]

/-- No comma is cut off. -/
theorem comma_mem_trim : ',' ∈ trim cs ↔ ',' ∈ cs := by
  constructor
  · intro hmem
    rw [trim_eq] at hmem
    exact (List.dropWhile_sublist _).mem ((List.rdropWhile_prefix _ _).mem hmem)
  · intro hmem
    obtain ⟨before, after, rfl⟩ := List.append_of_mem hmem
    rw [trim_append_cons (by decide)]
    simp

/-- What ends a scan is left by it. -/
theorem mem_dropWhile {c : Char} {p : Char → Bool} (h : c ∈ cs) (hc : p c = false) :
    c ∈ cs.dropWhile p := by
  rw [← List.takeWhile_append_dropWhile (p := p) (l := cs)] at h
  rcases List.mem_append.mp h with hbefore | hafter
  · rw [List.mem_takeWhile_imp hbefore] at hc
    cases hc
  · exact hafter

end Text

/-! ### Numbers -/

namespace Number

variable {cs : List Char}

theorem not_all_isDigit (h : ',' ∈ cs) : cs.all Char.isDigit = false := by
  rw [List.all_eq_false]
  exact ⟨',', h, by decide⟩

theorem scanPower?_of_comma (h : ',' ∈ cs) : scanPower? cs = none := by
  unfold scanPower?
  split
  · next negative ds hsign =>
    -- a sign is no comma
    have hds : ',' ∈ ds := by
      split at hsign <;> obtain ⟨-, rfl⟩ := Prod.mk.inj hsign <;> simpa using h
    rw [not_all_isDigit hds]
    simp

theorem scan?_of_comma (h : ',' ∈ cs) : Numeral.scan? cs = none := by
  unfold Numeral.scan?
  extract_lets whole remainder
  have hremainder : ',' ∈ remainder := Text.mem_dropWhile h (by decide)
  clear_value whole remainder
  split
  · next fraction rest hpoint =>
    -- the comma is behind the point, if there is one
    have hbehind : ',' ∈ rest := by
      split at hpoint
      · next tail =>
        obtain ⟨-, rfl⟩ := Prod.mk.inj hpoint
        exact Text.mem_dropWhile (by simpa using hremainder) (by decide)
      · obtain ⟨-, rfl⟩ := Prod.mk.inj hpoint
        exact hremainder
    split
    · cases hbehind
    · next c tail =>
      by_cases hletter : (c == 'e' || c == 'E') = true
      · have htail : ',' ∈ tail := by
          rcases List.mem_cons.mp hbehind with rfl | htail
          · exact absurd hletter (by decide)
          · exact htail
        rw [if_pos hletter, scanPower?_of_comma htail]
        rfl
      · exact if_neg hletter

/-- No number is written with a comma. -/
theorem readFloat?_of_comma (h : ',' ∈ cs) : readFloat? cs = none := by
  unfold readFloat?
  split
  · next negative body hsign =>
    have hbody : ',' ∈ body := by
      split at hsign <;> obtain ⟨-, rfl⟩ := Prod.mk.inj hsign <;> simpa using h
    have hword : ∀ word : String, ',' ∉ word.toList →
        (String.ofList (body.map Char.toLower) == word) = false := by
      intro word hnot
      rw [beq_eq_false_iff_ne]
      rintro rfl
      rw [String.toList_ofList] at hnot
      exact hnot (List.mem_map_of_mem (f := Char.toLower) hbody)
    dsimp only
    rw [hword "inf" (by decide), hword "infinity" (by decide), hword "nan" (by decide)]
    unfold readUnsigned?
    rw [scan?_of_comma hbody]
    rfl

/-- A text is the unsigned integer `n`: digits, with a plus sign before them at will. -/
def Unsigned (cs : List Char) (n : Nat) : Prop :=
  ∃ ds, (cs = ds ∨ cs = '+' :: ds) ∧ ds ≠ [] ∧ (∀ d ∈ ds, d.isDigit = true) ∧ digitsValue ds = n

theorem unsigned_plus {ds : List Char} {n : Nat} : Unsigned ('+' :: ds) n ↔
    ds ≠ [] ∧ (∀ d ∈ ds, d.isDigit = true) ∧ digitsValue ds = n := by
  constructor
  · rintro ⟨ds', rfl | hsign, hne, hdigits, hvalue⟩
    · -- a plus sign is no digit
      exact absurd (hdigits '+' List.mem_cons_self) (by decide)
    · obtain ⟨-, rfl⟩ := List.cons.inj hsign
      exact ⟨hne, hdigits, hvalue⟩
  · exact fun h => ⟨ds, .inr rfl, h⟩

theorem unsigned_digits {n : Nat} (h : ∀ ds, cs ≠ '+' :: ds) : Unsigned cs n ↔
    cs ≠ [] ∧ (∀ d ∈ cs, d.isDigit = true) ∧ digitsValue cs = n := by
  constructor
  · rintro ⟨ds, rfl | hsign, hall⟩
    · exact hall
    · exact absurd hsign (h ds)
  · exact fun h => ⟨cs, .inl rfl, h⟩

/-- The unsigned integers below the bound are read, and nothing else. -/
theorem readNat?_eq_some_iff {bound n : Nat} :
    readNat? bound cs = some n ↔ Unsigned cs n ∧ n < bound := by
  have hread : ∀ ds : List Char, (if ds.isEmpty || !ds.all Char.isDigit then none
      else if digitsValue ds < bound then some (digitsValue ds) else none) = some n ↔
        (ds ≠ [] ∧ (∀ d ∈ ds, d.isDigit = true) ∧ digitsValue ds = n) ∧ n < bound := by
    intro ds
    by_cases hds : ds ≠ [] ∧ ∀ d ∈ ds, d.isDigit = true
    · have hnot : (ds.isEmpty || !ds.all Char.isDigit) = false := by simpa using hds
      rw [hnot, if_neg Bool.false_ne_true]
      constructor
      · intro hsome
        split at hsome
        · next hlt => exact Option.some.inj hsome ▸ ⟨⟨hds.1, hds.2, rfl⟩, hlt⟩
        · cases hsome
      · rintro ⟨⟨-, -, rfl⟩, hlt⟩
        exact if_pos hlt
    · have hrefused : (ds.isEmpty || !ds.all Char.isDigit) = true := by
        by_contra hnot
        exact hds (by simpa using hnot)
      rw [if_pos hrefused]
      constructor
      · intro hnone
        cases hnone
      · rintro ⟨⟨hne, hdigits, -⟩, -⟩
        exact absurd ⟨hne, hdigits⟩ hds
  unfold readNat?
  split
  · next rest => exact (hread rest).trans (and_congr_left' unsigned_plus.symm)
  · next hnot => exact (hread cs).trans (and_congr_left' (unsigned_digits hnot).symm)

end Number

namespace AirportCategory

variable {k : AirportCategory} {cs : List Char}

theorem ofIndex?_eq_some_iff {n : Nat} : ofIndex? n = some k ↔ n = k.index := by
  have hlist : ∀ i : Fin all.length, i.val = all[i].index := by decide
  constructor
  · intro h
    obtain ⟨hn, rfl⟩ := List.getElem?_eq_some_iff.mp h
    exact hlist ⟨n, hn⟩
  · rintro rfl
    cases k <;> rfl

/-- A text names a category if it is the category's index, but for blanks around it. -/
def NamedBy (k : AirportCategory) (cs : List Char) : Prop :=
  Number.Unsigned (Text.trim cs) k.index

theorem ofText?_eq_some_iff : ofText? cs = some k ↔ k.NamedBy cs := by
  have hbyte : k.index < 256 := by cases k <;> decide
  unfold ofText? NamedBy
  simp only [Option.bind_eq_some_iff, Number.readNat?_eq_some_iff, ofIndex?_eq_some_iff]
  constructor
  · rintro ⟨n, ⟨hn, -⟩, rfl⟩
    exact hn
  · exact fun h => ⟨_, ⟨h, hbyte⟩, rfl⟩

end AirportCategory

namespace Record

variable {line first lat lon rest : List Char}

theorem degrees_of_comma (h : ',' ∈ line) : degrees line = 0.0 := by
  unfold degrees
  rw [Number.readFloat?_of_comma (Text.comma_mem_trim.mpr h), Option.getD_none]

/-! ### Fields from the left -/

theorem position_of_not_mem (h : ',' ∉ line) : position line = .null := by
  unfold position
  rw [Text.splitComma?_of_not_mem fun hmem => h (Text.comma_mem_trim.mp hmem)]

theorem airport_of_not_mem (h : ',' ∉ line) : airport line = .null := by
  unfold airport
  rw [Text.splitComma?_of_not_mem fun hmem => h (Text.comma_mem_trim.mp hmem)]

/-- The first comma of a trimmed line is that of the line. -/
theorem splitComma?_trim (h : ',' ∉ first) (rest : List Char) :
    Text.splitComma? (Text.trim (first ++ ',' :: rest)) =
      some (first.dropWhile Text.isBlank, rest.rdropWhile Text.isBlank) := by
  rw [Text.trim_append_cons (by decide),
    Text.splitComma?_fields fun hmem => h ((List.dropWhile_sublist _).mem hmem)]

/-- A position is its first field and all that is behind the comma. -/
theorem position_fields (h : ',' ∉ lat) (lon : List Char) :
    position (lat ++ ',' :: lon) = ⟨degrees lat, degrees lon⟩ := by
  unfold position
  rw [splitComma?_trim h]
  simp only [degrees_dropWhile, degrees_rdropWhile]

/-- An airport is a category and a position, unless the category has no name or there are no
    two fields for the position. -/
theorem airport_fields (h : ',' ∉ first) (rest : List Char) :
    airport (first ++ ',' :: rest) = match AirportCategory.ofText? first with
      | none => .null
      | some k => ⟨if ',' ∈ rest then k else .largeAirport, position rest⟩ := by
  have hcategory : AirportCategory.ofText? (first.dropWhile Text.isBlank) =
      AirportCategory.ofText? first := by
    unfold AirportCategory.ofText?
    rw [Text.trim_dropWhile]
  unfold airport
  rw [splitComma?_trim h]
  dsimp only
  rw [hcategory]
  by_cases hcomma : ',' ∈ rest
  · obtain ⟨lat, lon, rfl, hlat⟩ := List.eq_append_cons_of_mem hcomma
    rw [Text.rdropWhile_append_cons (by decide), Text.splitComma?_fields hlat,
      position_fields hlat]
    cases AirportCategory.ofText? first with
    | none => rfl
    | some k => simp only [degrees_rdropWhile, hcomma, if_true]
  · have hrest : ',' ∉ rest.rdropWhile Text.isBlank :=
      fun hmem => hcomma ((List.rdropWhile_prefix _ _).mem hmem)
    rw [Text.splitComma?_of_not_mem hrest, position_of_not_mem hcomma]
    cases AirportCategory.ofText? first with
    | none => rfl
    | some k =>
      show Airport.null = ⟨if ',' ∈ rest then k else .largeAirport, .null⟩
      rw [if_neg hcomma]
      rfl

/-! ### Blanks around fields -/

/-- A field with blanks around it. -/
def Padded (field field' : List Char) : Prop :=
  ∃ before after, Text.Blank before ∧ Text.Blank after ∧ field' = before ++ field ++ after

/-- The fields of a line, with commas between them. -/
def joinFields (fields : List (List Char)) : List Char := [','].intercalate fields

theorem Padded.trim_eq {field field' : List Char} (h : Padded field field') :
    Text.trim field' = Text.trim field := by
  obtain ⟨before, after, hbefore, hafter, rfl⟩ := h
  rw [Text.trim_append_blank hafter, Text.trim_blank_append hbefore]

theorem Padded.comma_mem {field field' : List Char} (h : Padded field field') :
    ',' ∈ field' ↔ ',' ∈ field := by
  rw [← Text.comma_mem_trim, h.trim_eq, Text.comma_mem_trim]

theorem Padded.degrees_eq {field field' : List Char} (h : Padded field field') :
    degrees field' = degrees field := by
  unfold degrees
  rw [h.trim_eq]

theorem position_of_trim_eq {line line' : List Char} (h : Text.trim line' = Text.trim line) :
    position line' = position line := by
  unfold position
  rw [h]

theorem airport_of_trim_eq {line line' : List Char} (h : Text.trim line' = Text.trim line) :
    airport line' = airport line := by
  unfold airport
  rw [h]

theorem joinFields_cons_cons (field next : List Char) (fields : List (List Char)) :
    joinFields (field :: next :: fields) = field ++ ',' :: joinFields (next :: fields) := by
  unfold joinFields
  rw [List.intercalate_cons_cons, List.append_assoc, List.singleton_append]

theorem joinFields_singleton (field : List Char) : joinFields [field] = field :=
  List.intercalate_singleton

section

variable {fields fields' : List (List Char)}

theorem comma_mem_joinFields (h : List.Forall₂ Padded fields fields') :
    ',' ∈ joinFields fields' ↔ ',' ∈ joinFields fields := by
  cases h with
  | nil => rfl
  | cons hfield hfields =>
    cases hfields with
    | nil => rw [joinFields_singleton, joinFields_singleton, hfield.comma_mem]
    | cons => simp [joinFields_cons_cons]

/-- Where a number is expected, further fields make it unreadable, with blanks or without. -/
theorem degrees_joinFields (h : List.Forall₂ Padded fields fields') :
    degrees (joinFields fields') = degrees (joinFields fields) := by
  cases h with
  | nil => rfl
  | cons hfield hfields =>
    cases hfields with
    | nil => rw [joinFields_singleton, joinFields_singleton, hfield.degrees_eq]
    | cons =>
      have hcomma : ∀ field next rest, degrees (joinFields (field :: next :: rest)) = 0.0 := by
        intro field next rest
        apply degrees_of_comma
        simp [joinFields_cons_cons]
      rw [hcomma, hcomma]

theorem position_joinFields (h : List.Forall₂ Padded fields fields')
    (hfields : ∀ field ∈ fields, ',' ∉ field) :
    position (joinFields fields') = position (joinFields fields) := by
  cases h with
  | nil => rfl
  | @cons field field' rest rest' hfield hrest =>
    have hfirst : ',' ∉ field := hfields field List.mem_cons_self
    have hfirst' : ',' ∉ field' := fun hmem => hfirst (hfield.comma_mem.mp hmem)
    have hbehind := degrees_joinFields hrest
    cases hrest with
    | nil =>
      rw [joinFields_singleton, joinFields_singleton, position_of_not_mem hfirst,
        position_of_not_mem hfirst']
    | cons =>
      rw [joinFields_cons_cons, joinFields_cons_cons, position_fields hfirst,
        position_fields hfirst', hfield.degrees_eq, hbehind]

theorem airport_joinFields (h : List.Forall₂ Padded fields fields')
    (hfields : ∀ field ∈ fields, ',' ∉ field) :
    airport (joinFields fields') = airport (joinFields fields) := by
  cases h with
  | nil => rfl
  | @cons field field' rest rest' hfield hrest =>
    have hfirst : ',' ∉ field := hfields field List.mem_cons_self
    have hfirst' : ',' ∉ field' := fun hmem => hfirst (hfield.comma_mem.mp hmem)
    have hcomma := comma_mem_joinFields hrest
    have hposition := position_joinFields hrest fun f hf => hfields f (List.mem_cons_of_mem _ hf)
    cases hrest with
    | nil =>
      rw [joinFields_singleton, joinFields_singleton, airport_of_not_mem hfirst,
        airport_of_not_mem hfirst']
    | cons =>
      have hcategory : AirportCategory.ofText? field' = AirportCategory.ofText? field := by
        unfold AirportCategory.ofText?
        rw [hfield.trim_eq]
      rw [joinFields_cons_cons, joinFields_cons_cons, airport_fields hfirst,
        airport_fields hfirst', hcategory, hposition]
      simp only [hcomma]

end

/-- An airport is a category and a position as other tables have it. If the first field names
    a category, the position is that of the rest, and the category counts if there are two
    fields in the rest; otherwise, and without any comma, the line stands for no airport.
    Blanks around the line and around its fields change neither kind of record. Fields too
    many leave the others alone, but the longitude is zero. -/
theorem airport_agrees :
    (∀ first rest : List Char, ',' ∉ first →
        (∀ k : AirportCategory, k.NamedBy first → airport (first ++ ',' :: rest) =
          ⟨if ',' ∈ rest then k else .largeAirport, position rest⟩) ∧
        ((∀ k : AirportCategory, ¬ k.NamedBy first) → airport (first ++ ',' :: rest) = .null)) ∧
      (∀ line : List Char, ',' ∉ line → airport line = .null ∧ position line = .null) ∧
      (∀ (fields fields' : List (List Char)) (before after : List Char),
        (∀ field ∈ fields, ',' ∉ field) → List.Forall₂ Padded fields fields' →
        Text.Blank before → Text.Blank after →
          airport (before ++ joinFields fields' ++ after) = airport (joinFields fields) ∧
          position (before ++ joinFields fields' ++ after) = position (joinFields fields)) ∧
      ∀ first lat lon more : List Char, ',' ∉ first → ',' ∉ lat → ',' ∉ lon →
        (airport (joinFields [first, lat, lon, more]) =
          let a := airport (joinFields [first, lat, lon])
          { a with position := { a.position with lon := 0.0 } }) ∧
        position (joinFields [lat, lon, more]) =
          { position (joinFields [lat, lon]) with lon := 0.0 } := by
  refine ⟨?_, ?_, ?_, ?_⟩
  · intro first rest hfirst
    rw [airport_fields hfirst]
    constructor
    · intro k hk
      rw [AirportCategory.ofText?_eq_some_iff.mpr hk]
    · intro hnone
      cases htext : AirportCategory.ofText? first with
      | none => rfl
      | some k => exact absurd (AirportCategory.ofText?_eq_some_iff.mp htext) (hnone k)
  · exact fun line hline => ⟨airport_of_not_mem hline, position_of_not_mem hline⟩
  · intro fields fields' before after hfields hpadded hbefore hafter
    have htrim : Text.trim (before ++ joinFields fields' ++ after) =
        Text.trim (joinFields fields') := by
      rw [Text.trim_append_blank hafter, Text.trim_blank_append hbefore]
    rw [airport_of_trim_eq htrim, position_of_trim_eq htrim]
    exact ⟨airport_joinFields hpadded hfields, position_joinFields hpadded hfields⟩
  · intro first lat lon more hfirst hlat hlon
    have hposition : position (joinFields [lat, lon, more]) =
        { position (joinFields [lat, lon]) with lon := 0.0 } := by
      have hcomma : ',' ∈ joinFields [lon, more] := by simp [joinFields_cons_cons]
      rw [joinFields_cons_cons, joinFields_cons_cons lat, position_fields hlat,
        position_fields hlat, degrees_of_comma hcomma]
    refine ⟨?_, hposition⟩
    have hmore : ',' ∈ joinFields [lat, lon, more] := by simp [joinFields_cons_cons]
    have hboth : ',' ∈ joinFields [lat, lon] := by simp [joinFields_cons_cons]
    rw [joinFields_cons_cons, joinFields_cons_cons first, airport_fields hfirst,
      airport_fields hfirst, hposition]
    cases AirportCategory.ofText? first with
    | none => rfl
    | some k => simp only [hmore, hboth, if_true]

/-- A heliport, then with blanks around its fields and one field too many, and lines that stand
    for no airport. -/
theorem airport_agrees_heliport :
    airport "+3,40.5,-3.5".toList = ⟨.heliport, position "40.5,-3.5".toList⟩ ∧
      airport "\t +3\u3000, 40.5\u3000, -3.5\u3000, high\u3000".toList =
        ⟨.heliport, { position "40.5,-3.5".toList with lon := 0.0 }⟩ ∧
      airport "+3,40.5".toList = ⟨.largeAirport, position "40.5".toList⟩ ∧
      airport "7,40.5,-3.5".toList = .null ∧ airport "+3".toList = .null := by
  obtain ⟨hagree, hnone, hblank, hsurplus⟩ := airport_agrees
  have hnamed : AirportCategory.heliport.NamedBy "+3".toList :=
    ⟨['3'], .inr (by decide), by decide, List.forall_mem_singleton.mpr (by decide), rfl⟩
  have hheliport : airport "+3,40.5,-3.5".toList = ⟨.heliport, position "40.5,-3.5".toList⟩ :=
    (hagree "+3".toList "40.5,-3.5".toList (by decide)).1 .heliport hnamed
  refine ⟨hheliport, ?_, ?_, ?_, hnone _ (by decide) |>.1⟩
  · have hspace : ∀ c, Text.isBlank c = true → Text.Blank [c] := fun c hc => by simpa [Text.Blank]
    have hpadded : ∀ field, Padded field (' ' :: (field ++ ['\u3000'])) :=
      fun field => ⟨[' '], ['\u3000'], hspace _ (by decide), hspace _ (by decide), rfl⟩
    have hall := List.Forall₂.cons (hpadded "+3".toList) (.cons (hpadded "40.5".toList)
      (.cons (hpadded "-3.5".toList) (.cons (hpadded "high".toList) .nil)))
    have hline := (hblank _ _ ['\t'] [] (by decide) hall (hspace _ (by decide))
      (by simp [Text.Blank])).1
    have hmore := (hsurplus "+3".toList "40.5".toList "-3.5".toList "high".toList (by decide)
      (by decide) (by decide)).1
    exact (hline.trans hmore).trans (congrArg
      (fun a : Airport => { a with position := { a.position with lon := 0.0 } }) hheliport)
  · exact (hagree "+3".toList "40.5".toList (by decide)).1 .heliport hnamed
  · refine (hagree "7".toList "40.5,-3.5".toList (by decide)).2 ?_
    intro k hk
    have hread := AirportCategory.ofText?_eq_some_iff.mpr hk
    have hnot : AirportCategory.ofText? "7".toList = none := by decide
    rw [hnot] at hread
    cases hread

end Record

end Airspace
