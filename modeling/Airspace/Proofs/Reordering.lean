import Airspace.Proofs.Course
import Mathlib.Data.List.Perm.Basic
import Mathlib.Data.List.ReduceOption

/-! # Tables in another order

  The airports and the prisons of a volume may be listed in another order. That changes which
  records come first, and where a line that is not text breaks off the reading. But it changes
  neither whether a table can be read to its end nor how many of its records are kept. So the
  guard loads its tables all the same, or fails all the same, and whether something is too
  near does not depend on the order either. No verdict of a whole run tells two orders apart.

  Borders are left alone: the order of their vertices matters.
-/

namespace Airspace

/-! ### Rows -/

/-- A content has lines unless it is empty. -/
theorem Text.lines_eq_nil_iff {α : Type} [BEq α] {m : LineMarks α} {cs : List α} :
    lines m cs = [] ↔ cs = [] := by
  cases cs with
  | nil => simp [lines]
  | cons c tail =>
    rw [lines]
    split <;> simp

/-- The rows of a content are its lines, with `none` for one that is not text. What cannot be
    read has no rows. -/
def Content.rows? : Content → Option (List (Option String))
  | .text s => some ((Text.lines .ofChars s.toList).map fun line => some (String.ofList line))
  | .bytes bs => some ((Text.lines .ofBytes bs).map fun line => String.fromUTF8? ⟨line.toArray⟩)
  | .broken _ _ => none

namespace Reading

/-- The reading of rows ends before the first that is not text. -/
def ofRows : List (Option String) → Reading
  | [] => ⟨[], none⟩
  | none :: _ => ⟨[], some notText⟩
  | some s :: rest =>
    let r := ofRows rest
    ⟨s :: r.lines, r.fault⟩

theorem ofText_eq_ofRows (s : String) : ofText s =
    ofRows ((Text.lines .ofChars s.toList).map fun line => some (String.ofList line)) := by
  unfold ofText
  induction Text.lines .ofChars s.toList with
  | nil => rfl
  | cons line rest ih => simp [ofRows, ← ih]

theorem ofEncoded_eq_ofRows (encoded : List (List UInt8)) : ofEncoded encoded =
    ofRows (encoded.map fun line => String.fromUTF8? ⟨line.toArray⟩) := by
  induction encoded with
  | nil => rfl
  | cons line rest ih =>
    rw [ofEncoded, List.map_cons]
    cases String.fromUTF8? ⟨line.toArray⟩ <;> simp [ofRows, ih]

theorem fault_ofRows (rows : List (Option String)) :
    (ofRows rows).fault = if none ∈ rows then some notText else none := by
  induction rows with
  | nil => rfl
  | cons row rest ih => cases row <;> simp [ofRows, ih]

theorem lines_ofRows {rows : List (Option String)} (h : none ∉ rows) :
    (ofRows rows).lines = rows.reduceOption := by
  induction rows with
  | nil => rfl
  | cons row rest ih =>
    cases row with
    | none => simp at h
    | some s => simp_all [ofRows]

end Reading

namespace Volume

variable {v v' : Volume} {t : Table} {content : Content} {rows : List (Option String)}

/-- A table with rows is opened unless there are none. -/
theorem read_of_rows (hmounted : v.mounted = true) (htable : v.table t = some content)
    (hrows : content.rows? = some rows) :
    v.read t = if rows = [] then .error (.empty t) else .ok (.ofRows rows) := by
  unfold read
  rw [hmounted, htable]
  cases content with
  | text s =>
    obtain rfl := Option.some.inj hrows
    simp [Text.lines_eq_nil_iff, ← Reading.ofText_eq_ofRows]
  | bytes bs =>
    obtain rfl := Option.some.inj hrows
    simp [Text.lines_eq_nil_iff, Reading.ofBytes, ← Reading.ofEncoded_eq_ofRows]
  | broken bs cause => cases hrows

/-- Whether it can be read to its end does not depend on the order of its rows. -/
theorem fault?_of_rows (hmounted : v.mounted = true) (htable : v.table t = some content)
    (hrows : content.rows? = some rows) : v.fault? t =
      if rows = [] then some (.empty t)
      else if none ∈ rows then some (.unreadable t Reading.notText) else none := by
  unfold fault?
  rw [read_of_rows hmounted htable hrows]
  by_cases hnil : rows = []
  · simp [hnil]
  · by_cases hnone : none ∈ rows <;> simp [hnil, hnone, Reading.fault_ofRows]

/-- If it can, the rows are its lines. -/
theorem lines_of_rows (hmounted : v.mounted = true) (htable : v.table t = some content)
    (hrows : content.rows? = some rows) (hfault : v.fault? t = none) :
    v.lines t = rows.reduceOption := by
  rw [fault?_of_rows hmounted htable hrows] at hfault
  unfold lines
  rw [read_of_rows hmounted htable hrows]
  by_cases hnil : rows = []
  · simp [hnil] at hfault
  · by_cases hnone : none ∈ rows
    · simp [hnil, hnone] at hfault
    · simp [hnil, Reading.lines_ofRows hnone]

end Volume

/-! ### Reordered volumes -/

/-- Two contents have the same lines, in any order. -/
def Content.Reordered (content content' : Content) : Prop :=
  ∃ rows rows', content.rows? = some rows ∧ content'.rows? = some rows' ∧ rows.Perm rows'

namespace Volume

variable {v v' : Volume} {t : Table}

/-- Two volumes hold the same, but for the order in which airports and prisons are listed. -/
structure Reordered (v v' : Volume) : Prop where
  mounted_eq : v'.mounted = v.mounted
  countries_eq : v'.table .countries = v.table .countries
  table : ∀ t, v'.table t = v.table t ∨
    ∃ content content', v.table t = some content ∧ v'.table t = some content' ∧
      content.Reordered content'

theorem Reordered.refl (v : Volume) : v.Reordered v := ⟨rfl, rfl, fun _ => Or.inl rfl⟩

theorem Reordered.put (h : v.Reordered v') (hborders : t ≠ .countries) {content content' : Content}
    (hcontent : content' = content ∨ content.Reordered content') :
    (v.put t content).Reordered (v'.put t content') := by
  refine ⟨h.mounted_eq, ?_, ?_⟩
  · simp [Volume.put, hborders.symm, h.countries_eq]
  · intro u
    by_cases hu : u = t
    · rcases hcontent with rfl | hcontent
      · simp [Volume.put, hu]
      · have htable : (v.put t content).table u = some content := by simp [Volume.put, hu]
        have htable' : (v'.put t content').table u = some content' := by simp [Volume.put, hu]
        exact Or.inr ⟨content, content', htable, htable', hcontent⟩
    · simpa [Volume.put, hu] using h.table u

theorem read_eq_of_table_eq (hmounted : v'.mounted = v.mounted) (htable : v'.table t = v.table t) :
    v'.read t = v.read t := by
  unfold read
  rw [hmounted, htable]

/-- Each table can be read to its end in either order, or in neither. -/
theorem Reordered.fault?_eq (h : v.Reordered v') (t : Table) : v'.fault? t = v.fault? t := by
  rcases h.table t with
    hsame | ⟨content, content', htable, htable', rows, rows', hrows, hrows', hperm⟩
  · unfold fault?
    rw [read_eq_of_table_eq h.mounted_eq hsame]
  · cases hmounted : v.mounted with
    | false => simp [fault?, read, h.mounted_eq, hmounted]
    | true =>
      rw [fault?_of_rows hmounted htable hrows,
        fault?_of_rows (h.mounted_eq.trans hmounted) htable' hrows']
      have hnil : rows' = [] ↔ rows = [] := by
        rw [← List.length_eq_zero_iff, ← List.length_eq_zero_iff, hperm.length_eq]
      simp only [hnil, hperm.mem_iff]

theorem mounted_of_fault?_eq_none (h : v.fault? t = none) : v.mounted = true := by
  cases hmounted : v.mounted with
  | true => rfl
  | false => simp [fault?, read, hmounted] at h

/-- If a table can be read to its end, its lines are the same in any order. -/
theorem Reordered.lines_perm (h : v.Reordered v') (hfault : v.fault? t = none) :
    (v.lines t).Perm (v'.lines t) := by
  rcases h.table t with
    hsame | ⟨content, content', htable, htable', rows, rows', hrows, hrows', hperm⟩
  · unfold lines
    rw [read_eq_of_table_eq h.mounted_eq hsame]
  · have hmounted := mounted_of_fault?_eq_none hfault
    rw [lines_of_rows hmounted htable hrows hfault,
      lines_of_rows (h.mounted_eq.trans hmounted) htable' hrows' ((h.fault?_eq t).trans hfault)]
    exact hperm.filterMap id

theorem Reordered.border_eq (h : v.Reordered v') : v'.border = v.border := by
  unfold border
  rw [read_eq_of_table_eq h.mounted_eq h.countries_eq]

end Volume

/-! ### Loads of reordered volumes -/

theorem isSome_find?_of_perm {α : Type} {l l' : List α} (h : l.Perm l') (q : α → Bool) :
    (l'.find? q).isSome = (l.find? q).isSome := by
  rw [Bool.eq_iff_iff]
  simp [List.find?_isSome, h.mem_iff]

namespace Load.Basis

variable {globe : Globe} {c : Config} {v v' : Volume} {p origin : Position} {t : Table}

theorem airports_perm (h : v.Reordered v') (hfault : v.fault? .airports = none) :
    (airports ⟨globe, c, v, origin⟩).Perm (airports ⟨globe, c, v', origin⟩) :=
  (h.lines_perm hfault).filterMap _

theorem prisons_perm (h : v.Reordered v') (hfault : v.fault? .prisons = none) :
    (prisons ⟨globe, c, v, origin⟩).Perm (prisons ⟨globe, c, v', origin⟩) :=
  (h.lines_perm hfault).filterMap _

/-- The border table is the same, and so is what is drawn from it. -/
theorem inside_of_reordered (h : v.Reordered v') :
    inside ⟨globe, c, v', origin⟩ = inside ⟨globe, c, v, origin⟩ := by
  funext p
  unfold inside outline borderPlan
  simp only [h.border_eq]
  rfl

theorem demand_of_reordered (h : v.Reordered v') (hfault : v.fault? t = none) :
    demand ⟨globe, c, v', origin⟩ t = demand ⟨globe, c, v, origin⟩ t := by
  cases t with
  | airports => exact (airports_perm h hfault).length_eq.symm
  | prisons => exact (prisons_perm h hfault).length_eq.symm
  | countries =>
    unfold demand outline borderPlan place
    simp only [h.border_eq, h.fault?_eq]
    rfl

/-- A table is at fault in either order, or in neither. The faults may differ, if there are
    several. -/
theorem fault?_eq_none_of_reordered (h : v.Reordered v') :
    fault? ⟨globe, c, v', origin⟩ t = none ↔ fault? ⟨globe, c, v, origin⟩ t = none := by
  rw [fault?_eq_none_iff, fault?_eq_none_iff]
  show v'.fault? t = none ∧ _ ↔ _
  rw [h.fault?_eq]
  refine and_congr_right ?_
  intro hfault
  rw [demand_of_reordered h hfault]

/-- The order of airports and prisons makes no difference to a verdict by the tables. -/
theorem verdict_of_reordered (h : v.Reordered v') (p : Position) :
    verdict ⟨globe, c, v', origin⟩ p = verdict ⟨globe, c, v, origin⟩ p := by
  have hfirst : firstFault? ⟨globe, c, v', origin⟩ = none ↔ firstFault? ⟨globe, c, v, origin⟩ = none := by
    simp only [firstFault?_eq_none_iff, fault?_eq_none_of_reordered h]
  unfold verdict
  by_cases hnone : firstFault? ⟨globe, c, v, origin⟩ = none
  · have hread : ∀ t, c.checks t = true → v.fault? t = none := by
      intro t ht
      exact (fault?_eq_none_iff.mp (firstFault?_eq_none_iff.mp hnone t ht)).1
    have hairport : c.airportEnabled = true →
        (nearAirport? globe c.clearances p (airports ⟨globe, c, v', origin⟩)).isSome =
          (nearAirport? globe c.clearances p (airports ⟨globe, c, v, origin⟩)).isSome := by
      intro ht
      exact isSome_find?_of_perm (airports_perm h (hread .airports ht)) _
    have hprison : c.prisonEnabled = true →
        (nearPrison? globe c.clearances.prison p (prisons ⟨globe, c, v', origin⟩)).isSome =
          (nearPrison? globe c.clearances.prison p (prisons ⟨globe, c, v, origin⟩)).isSome := by
      intro ht
      exact isSome_find?_of_perm (prisons_perm h (hread .prisons ht)) _
    rw [hnone, hfirst.mpr hnone, inside_of_reordered h]
    cases ha : c.airportEnabled <;> cases hp : c.prisonEnabled <;> simp_all
  · have hnone' : firstFault? ⟨globe, c, v', origin⟩ ≠ none := fun heq => hnone (hfirst.mp heq)
    rw [if_pos (Option.isSome_iff_ne_none.mpr hnone'), if_pos (Option.isSome_iff_ne_none.mpr hnone)]

end Load.Basis

/-! ### Runs on reordered volumes -/

namespace Course

variable {c : Config} {k k' : Course} {v v' : Volume}

/-- Two courses are the same but for the order of the tables that were loaded. -/
structure Reordered (k k' : Course) : Prop where
  globe_eq : k'.globe = k.globe
  position_eq : k'.position = k.position
  storage_eq : k'.storage = k.storage
  loading : k.loading = none ∧ k'.loading = none ∨
    ∃ v v' origin, k.loading = some (v, origin) ∧ k'.loading = some (v', origin) ∧ v.Reordered v'

theorem Reordered.start (h : k.Reordered k') (hv : v.Reordered v') :
    (k.start v).Reordered (k'.start v') :=
  ⟨h.globe_eq, h.position_eq, congrArg some hv.mounted_eq, Or.inl ⟨rfl, rfl⟩⟩

theorem Reordered.evaluate (h : k.Reordered k') (hv : v.Reordered v') (ready : Bool) :
    (k.evaluate v ready).Reordered (k'.evaluate v' ready) := by
  have hstarted : (k.started v).Reordered (k'.started v') := by
    unfold started
    rw [h.storage_eq]
    cases k.storage with
    | none => exact h.start hv
    | some there => exact h
  have hloads : (k'.started v').loads ready = (k.started v).loads ready := by
    unfold loads
    rw [hstarted.position_eq, hstarted.storage_eq]
    rcases hstarted.loading with ⟨hnone, hnone'⟩ | ⟨_, _, _, hsome, hsome', -⟩
    · rw [hnone, hnone']
    · rw [hsome, hsome']
      rfl
  unfold Course.evaluate
  rw [hloads]
  split
  · refine ⟨hstarted.globe_eq, hstarted.position_eq, hstarted.storage_eq,
      Or.inr ⟨v, v', (k.started v).position, rfl, ?_, hv⟩⟩
    show some (v', (k'.started v').position) = _
    rw [hstarted.position_eq]
  · exact hstarted

theorem Reordered.obey (h : k.Reordered k') (hv : v.Reordered v') (command : Guard.Command) :
    (k.obey v command).Reordered (k'.obey v' command) := by
  cases command with
  | start => exact h.start hv
  | locate p => exact ⟨h.globe_eq, rfl, h.storage_eq, h.loading⟩
  | evaluate ready => exact h.evaluate hv ready
  | ingest => exact h

/-- Two runs give the same commands, on volumes that differ in the order of their tables. -/
def RunsAlike (run run' : List (Volume × Guard.Command)) : Prop :=
  List.Forall₂ (fun step step' => step.1.Reordered step'.1 ∧ step'.2 = step.2) run run'

theorem Reordered.after (h : k.Reordered k') {run run' : List (Volume × Guard.Command)}
    (hrun : RunsAlike run run') : (k.after run).Reordered (k'.after run') := by
  induction hrun generalizing k k' with
  | nil => exact h
  | cons hstep _ ih =>
    obtain ⟨hv, hcommand⟩ := hstep
    unfold Course.after
    rw [hcommand]
    exact ih (h.obey hv _)

theorem Reordered.verdict_eq (h : k.Reordered k') : k'.verdict c = k.verdict c := by
  unfold verdict basis?
  rw [h.globe_eq, h.position_eq, h.storage_eq]
  split
  · rfl
  · rcases h.loading with ⟨hnone, hnone'⟩ | ⟨v, v', origin, hsome, hsome', hv⟩
    · rw [hnone, hnone']
    · rw [hsome, hsome']
      simp [Load.Basis.verdict_of_reordered hv]

end Course

/-- No verdict of a run depends on the order of the airports and the prisons. -/
theorem Guard.verdict_of_reordered {run run' : List (Volume × Command)} {w w' : Volume}
    (globe : Globe) (c : Config) (hrun : ∀ step ∈ run, step.2 ≠ .ingest)
    (halike : Course.RunsAlike run run') (hw : w.Reordered w') (ready : Bool) :
    (((new globe c).after run').evaluate w' ready).verdict =
      (((new globe c).after run).evaluate w ready).verdict := by
  have hrun' : ∀ step ∈ run', step.2 ≠ .ingest := by
    induction halike with
    | nil => exact hrun
    | cons hstep _ ih =>
      rw [List.forall_mem_cons] at hrun ⊢
      rw [hstep.2]
      exact ⟨hrun.1, ih hrun.2⟩
  have hnew : (Course.new globe).Reordered (.new globe) := ⟨rfl, rfl, rfl, Or.inl ⟨rfl, rfl⟩⟩
  rw [verdict_after globe c hrun, verdict_after globe c hrun']
  exact ((hnew.after halike).evaluate hw ready).verdict_eq

end Airspace
