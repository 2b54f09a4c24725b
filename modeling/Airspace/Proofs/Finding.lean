import Airspace.Proofs.Ingestion
import Airspace.Proofs.Room

/-! # When a search finds its polygon

  Polygons are numbered in the order of the border, and the one that a search gives is the
  first that contains the position. The search knows it as soon as a delimiter ends that
  polygon, and not before; the last polygon of a border that no delimiter ends is found only
  by finishing the search. What comes after the find is not looked at, so that a pass over a
  table may stop there.
-/

namespace Airspace.Border

/-- The number of the first polygon that contains a position, if one does. -/
def numberAround? (origin : Position) (ps : List (List Position)) : Option Nat :=
  (ps.findIdx? (Ring.contains · origin)).map (· + 1)

/-- The first polygon around a position, by its number, or 0. -/
theorem firstAround_eq (origin : Position) (ps : List (List Position)) :
    firstAround origin 1 ps = (numberAround? origin ps).getD 0 := by
  -- the polygons may be counted from any number
  have hfrom : ∀ n, firstAround origin n ps =
      ((ps.findIdx? (Ring.contains · origin)).map (· + n)).getD 0 := by
    induction ps with
    | nil => exact fun _ => rfl
    | cons vs ps ih =>
      intro n
      rw [firstAround, List.findIdx?_cons]
      by_cases hin : Ring.contains vs origin = true
      · rw [if_pos hin, if_pos hin, Option.map_some, Option.getD_some, Nat.zero_add]
      · rw [if_neg hin, if_neg hin, ih, Option.map_map]
        congr 2
        funext i
        simp only [Function.comp_apply]
        omega
  exact hfrom 1

/-- Polygons behind the first one that contains the position make no difference. -/
theorem numberAround?_append (origin : Position) (ps more : List (List Position)) {k : Nat}
    (hk : k ≤ ps.length) :
    numberAround? origin (ps ++ more) = some k ↔ numberAround? origin ps = some k := by
  unfold numberAround?
  rw [List.findIdx?_append]
  cases ps.findIdx? (Ring.contains · origin) with
  | some i => rfl
  | none =>
    -- a polygon found later has a number that is too large
    simp only [Option.none_or, Option.map_map, Option.map_eq_some_iff, Option.map_none,
      reduceCtorEq, iff_false, Function.comp_apply]
    rintro ⟨i, -, heq⟩
    omega

theorem le_length_of_numberAround? {origin : Position} {ps : List (List Position)} {k : Nat}
    (h : numberAround? origin ps = some k) : k ≤ ps.length := by
  obtain ⟨i, hi, rfl⟩ := Option.map_eq_some_iff.mp h
  exact (List.findIdx?_eq_some_iff_findIdx_eq.mp hi).1

/-! ### Polygons that have ended -/

/-- The place in a border after some records: the polygons that have ended, and the vertices of
    the one in progress. -/
def placeAfter (border : List BorderRecord) : List (List Position) × List Position :=
  border.foldl stand ([], [])

@[simp] theorem placeAfter_nil : placeAfter [] = ([], []) := rfl

@[simp] theorem placeAfter_concat (border : List BorderRecord) (r : BorderRecord) :
    placeAfter (border ++ [r]) = stand (placeAfter border) r := by
  unfold placeAfter
  rw [List.foldl_append, List.foldl_cons, List.foldl_nil]

/-- The polygons that have ended after some records. -/
def ended (border : List BorderRecord) : List (List Position) := (placeAfter border).1

theorem ended_concat (border : List BorderRecord) (r : BorderRecord) :
    ended (border ++ [r]) = (stand (placeAfter border) r).1 :=
  congrArg Prod.fst (placeAfter_concat border r)

/-- A vertex ends no polygon. -/
theorem ended_concat_vertex (border : List BorderRecord) (v : Position) :
    ended (border ++ [.vertex v]) = ended border :=
  ended_concat border (.vertex v)

/-- A delimiter ends the polygon in progress, if there is one. -/
theorem ended_concat_delimiter (border : List BorderRecord) :
    ended (border ++ [.delimiter]) =
      if (placeAfter border).2 = [] then ended border
      else ended border ++ [(placeAfter border).2] := by
  rw [ended_concat, stand]
  split <;> rfl

/-- The polygons that have ended are the first polygons of the border, however it goes on. -/
theorem polygons_append (before after : List BorderRecord) : ∃ more,
    polygons (before ++ after) = ended before ++ more := by
  have hwhole := polygons_foldl_stand (before ++ after) ([], [])
  have hrest := polygons_foldl_stand after (placeAfter before)
  rw [placeAfter, ← List.foldl_append, ← hwhole] at hrest
  exact ⟨_, hrest.symm⟩

/-- Before a delimiter that ends a polygon stands a vertex. -/
theorem exists_last_vertex {border : List BorderRecord} (h : (placeAfter border).2 ≠ []) :
    ∃ xs v, border = xs ++ [.vertex v] := by
  induction border using List.reverseRecOn with
  | nil => exact absurd rfl h
  | append_singleton xs r _ =>
    cases r with
    | vertex v => exact ⟨xs, v, rfl⟩
    | delimiter =>
      rw [placeAfter_concat, stand] at h
      split at h <;> exact absurd rfl h

/-- After a vertex there is a polygon in progress. -/
theorem placeAfter_vertex_ne_nil (xs : List BorderRecord) (v : Position) :
    (placeAfter (xs ++ [.vertex v])).2 ≠ [] := by
  rw [placeAfter_concat]
  exact List.append_ne_nil_of_right_ne_nil _ (List.cons_ne_nil v [])

/-- A delimiter behind a vertex ends the latest polygon. -/
theorem ended_concat_vertex_delimiter (xs : List BorderRecord) (v : Position) :
    ended (xs ++ [.vertex v] ++ [.delimiter]) = polygons (xs ++ [.vertex v]) := by
  have hseen := placeAfter_vertex_ne_nil xs v
  have hall := polygons_foldl_stand (xs ++ [.vertex v]) ([], [])
  rw [← placeAfter, polygonsFrom_end hseen] at hall
  rw [ended_concat_delimiter, if_neg hseen]
  exact hall.symm

/-- No polygon is forgotten. -/
theorem length_ended_append (before after : List BorderRecord) :
    (ended before).length ≤ (ended (before ++ after)).length := by
  induction after using List.reverseRecOn with
  | nil => exact Nat.le_of_eq (by rw [List.append_nil])
  | append_singleton after r ih =>
    rw [← List.append_assoc]
    refine Nat.le_trans ih ?_
    cases r with
    | vertex v => exact Nat.le_of_eq (congrArg _ (ended_concat_vertex _ v).symm)
    | delimiter =>
      rw [ended_concat_delimiter]
      split
      · exact Nat.le_refl _
      · rw [List.length_append]
        exact Nat.le_add_right _ _

/-- The polygon number `k` has ended if the delimiter behind its last vertex has been read. -/
theorem le_length_ended_iff {border : List BorderRecord} {k : Nat} (hk : 0 < k) :
    k ≤ (ended border).length ↔ ∃ xs v ys, border = xs ++ .vertex v :: .delimiter :: ys ∧
      (polygons (xs ++ [.vertex v])).length = k := by
  constructor
  · intro hlength
    induction border using List.reverseRecOn with
    | nil => exact absurd hlength (Nat.not_le.mpr hk)
    | append_singleton border r ih =>
      by_cases hbefore : k ≤ (ended border).length
      · obtain ⟨xs, v, ys, rfl, hcount⟩ := ih hbefore
        exact ⟨xs, v, ys ++ [r], by simp, hcount⟩
      · cases r with
        | vertex v =>
          rw [ended_concat_vertex] at hlength
          exact absurd hlength hbefore
        | delimiter =>
          -- the delimiter ends the polygon, so there is a vertex before it
          rw [ended_concat_delimiter] at hlength
          by_cases hseen : (placeAfter border).2 = []
          · rw [if_pos hseen] at hlength
            exact absurd hlength hbefore
          · obtain ⟨xs, v, rfl⟩ := exists_last_vertex hseen
            refine ⟨xs, v, [], by simp, ?_⟩
            rw [← ended_concat_vertex_delimiter, ended_concat_delimiter]
            rw [if_neg hseen] at hlength ⊢
            rw [List.length_append, List.length_singleton] at hlength ⊢
            omega
  · rintro ⟨xs, v, ys, rfl, rfl⟩
    have hend := length_ended_append (xs ++ [.vertex v] ++ [.delimiter]) ys
    rw [ended_concat_vertex_delimiter] at hend
    simpa using hend

/-! ### The state of a search -/

namespace Search

/-- A search that has come to a place in the border: if a polygon that has ended contains the
    position, the search has found the first such; otherwise it is midway through the polygon
    in progress. -/
def At (origin : Position) (place : List (List Position) × List Position) (s : Search) : Prop :=
  match numberAround? origin place.1 with
  | some k => s.found = some k
  | none => s = midway origin (place.1.length + if place.2 = [] then 0 else 1) place.2

variable {origin : Position} {place : List (List Position) × List Position} {s : Search}

theorem at_start (origin : Position) : (start origin).At origin ([], []) := rfl

/-- One more record takes a search to the next place. -/
theorem At.push (h : s.At origin place) (r : BorderRecord) :
    (s.push r).At origin (stand place r) := by
  obtain ⟨ps, seen⟩ := place
  unfold At at h ⊢
  cases hfound : numberAround? origin ps with
  | some k =>
    -- what has been found stays, and it stays the first
    rw [hfound] at h
    have hfirst : numberAround? origin (stand (ps, seen) r).1 = some k := by
      cases r with
      | vertex v => exact hfound
      | delimiter =>
        rw [stand]
        split
        · exact hfound
        · exact (numberAround?_append origin ps _ (le_length_of_numberAround? hfound)).mpr hfound
    rw [hfirst]
    exact (congrArg found (foldl_push_found h [r])).trans h
  | none =>
    rw [hfound] at h
    subst h
    cases r with
    | vertex v =>
      rw [push_vertex]
      simp only [stand, hfound]
      unfold nextNumber
      by_cases hseen : seen = []
      · simp [hseen]
      · simp [hseen]
    | delimiter =>
      by_cases hseen : seen = []
      · subst hseen
        rw [stand, if_pos rfl, hfound]
        rfl
      · have hall : numberAround? origin (ps ++ [seen]) =
            if Ring.contains seen origin then some (ps.length + 1) else none := by
          have hnone := Option.map_eq_none_iff.mp hfound
          unfold numberAround?
          rw [List.findIdx?_append, hnone, List.findIdx?_cons, List.findIdx?_nil]
          split <;> simp
        rw [push_delimiter _ hseen, stand, if_neg hseen, hall]
        by_cases hin : Ring.contains seen origin = true
        · simp [hin, hseen]
        · simp [hin, hseen, midway]

/-- Any records take a search to the place that they lead to. -/
theorem at_foldl_push (origin : Position) (border : List BorderRecord) :
    (border.foldl push (start origin)).At origin (placeAfter border) := by
  induction border using List.reverseRecOn with
  | nil => exact at_start origin
  | append_singleton border r ih =>
    rw [List.foldl_append, placeAfter_concat]
    exact ih.push r

/-- After any records a search has found the first polygon around the position among those
    that have ended, and nothing if there is none among them. -/
theorem found_foldl_push (origin : Position) (border : List BorderRecord) :
    (border.foldl push (start origin)).found = numberAround? origin (ended border) := by
  have hat := at_foldl_push origin border
  unfold At at hat
  unfold ended
  cases hfound : numberAround? origin (placeAfter border).1 with
  | some k =>
    rw [hfound] at hat
    exact hat
  | none =>
    rw [hfound] at hat
    rw [hat]
    rfl

/-- A search gives the first polygon, in the order of the border, that the ray leaves by the
    even-odd rule. It knows the number from the delimiter on that ends this polygon; nothing
    that is read later changes it, so a pass over a table that stops there finds the same
    polygon as one over all lines. -/
theorem finds_first (origin : Position) :
    (∀ border, run origin border = (numberAround? origin (polygons border)).getD 0) ∧
      (∀ before after k, (before.foldl push (start origin)).found = some k ↔
        run origin (before ++ after) = k ∧
          ∃ xs v ys, before = xs ++ .vertex v :: .delimiter :: ys ∧
            (polygons (xs ++ [.vertex v])).length = k) ∧
      (∀ before after, (before.foldl push (start origin)).found ≠ none →
        after.foldl push (before.foldl push (start origin)) = before.foldl push (start origin) ∧
          (before.foldl push (start origin)).finish = run origin (before ++ after)) ∧
      ∀ r : Reading, (Load.passOver .countries r Load.searchLine (·.found.isSome)
        (start origin)).gathered.finish = run origin r.border := by
  have hrun : ∀ border, run origin border = (numberAround? origin (polygons border)).getD 0 :=
    fun border => (run_eq origin border).trans (firstAround_eq origin _)
  refine ⟨hrun, ?_, ?_, ?_⟩
  · intro before after k
    obtain ⟨more, hmore⟩ := polygons_append before after
    rw [found_foldl_push, hrun, hmore]
    constructor
    · intro hfound
      have hlength := le_length_of_numberAround? hfound
      have hpos : 0 < k := by
        obtain ⟨i, -, rfl⟩ := Option.map_eq_some_iff.mp hfound
        exact Nat.succ_pos i
      rw [(numberAround?_append origin _ more hlength).mpr hfound]
      exact ⟨rfl, (le_length_ended_iff hpos).mp hlength⟩
    · rintro ⟨hnumber, hread⟩
      have hpos : 0 < k := by
        obtain ⟨xs, v, -, -, rfl⟩ := hread
        rw [← ended_concat_vertex_delimiter, ended_concat_delimiter,
          if_neg (placeAfter_vertex_ne_nil xs v), List.length_append]
        exact Nat.succ_pos _
      have hlength := (le_length_ended_iff hpos).mpr hread
      refine (numberAround?_append origin _ more hlength).mp ?_
      cases hwhole : numberAround? origin (ended before ++ more) with
      | none =>
        rw [hwhole] at hnumber
        exact absurd hnumber.symm (Nat.ne_of_gt hpos)
      | some i =>
        rw [hwhole] at hnumber
        exact congrArg some hnumber
  · intro before after hfound
    obtain ⟨k, hk⟩ := Option.ne_none_iff_exists'.mp hfound
    refine ⟨foldl_push_found hk after, ?_⟩
    unfold run
    rw [List.foldl_append, foldl_push_found hk]
  · intro r
    refine Pass.along_search ?_ r.lines 0 (start origin)
    intro line s
    unfold Load.searchLine
    cases Record.border? line.toList <;> rfl

/-- A pasture, and behind it a field that the position lies in and that a third polygon lies
    around. -/
def pastures : List BorderRecord :=
  [.delimiter, .vertex ⟨1.0, 5.0⟩, .vertex ⟨1.0, 9.0⟩, .vertex ⟨4.0, 5.0⟩, .delimiter, .delimiter,
    .vertex ⟨1.0, 1.0⟩, .vertex ⟨1.0, 4.0⟩, .vertex ⟨4.0, 1.0⟩, .delimiter,
    .vertex ⟨0.0, 0.5⟩, .vertex ⟨0.0, 9.0⟩, .vertex ⟨9.0, 0.5⟩]

/-- The field is found at the delimiter behind it, before the polygon around it is read. -/
theorem finds_first_pastures :
    run ⟨1.5, 2.0⟩ pastures = 2 ∧
      ((pastures.take 10).foldl push (start ⟨1.5, 2.0⟩)).found = some 2 ∧
      ((pastures.take 10).foldl push (start ⟨1.5, 2.0⟩)).finish = 2 := by
  obtain ⟨hrun, hfound, hstays, -⟩ := finds_first ⟨1.5, 2.0⟩
  have hwhole : run ⟨1.5, 2.0⟩ pastures = 2 := by
    rw [hrun]
    decide +kernel
  have hread : ((pastures.take 10).foldl push (start ⟨1.5, 2.0⟩)).found = some 2 :=
    (hfound _ (pastures.drop 10) 2).mpr ⟨hwhole, pastures.take 8, ⟨4.0, 1.0⟩, [], rfl, rfl⟩
  have hearly := (hstays (pastures.take 10) (pastures.drop 10) (by rw [hread]; decide)).2
  exact ⟨hwhole, hread, hearly.trans hwhole⟩

end Search

end Airspace.Border
