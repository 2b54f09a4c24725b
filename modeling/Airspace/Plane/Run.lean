/-! # Runs

  A list in which `none` separates falls into runs: the maximal stretches of values
  between separators. Separators at the ends or next to each other make no run, so
  no run is empty.
-/

namespace Airspace

variable {V : Type}

/-- The runs of a list, in order. -/
def runs : List (Option V) → List (List V)
  | [] => []
  | none :: rest => runs rest
  | [some v] => [[v]]
  | some v :: none :: rest => [v] :: runs rest
  | some v :: some w :: rest =>
    match runs (some w :: rest) with
    | run :: more => (v :: run) :: more
    | [] => [[v]]

/-- A value begins the first run. -/
theorem runs_some_cons (v : V) (rest : List (Option V)) :
    ∃ run more, runs (some v :: rest) = (v :: run) :: more := by
  match rest with
  | [] => exact ⟨[], [], rfl⟩
  | none :: rest => exact ⟨[], runs rest, rfl⟩
  | some w :: rest =>
    obtain ⟨run, more, h⟩ := runs_some_cons w rest
    exact ⟨w :: run, more, by simp only [runs, h]⟩

/-- A separator ends the runs before it. -/
theorem runs_append_none (xs ys : List (Option V)) :
    runs (xs ++ none :: ys) = runs xs ++ runs ys := by
  match xs with
  | [] => rfl
  | none :: xs => simpa only [List.cons_append, runs] using runs_append_none xs ys
  | [some v] => rfl
  | some v :: none :: xs =>
    simpa only [List.cons_append, runs, List.cons.injEq, true_and] using runs_append_none xs ys
  | some v :: some w :: xs =>
    have tail := runs_append_none (some w :: xs) ys
    obtain ⟨run, more, h⟩ := runs_some_cons w xs
    simp only [List.cons_append] at tail ⊢
    simp only [runs, tail, h, List.cons_append]

end Airspace
