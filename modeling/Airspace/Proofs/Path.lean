import Airspace.Plane.Ring

/-! # Paths

  A list of vertices is a path: an edge leads from each vertex to the next. A path that
  is read one vertex after the other grows by one edge with each of them, and all that
  has to be remembered of it are its two ends. The ring through the vertices is the path
  and one edge more, from its end back to its beginning.
-/

namespace Airspace

variable {V : Type}

/-- The edges from each vertex to the next. -/
def path (vs : List V) : List (V × V) := vs.zip vs.tail

/-- The first and the last vertex, if there are any. -/
def endpoints : List V → Option (V × V)
  | [] => none
  | v :: vs => some (v, vs.getLastD v)

/-- A path has two ends unless it is empty. -/
theorem empty_or_endpoints (vs : List V) :
    vs = [] ∨ ∃ first last, endpoints vs = some (first, last) := by
  cases vs with
  | nil => exact .inl rfl
  | cons v vs => exact .inr ⟨v, vs.getLastD v, rfl⟩

theorem ne_nil_of_endpoints {vs : List V} {e : V × V} (h : endpoints vs = some e) : vs ≠ [] := by
  intro hnil
  rw [hnil] at h
  cases h

/-- The ends of a path are vertices of it. -/
theorem mem_of_endpoints {vs : List V} {e : V × V} (h : endpoints vs = some e) :
    e.1 ∈ vs ∧ e.2 ∈ vs := by
  cases vs with
  | nil => cases h
  | cons v vs =>
    obtain rfl := Option.some.inj h
    refine ⟨List.mem_cons_self, ?_⟩
    show vs.getLastD v ∈ v :: vs
    rw [List.getLastD_eq_getLast?]
    cases hlast : vs.getLast? with
    | none => exact List.mem_cons_self
    | some w => exact List.mem_cons_of_mem _ (List.mem_of_getLast? hlast)

/-- A path of at least two vertices ends where it ends without its beginning. -/
theorem endpoints_cons_cons (v w : V) (vs : List V) :
    endpoints (v :: w :: vs) = (endpoints (w :: vs)).map fun e => (v, e.2) := by
  simp only [endpoints, List.getLastD_cons, Option.map_some]

/-- One more vertex is the new end. -/
theorem endpoints_concat {vs : List V} {first last : V} (h : endpoints vs = some (first, last))
    (v : V) : endpoints (vs ++ [v]) = some (first, v) := by
  cases vs with
  | nil => cases h
  | cons w vs =>
    obtain ⟨rfl, -⟩ := Prod.mk.inj (Option.some.inj h)
    simp [endpoints]

/-- One more vertex adds the edge from the end so far. -/
theorem path_concat {vs : List V} {first last : V} (h : endpoints vs = some (first, last)) (v : V) :
    path (vs ++ [v]) = path vs ++ [(last, v)] := by
  induction vs generalizing first with
  | nil => cases h
  | cons w vs ih =>
    cases vs with
    | nil =>
      obtain ⟨-, rfl⟩ := Prod.mk.inj (Option.some.inj h)
      rfl
    | cons x vs =>
      rw [endpoints_cons_cons] at h
      obtain ⟨⟨y, z⟩, htail, heq⟩ := Option.map_eq_some_iff.mp h
      obtain ⟨-, rfl⟩ := Prod.mk.inj heq
      show (w, x) :: path (x :: vs ++ [v]) = (w, x) :: path (x :: vs) ++ [(z, v)]
      rw [ih htail, List.cons_append]

/-- The ring through a path has one edge more, from its end to its beginning. -/
theorem Ring.edges_eq {vs : List V} {first last : V} (h : endpoints vs = some (first, last)) :
    Ring.edges vs = path vs ++ [(last, first)] := by
  -- the induction drops vertices at the beginning, so the edge back leads anywhere
  have hback : ∀ (v : V) (vs : List V) (target : V),
      (v :: vs).zip (vs ++ [target]) = path (v :: vs) ++ [(vs.getLastD v, target)] := by
    intro v vs target
    induction vs generalizing v with
    | nil => rfl
    | cons w vs ih =>
      show (v, w) :: (w :: vs).zip (vs ++ [target]) = (v, w) :: path (w :: vs) ++ [(_, target)]
      rw [ih, List.getLastD_cons, List.cons_append]
  cases vs with
  | nil => cases h
  | cons v vs =>
    obtain ⟨rfl, rfl⟩ := Prod.mk.inj (Option.some.inj h)
    exact hback v vs v

/-- A path through a vertex is the path up to it and the path from it on. -/
theorem path_append_cons (xs : List V) (v : V) (ys : List V) :
    path (xs ++ v :: ys) = path (xs ++ [v]) ++ path (v :: ys) := by
  induction xs with
  | nil => rfl
  | cons x xs ih =>
    cases xs with
    | nil => rfl
    | cons w xs =>
      show (x, w) :: path (w :: xs ++ v :: ys) = (x, w) :: path (w :: xs ++ [v]) ++ path (v :: ys)
      rw [ih]
      rfl

/-- The ring through some vertices is the path that comes back to the first of them. -/
theorem Ring.edges_cons (v : V) (vs : List V) : Ring.edges (v :: vs) = path (v :: vs ++ [v]) := by
  have hends : endpoints (v :: vs) = some (v, vs.getLastD v) := rfl
  rw [Ring.edges_eq hends, path_concat hends]

/-- The edges of a path lead between its vertices. -/
theorem mem_of_mem_path {vs : List V} {e : V × V} (h : e ∈ path vs) : e.1 ∈ vs ∧ e.2 ∈ vs := by
  obtain ⟨hfrom, hto⟩ := List.of_mem_zip h
  exact ⟨hfrom, List.mem_of_mem_tail hto⟩

/-! ### Parity -/

section crosses

variable {α : Type} [Add α] [Sub α] [Mul α] [Div α] [BEq α] [LT α] [DecidableLT α] [LE α]
  [DecidableLE α]

/-- Whether the ray from `p` meets an odd number of edges. -/
def Point.crosses (p : Point α) (es : List (Point α × Point α)) : Bool :=
  es.countP (fun e => p.meets e.1 e.2) % 2 == 1

/-- The parity of a sum. -/
theorem odd_add (m n : Nat) : ((m + n) % 2 == 1) = ((m % 2 == 1) ^^ (n % 2 == 1)) := by
  rcases Nat.mod_two_eq_zero_or_one m with hm | hm <;>
    rcases Nat.mod_two_eq_zero_or_one n with hn | hn <;>
    rw [Nat.add_mod, hm, hn] <;> rfl

@[simp] theorem Point.crosses_nil (p : Point α) : p.crosses [] = false := rfl

@[simp] theorem Point.crosses_singleton (p : Point α) (e : Point α × Point α) :
    p.crosses [e] = p.meets e.1 e.2 := by
  unfold Point.crosses
  rw [List.countP_singleton]
  cases p.meets e.1 e.2 <;> rfl

@[simp] theorem Point.crosses_append (p : Point α) (es fs : List (Point α × Point α)) :
    p.crosses (es ++ fs) = (p.crosses es ^^ p.crosses fs) := by
  unfold Point.crosses
  rw [List.countP_append, odd_add]

theorem Point.crosses_cons (p : Point α) (e : Point α × Point α) (es : List (Point α × Point α)) :
    p.crosses (e :: es) = (p.meets e.1 e.2 ^^ p.crosses es) := by
  rw [← List.singleton_append, crosses_append, crosses_singleton]

theorem Ring.contains_eq_crosses (vs : List (Point α)) (p : Point α) :
    Ring.contains vs p = p.crosses (Ring.edges vs) := rfl

end crosses

end Airspace
