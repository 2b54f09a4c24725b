import Airspace.Plane.Region
import Airspace.Proofs.Path

/-! # Sweeps over a region

  The one pass over a region forgets everything at a separator. So the hits on a list
  that ends with a separator are counted apart from those on what follows, and a block of
  vertices at the end of a buffer is tested as if nothing stood before it. On a stretch
  without a separator inside, the pass counts the edges of the ring through it.
-/

namespace Airspace.Region

variable {α : Type} [OfNat α 0] [Add α] [Sub α] [Mul α] [Div α] [BEq α] [LT α] [DecidableLT α]
  [LE α] [DecidableLE α]

variable {p z : Point α}

/-! ### Separators -/

@[simp] theorem sweep_separator (hz : z.isNull = true) (first : Option (Point α)) :
    sweep p first [z] = 0 := by
  simp only [sweep, hz, ↓reduceIte]

/-- After a separator a sweep starts afresh. -/
theorem sweep_separator_cons (hz : z.isNull = true) (first : Option (Point α))
    (vs : List (Point α)) : sweep p first (z :: vs) = sweep p none vs := by
  cases vs with
  | nil => exact sweep_separator hz first
  | cons v vs => simp only [sweep, hz, ↓reduceIte]

theorem sweep_cons_cons (first : Option (Point α)) (v w : Point α) (vs : List (Point α)) :
    sweep p first (v :: w :: vs) =
      if v.isNull then sweep p none (w :: vs)
      else if w.isNull then closingHit p v first + sweep p first (w :: vs)
      else hit p v w + sweep p (some (first.getD v)) (w :: vs) := rfl

/-- The hits before and after a separator are counted apart. -/
theorem sweep_append (hz : z.isNull = true) (first : Option (Point α)) (xs ys : List (Point α)) :
    sweep p first (xs ++ z :: ys) = sweep p first (xs ++ [z]) + sweep p none ys := by
  induction xs generalizing first with
  | nil =>
    show sweep p first (z :: ys) = sweep p first [z] + sweep p none ys
    rw [sweep_separator_cons hz, sweep_separator hz, Nat.zero_add]
  | cons x xs ih =>
    -- a sweep looks at two vertices at a time, and the second one may be the separator
    obtain ⟨w, ws, hsplit⟩ : ∃ w, ∃ ws : List (Point α) → List (Point α),
        ∀ tail, xs ++ z :: tail = w :: ws tail := by
      cases xs with
      | nil => exact ⟨z, id, fun _ => rfl⟩
      | cons w xs => exact ⟨w, fun tail => xs ++ z :: tail, fun _ => rfl⟩
    rw [hsplit, hsplit] at ih
    rw [List.cons_append, List.cons_append, hsplit, hsplit, sweep_cons_cons, sweep_cons_cons,
      ih, ih, ih]
    split
    · rfl
    · split <;> rw [Nat.add_assoc]

/-! ### Stretches -/

/-- Once its beginning is known, a stretch up to a separator counts its own edges and the
    edge from its end back to the beginning. -/
theorem sweep_stretch (hz : z.isNull = true) {vs : List (Point α)} {v last : Point α}
    (hends : endpoints vs = some (v, last)) (hvs : ∀ w ∈ vs, w.isNull = false) (first : Point α) :
    sweep p (some first) (vs ++ [z]) =
      (path vs).countP (fun e => p.meets e.1 e.2) + hit p last first := by
  induction vs generalizing v with
  | nil => cases hends
  | cons w vs ih =>
    have hw := hvs w List.mem_cons_self
    cases vs with
    | nil =>
      obtain ⟨-, rfl⟩ := Prod.mk.inj (Option.some.inj hends)
      simp [sweep, hw, hz, closingHit, path]
    | cons x vs =>
      have hx := hvs x (List.mem_cons_of_mem _ List.mem_cons_self)
      rw [endpoints_cons_cons] at hends
      obtain ⟨⟨y, l⟩, htail, heq⟩ := Option.map_eq_some_iff.mp hends
      obtain ⟨-, rfl⟩ := Prod.mk.inj heq
      have hrest := ih htail fun u hu => hvs u (List.mem_cons_of_mem _ hu)
      show sweep p (some first) (w :: x :: (vs ++ [z])) = _
      simp only [sweep, hw, hx, Bool.false_eq_true, ↓reduceIte, Option.getD_some]
      rw [← List.cons_append, hrest]
      show _ = ((w, x) :: path (x :: vs)).countP _ + hit p l first
      rw [List.countP_cons]
      simp only [hit]
      omega

/-- A stretch of at least two vertices up to a separator counts the edges of the ring
    through it. -/
theorem sweep_ring (hz : z.isNull = true) {v w : Point α} {vs : List (Point α)}
    (hvs : ∀ u ∈ v :: w :: vs, u.isNull = false) :
    sweep p none (v :: w :: vs ++ [z]) = Ring.hits p (v :: w :: vs) := by
  have hv := hvs v List.mem_cons_self
  have hw := hvs w (List.mem_cons_of_mem _ List.mem_cons_self)
  have hends : endpoints (w :: vs) = some (w, vs.getLastD w) := rfl
  have hrest := sweep_stretch (p := p) hz hends
    (fun u hu => hvs u (List.mem_cons_of_mem _ hu)) v
  have hring : endpoints (v :: w :: vs) = some (v, vs.getLastD w) := endpoints_cons_cons v w vs
  rw [List.cons_append, List.cons_append, sweep_cons_cons, hv, hw, Ring.hits,
    Ring.edges_eq hring, List.countP_append]
  show hit p v w + sweep p (some v) (w :: vs ++ [z]) =
    ((v, w) :: path (w :: vs)).countP _ + _
  rw [hrest, List.countP_cons, List.countP_singleton]
  simp only [hit]
  omega

/-! ### Blocks -/

/-- A list that is empty or ends with a separator. -/
def Terminated (vs : List (Point α)) : Prop :=
  vs = [] ∨ ∃ xs z, z.isNull = true ∧ vs = xs ++ [z]

theorem sweep_terminated {vs : List (Point α)} (h : Terminated vs) (rest : List (Point α)) :
    sweep p none (vs ++ rest) = sweep p none vs + sweep p none rest := by
  rcases h with rfl | ⟨xs, z, hz, rfl⟩
  · show sweep p none rest = 0 + sweep p none rest
    rw [Nat.zero_add]
  · rw [List.append_assoc, List.singleton_append, sweep_append hz]

/-- The hits on terminated blocks, one after the other, are odd together if those of an odd
    number of the blocks are. -/
theorem odd_sweep_flatten {blocks : List (List (Point α))} (h : ∀ b ∈ blocks, Terminated b) :
    (sweep p none blocks.flatten % 2 == 1) =
      (blocks.countP (fun b => sweep p none b % 2 == 1) % 2 == 1) := by
  induction blocks with
  | nil => rfl
  | cons b blocks ih =>
    have htail := ih fun c hc => h c (List.mem_cons_of_mem _ hc)
    rw [List.flatten_cons, sweep_terminated (h b List.mem_cons_self), odd_add, htail,
      List.countP_cons, odd_add, Bool.xor_comm]
    congr 1
    by_cases hb : (sweep p none b % 2 == 1) = true
    · rw [if_pos hb, hb]
      rfl
    · rw [if_neg hb, Bool.eq_false_iff.mpr hb]
      rfl

/-- Of a list of at least three vertices, the parity of all hits decides. -/
theorem contains_eq {vs : List (Point α)} (h : 3 ≤ vs.length) (p : Point α) :
    contains vs p 0 = (sweep p none vs % 2 == 1) := by
  have hlong : ¬ (vs.length < 3 || vs.length ≤ 0) = true := by
    simp only [Bool.or_eq_true, decide_eq_true_eq]
    omega
  rw [contains, if_neg hlong, List.drop_zero]

/-- A block at the end of a buffer is tested as if it stood alone. -/
theorem contains_block (before : List (Point α)) {block : List (Point α)}
    (h : 3 ≤ block.length) (p : Point α) :
    contains (before ++ block) p before.length = contains block p 0 := by
  have hlong : ¬ ((before ++ block).length < 3 ||
      (before ++ block).length ≤ before.length) = true := by
    simp only [List.length_append, Bool.or_eq_true, decide_eq_true_eq]
    omega
  rw [contains_eq h, contains, if_neg hlong, List.drop_left]

end Airspace.Region
