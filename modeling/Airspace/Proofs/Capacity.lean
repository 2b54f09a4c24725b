import Mathlib.Algebra.Group.Nat.Defs
import Mathlib.Order.Bounds.Basic
import Airspace.Proofs.Endings

/-! # Capacities

  A buffer is a list that never gets longer than its limit. How large its capacity is depends
  on two numbers only: the capacity that it started from when it was made, reset or released
  last, and the largest size that room was made for since. It makes no difference in which
  portions the room was asked for, since the capacity goes up the same steps in any case.

  The ledger of a buffer holds these two numbers and the items as a plain list, without a word
  about how a buffer grows. Each request keeps buffer and ledger in step, and so does a run.
-/

namespace Airspace.Buffer

variable {α : Type}

/-! ### Requests -/

/-- What may be asked of a buffer. -/
inductive Request (α : Type)
  /-- To take one more item. -/
  | push (a : α)
  /-- To make room for more items. -/
  | reserve (n : Nat)
  /-- To overwrite an item. -/
  | replace (i : Nat) (a : α)
  /-- To begin again with the first capacity. -/
  | reset
  /-- To give up items and capacity. -/
  | release

/-- What comes of a request: the buffer that it leads to, or a fault. -/
def obey (b : Buffer α) : Request α → Except BufferFault (Buffer α)
  | .push a => b.push a
  | .reserve n => b.reserve n
  | .replace i a => .ok (b.replace i a)
  | .reset => .ok b.reset
  | .release => .ok b.release

/-- The buffer after a request. A request that is refused leaves it as it is. -/
def after (b : Buffer α) (r : Request α) : Buffer α :=
  match b.obey r with
  | .ok b' => b'
  | .error _ => b

/-- What a buffer should come to. -/
structure Ledger (α : Type) where
  /-- The items, as a plain list. -/
  items : List α
  /-- The capacity when the buffer was made, reset or released last. -/
  start : Nat
  /-- The largest size that room was made for since. -/
  largest : Nat

/-- The ledger after a request. What would lead to a size beyond the limit is refused. -/
def Ledger.after (first limit : Nat) (l : Ledger α) : Request α → Ledger α
  | .push a =>
    let size := l.items.length + 1
    if size ≤ limit then ⟨l.items ++ [a], l.start, max l.largest size⟩ else l
  | .reserve n =>
    let size := l.items.length + n
    if size ≤ limit then { l with largest := max l.largest size } else l
  | .replace i a => { l with items := l.items.set i a }
  | .reset => ⟨[], first, 0⟩
  | .release => ⟨[], 0, 0⟩

/-! ### Growth -/

variable {limit needed c m n : Nat}

theorem grown_of_le (h : needed ≤ c) : grown limit needed c = c := by
  rw [grown, if_neg]
  omega

theorem grown_of_lt (h : c < needed) (hlimit : needed ≤ limit) :
    grown limit needed c = grown limit needed (doubled limit c) := by
  rw [grown, if_pos ⟨h, hlimit⟩]

/-- Growth comes in rounds, and goes on only as long as the items do not fit. -/
theorem grown_rounds (c : Nat) (hlimit : needed ≤ limit) :
    ∃ rounds, grown limit needed c = (doubled limit)^[rounds] c ∧
      needed ≤ (doubled limit)^[rounds] c ∧ ∀ i < rounds, (doubled limit)^[i] c < needed := by
  -- one case for each way a round can find the capacity: too small, or high enough
  induction c using grown.induct limit needed with
  | case1 c hgoes ih =>
    obtain ⟨rounds, hgrown, hfits, hbefore⟩ := ih
    refine ⟨rounds + 1, ?_, hfits, ?_⟩
    · rw [grown_of_lt hgoes.1 hlimit, hgrown]
      rfl
    · intro i hi
      cases i with
      | zero => exact hgoes.1
      | succ i => exact hbefore i (Nat.lt_of_succ_lt_succ hi)
  | case2 c hstops =>
    have hfits : needed ≤ c := by omega
    exact ⟨0, grown_of_le hfits, hfits, fun i hi => absurd hi (Nat.not_lt_zero i)⟩

theorem le_grown (c : Nat) (hlimit : needed ≤ limit) : needed ≤ grown limit needed c := by
  obtain ⟨rounds, hgrown, hfits, -⟩ := grown_rounds c hlimit
  rw [hgrown]
  exact hfits

/-- Growth does not lead beyond the limit, except to the one item that a capacity may begin
    with. -/
theorem grown_le (hc : c ≤ max limit 1) : grown limit needed c ≤ max limit 1 := by
  induction c using grown.induct limit needed with
  | case1 c hgoes ih =>
    rw [grown_of_lt hgoes.1 hgoes.2]
    apply ih
    unfold doubled
    omega
  | case2 c hstops =>
    rw [grown, if_neg hstops]
    exact hc

/-- Making room in two portions comes to the same as making it at once. -/
theorem grown_grown (c : Nat) (hm : m ≤ limit) (hn : n ≤ limit) :
    grown limit n (grown limit m c) = grown limit (max m n) c := by
  have hmax : max m n ≤ limit := Nat.max_le.mpr ⟨hm, hn⟩
  induction c using grown.induct limit m with
  | case1 c hgoes ih =>
    have hlarger : c < max m n := Nat.lt_of_lt_of_le hgoes.1 (Nat.le_max_left m n)
    rw [grown_of_lt hgoes.1 hm, ih, grown_of_lt hlarger hmax]
  | case2 c hstops =>
    have hfits : m ≤ c := by omega
    rw [grown_of_le hfits]
    -- either portion fits already, or the second one is the larger of the two
    by_cases hn' : n ≤ c
    · rw [grown_of_le hn', grown_of_le (Nat.max_le.mpr ⟨hfits, hn'⟩)]
    · rw [Nat.max_eq_right (by omega)]

/-! ### The steps of a capacity -/

/-- The capacity after some rounds. -/
theorem iterate_doubled (hc : 0 < c) (hlimit : c ≤ limit) (k : Nat) :
    (doubled limit)^[k] c = min (2 ^ k * c) limit := by
  induction k with
  | zero =>
    show c = min (2 ^ 0 * c) limit
    omega
  | succ k ih =>
    have hpositive : 0 < 2 ^ k * c := Nat.mul_pos (Nat.two_pow_pos k) hc
    have htwice : 2 ^ (k + 1) * c = 2 * (2 ^ k * c) := by rw [Nat.pow_succ']; exact Nat.mul_assoc ..
    rw [Function.iterate_succ_apply', ih, htwice]
    unfold doubled
    omega

/-- Growth stops at the first step that is high enough. -/
theorem isLeast_grown (hc : 0 < c) (hlimit : c ≤ limit) (hneeded : needed ≤ limit) :
    IsLeast {m | needed ≤ m ∧ ∃ k, m = min (2 ^ k * c) limit} (grown limit needed c) := by
  obtain ⟨rounds, hgrown, hfits, hbefore⟩ := grown_rounds c hneeded
  rw [hgrown]
  refine ⟨⟨hfits, rounds, iterate_doubled hc hlimit rounds⟩, ?_⟩
  rintro _ ⟨hm, k, rfl⟩
  -- the steps go up, and all those before the last round are too low
  have hlater : rounds ≤ k := by
    by_contra hearlier
    have hlow := hbefore k (by omega)
    rw [iterate_doubled hc hlimit] at hlow
    omega
  have hsteps : 2 ^ rounds * c ≤ 2 ^ k * c :=
    Nat.mul_le_mul_right c (Nat.pow_le_pow_right (by decide) hlater)
  rw [iterate_doubled hc hlimit]
  omega

/-- Making room for `needed` items leads from the capacity `c` to the capacity `c'`. It is the
    same if the items fit already, and else the least of the steps `c`, `2 * c`, `4 * c` and so
    on that they fit into, no step being higher than the limit. From no capacity at all the
    steps are 1, 2, 4 and so on. -/
def LeadsTo (limit c needed c' : Nat) : Prop :=
  if needed ≤ c then c' = c
  else IsLeast {m | needed ≤ m ∧ ∃ k, m = min (2 ^ k * max c 1) limit} c'

theorem leadsTo_grown (hc : c ≤ max limit 1) (hneeded : needed ≤ limit) :
    LeadsTo limit c needed (grown limit needed c) := by
  unfold LeadsTo
  split
  · next hfits => exact grown_of_le hfits
  · next htight =>
    -- the first round without a capacity leads to 1
    have hone : grown limit needed c = grown limit needed (max c 1) := by
      by_cases hnone : c = 0
      · subst hnone
        rw [grown_of_lt (by omega) hneeded]
        rfl
      · rw [Nat.max_eq_left (by omega)]
    rw [hone]
    exact isLeast_grown (by omega) (by omega) hneeded

/-- The rounds in which a capacity grows from `c` to `c'` while the buffer holds `size` items.
    A round begins only if there is need for it, so that its upper bound, the limit, is not
    below its lower bound 1, and the memory that it asks for beyond the items there are is
    never a negative number. There is a last round. -/
def GrowsInRounds (limit size needed c c' : Nat) : Prop :=
  ∃ rounds, c' = (doubled limit)^[rounds] c ∧ needed ≤ c' ∧
    ∀ i < rounds, (doubled limit)^[i] c < needed ∧ 1 ≤ limit ∧ size ≤ (doubled limit)^[i + 1] c

theorem le_doubled {size : Nat} (hc : size ≤ c) (hlimit : size ≤ limit) :
    size ≤ doubled limit c := by
  unfold doubled
  omega

theorem le_iterate_doubled {size : Nat} (hc : size ≤ c) (hlimit : size ≤ limit) (k : Nat) :
    size ≤ (doubled limit)^[k] c := by
  induction k with
  | zero => exact hc
  | succ k ih =>
    rw [Function.iterate_succ_apply']
    exact le_doubled ih hlimit

theorem growsInRounds_grown {size : Nat} (hc : size ≤ c) (hsize : size ≤ needed)
    (hneeded : needed ≤ limit) : GrowsInRounds limit size needed c (grown limit needed c) := by
  obtain ⟨rounds, hgrown, hfits, hbefore⟩ := grown_rounds c hneeded
  refine ⟨rounds, hgrown, hgrown ▸ hfits, fun i hi => ?_⟩
  have hlow := hbefore i hi
  exact ⟨hlow, by omega, le_iterate_doubled hc (by omega) (i + 1)⟩

/-! ### Buffer and ledger in step -/

section

variable {first : Nat} {b : Buffer α} {l : Ledger α}

theorem reserve_of_fits (h : b.size + n ≤ b.limit) :
    b.reserve n = .ok { b with capacity := grown b.limit (b.size + n) b.capacity } :=
  if_neg (Nat.not_lt.mpr h)

theorem reserve_of_tight (h : b.limit < b.size + n) :
    b.reserve n = .error (.limitReached b.limit) :=
  if_pos h

theorem push_of_fits (a : α) (h : b.size + 1 ≤ b.limit) :
    b.push a = .ok { b with
      items := b.items.push a
      capacity := grown b.limit (b.size + 1) b.capacity } := by
  rw [push, reserve_of_fits h]

theorem push_of_tight (a : α) (h : b.limit < b.size + 1) :
    b.push a = .error (.limitReached b.limit) := by
  rw [push, reserve_of_tight h]

/-- A buffer with its ledger. -/
structure InStep (first limit : Nat) (b : Buffer α) (l : Ledger α) : Prop where
  sound : b.Sound first limit
  items : b.toList = l.items
  /-- The capacity is as if all room had been made at once. -/
  capacity : b.capacity = grown limit l.largest l.start
  length_le : l.items.length ≤ l.largest
  largest_le : l.largest ≤ limit
  start_le : l.start ≤ max limit 1

/-- The capacity that a buffer is made with. -/
def firstCapacity (initialCapacity limit : Nat) : Nat := max 1 (min initialCapacity (max limit 1))

theorem firstCapacity_le (initialCapacity limit : Nat) :
    firstCapacity initialCapacity limit ≤ max limit 1 := by
  unfold firstCapacity
  omega

/-- An empty buffer begins a ledger with the capacity that it has. -/
theorem inStep_empty (hs : b.Sound first limit) (hempty : b.toList = [])
    (hle : b.capacity ≤ max limit 1) : InStep first limit b ⟨[], b.capacity, 0⟩ := by
  refine ⟨hs, hempty, ?_, Nat.le_refl 0, Nat.zero_le limit, hle⟩
  rw [grown_of_le (Nat.zero_le b.capacity)]

theorem inStep_new (initialCapacity limit : Nat) :
    InStep (firstCapacity initialCapacity limit) limit (new initialCapacity limit : Buffer α)
      ⟨[], firstCapacity initialCapacity limit, 0⟩ :=
  inStep_empty (sound_new initialCapacity limit) rfl (firstCapacity_le initialCapacity limit)

theorem InStep.size_eq (h : InStep first limit b l) : b.size = l.items.length := by
  rw [← length_toList, h.items]

theorem InStep.size_le_capacity (h : InStep first limit b l) : b.size ≤ b.capacity := by
  have hroom := le_grown l.start h.largest_le
  have hlength := h.length_le
  rw [h.size_eq, h.capacity]
  omega

theorem InStep.capacity_le (h : InStep first limit b l) : b.capacity ≤ max limit 1 := by
  rw [h.capacity]
  exact grown_le h.start_le

/-- Room for more items is noted in the ledger as the size that they lead to. -/
theorem InStep.capacity_grown (h : InStep first limit b l) (hfits : b.size + n ≤ limit) :
    grown limit (b.size + n) b.capacity = grown limit (max l.largest (b.size + n)) l.start := by
  rw [h.capacity, grown_grown l.start h.largest_le hfits]

theorem InStep.push (h : InStep first limit b l) (a : α) :
    InStep first limit (b.after (.push a)) (l.after first limit (.push a)) := by
  obtain ⟨-, rfl, -⟩ := h.sound
  simp only [Buffer.after, obey, Ledger.after, ← h.size_eq]
  by_cases hfits : b.size + 1 ≤ b.limit
  · have hpush := push_of_fits a hfits
    rw [if_pos hfits, hpush]
    refine ⟨(h.sound.of_push hpush).1, ?_, h.capacity_grown hfits, ?_, ?_, h.start_le⟩
    · rw [toList_of_push hpush, h.items]
    · rw [List.length_append, List.length_singleton, h.size_eq]
      exact Nat.le_max_right _ _
    · exact Nat.max_le.mpr ⟨h.largest_le, hfits⟩
  · rw [if_neg hfits, push_of_tight a (by omega)]
    exact h

theorem InStep.reserve (h : InStep first limit b l) (n : Nat) :
    InStep first limit (b.after (.reserve n)) (l.after first limit (.reserve n)) := by
  obtain ⟨-, rfl, -⟩ := h.sound
  simp only [Buffer.after, obey, Ledger.after, ← h.size_eq]
  by_cases hfits : b.size + n ≤ b.limit
  · have hroom := reserve_of_fits hfits
    rw [if_pos hfits, hroom]
    exact ⟨(h.sound.of_reserve hroom).1, h.items, h.capacity_grown hfits,
      Nat.le_trans h.length_le (Nat.le_max_left _ _), Nat.max_le.mpr ⟨h.largest_le, hfits⟩,
      h.start_le⟩
  · rw [if_neg hfits, reserve_of_tight (by omega)]
    exact h

theorem InStep.replace (h : InStep first limit b l) (i : Nat) (a : α) :
    InStep first limit (b.after (.replace i a)) (l.after first limit (.replace i a)) := by
  refine ⟨h.sound.replace i a, ?_, h.capacity, ?_, h.largest_le, h.start_le⟩
  · show (b.replace i a).toList = l.items.set i a
    rw [toList_replace, h.items]
  · show (l.items.set i a).length ≤ l.largest
    rw [List.length_set]
    exact h.length_le

/-- A request is obeyed by both alike. -/
theorem InStep.after (h : InStep first limit b l) (hfirst : first ≤ max limit 1) (r : Request α) :
    InStep first limit (b.after r) (l.after first limit r) := by
  cases r with
  | push a => exact h.push a
  | reserve n => exact h.reserve n
  | replace i a => exact h.replace i a
  | reset =>
    obtain ⟨rfl, -, -⟩ := h.sound
    exact inStep_empty h.sound.reset rfl hfirst
  | release => exact inStep_empty h.sound.release rfl (Nat.zero_le _)

theorem InStep.afterAll (h : InStep first limit b l) (hfirst : first ≤ max limit 1)
    (rs : List (Request α)) :
    InStep first limit (rs.foldl Buffer.after b) (rs.foldl (Ledger.after first limit) l) := by
  induction rs generalizing b l with
  | nil => exact h
  | cons r rs ih => exact ih (h.after hfirst r)

end

/-! ### Bounded lists -/

/-- The capacity after room was made for more items. -/
structure MakesRoom (limit : Nat) (b : Buffer α) (n : Nat) (b' : Buffer α) : Prop where
  capacity : LeadsTo limit b.capacity (b.size + n) b'.capacity
  rounds : GrowsInRounds limit b.size (b.size + n) b.capacity b'.capacity

/-- A buffer is a bounded list, whatever was asked of it. Its size is within the limit and the
    capacity, and its items are those of a plain list. The capacity is the one that the largest
    size since the last start leads to from there, in however many portions room was made. What
    fits into the limit is granted, and the capacity grows to the first step that is high
    enough; what does not fit is refused and changes nothing. -/
theorem bounded_doubling (initialCapacity limit : Nat) (rs : List (Request α)) :
    let first := firstCapacity initialCapacity limit
    let b := rs.foldl Buffer.after (new initialCapacity limit : Buffer α)
    let l := rs.foldl (Ledger.after first limit) ⟨[], first, 0⟩
    (b.size ≤ limit ∧ b.size ≤ b.capacity ∧ b.capacity ≤ max limit 1) ∧
      b.toList = l.items ∧
      (b.capacity = grown limit l.largest l.start ∧
        LeadsTo limit l.start l.largest b.capacity) ∧
      (∀ n, if b.size + n ≤ limit then
          ∃ b', b.reserve n = .ok b' ∧ b'.toList = b.toList ∧ MakesRoom limit b n b'
        else b.reserve n = .error (.limitReached limit) ∧ b.after (.reserve n) = b) ∧
      ∀ a, if b.size + 1 ≤ limit then
          ∃ b', b.push a = .ok b' ∧ b'.toList = b.toList ++ [a] ∧ MakesRoom limit b 1 b'
        else b.push a = .error (.limitReached limit) ∧ b.after (.push a) = b := by
  intro first b l
  have h : InStep first limit b l :=
    (inStep_new initialCapacity limit).afterAll (firstCapacity_le initialCapacity limit) rs
  have hlimit : b.limit = limit := h.sound.limit_eq
  have hgrown : ∀ n, b.size + n ≤ limit →
      LeadsTo limit b.capacity (b.size + n) (grown b.limit (b.size + n) b.capacity) ∧
      GrowsInRounds limit b.size (b.size + n) b.capacity
        (grown b.limit (b.size + n) b.capacity) := by
    intro n hfits
    rw [hlimit]
    exact ⟨leadsTo_grown h.capacity_le hfits,
      growsInRounds_grown h.size_le_capacity (Nat.le_add_right _ n) hfits⟩
  refine ⟨⟨h.sound.size_le, h.size_le_capacity, h.capacity_le⟩, h.items, ⟨h.capacity, ?_⟩, ?_, ?_⟩
  · rw [h.capacity]
    exact leadsTo_grown h.start_le h.largest_le
  · intro n
    split
    · next hfits =>
      obtain ⟨hleads, hrounds⟩ := hgrown n hfits
      exact ⟨_, reserve_of_fits (hlimit ▸ hfits), rfl, hleads, hrounds⟩
    · next htight =>
      have hrefused : b.reserve n = .error (.limitReached limit) := by
        rw [reserve_of_tight (by omega), hlimit]
      refine ⟨hrefused, ?_⟩
      rw [Buffer.after, obey, hrefused]
  · intro a
    split
    · next hfits =>
      have hpush := push_of_fits a (hlimit ▸ hfits : b.size + 1 ≤ b.limit)
      obtain ⟨hleads, hrounds⟩ := hgrown 1 hfits
      exact ⟨_, hpush, toList_of_push hpush, hleads, hrounds⟩
    · next htight =>
      have hrefused : b.push a = .error (.limitReached limit) := by
        rw [push_of_tight a (by omega), hlimit]
      refine ⟨hrefused, ?_⟩
      rw [Buffer.after, obey, hrefused]

/-- Where no room is asked for, none is made. A released buffer then stays without a capacity,
    although the least of the steps 1, 2, 4, 8 that no items fit into is 1. -/
theorem reserve_none_of_released :
    let b : Buffer Int := (new 4 8).release
    ∃ b', b.reserve 0 = .ok b' ∧ b'.capacity = 0 ∧
      IsLeast {m | b.size + 0 ≤ m ∧ ∃ k, m = min (2 ^ k) 8} 1 := by
  refine ⟨_, reserve_of_fits (Nat.zero_le 8), grown_of_le (Nat.le_refl 0), ?_⟩
  refine ⟨⟨Nat.zero_le 1, 0, rfl⟩, ?_⟩
  rintro _ ⟨-, k, rfl⟩
  have hpositive := Nat.two_pow_pos k
  omega

end Airspace.Buffer
