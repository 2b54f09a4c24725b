/-! # Bounded buffers

  A buffer holds the records kept from a table. It has a limit that it never
  grows past, and a capacity that starts at a given size and doubles as often as
  needed, never past the limit either. A released buffer has no capacity at all
  until it is reset, and still grows when something is put into it.
-/

namespace Airspace

/-- Why a buffer takes no more. -/
inductive BufferFault
  /-- The items would not fit into the limit. -/
  | limitReached (limit : Nat)
  /-- No memory was left for the capacity asked for. -/
  | outOfMemory (requested : Nat)
deriving DecidableEq

/-- What a buffer fault says. -/
def BufferFault.message : BufferFault → String
  | limitReached limit => "store reached its ceiling of " ++ toString limit ++ " entries"
  | outOfMemory requested => "store could not grow to " ++ toString requested ++ " entries"

/-- A list of items with a capacity that doubles up to a limit. -/
structure Buffer (α : Type) where
  /-- The items, oldest first. -/
  items : Array α
  /-- How many items fit before the buffer grows. -/
  capacity : Nat
  /-- The capacity after a reset. -/
  initialCapacity : Nat
  /-- How many items the buffer may ever hold. -/
  limit : Nat

namespace Buffer

variable {α : Type}

/-- An empty buffer. Its first capacity is at least one and at most the limit, or
    one where the limit is zero. -/
def new (initialCapacity limit : Nat) : Buffer α :=
  let initialCapacity := max 1 (min initialCapacity (max limit 1))
  ⟨#[], initialCapacity, initialCapacity, limit⟩

/-- The number of items. -/
def size (b : Buffer α) : Nat := b.items.size

/-- The items as a list. -/
def toList (b : Buffer α) : List α := b.items.toList

/-- The capacity after one growth: twice as much, at least one, at most the limit. -/
def doubled (limit capacity : Nat) : Nat := max 1 (min (2 * capacity) limit)

/-- The capacity after as many growths as it takes to hold `needed` items, which
    have to fit into the limit. -/
def grown (limit needed capacity : Nat) : Nat :=
  if capacity < needed ∧ needed ≤ limit then grown limit needed (doubled limit capacity)
  else capacity
termination_by needed - capacity
decreasing_by
  simp only [doubled]
  omega

/-- Makes room for `n` more items. -/
@[inline] def reserve (b : Buffer α) (n : Nat) : Except BufferFault (Buffer α) :=
  if b.limit < b.size + n then .error (.limitReached b.limit)
  else .ok { b with capacity := grown b.limit (b.size + n) b.capacity }

/-- Puts an item at the end. -/
@[inline] def push (b : Buffer α) (a : α) : Except BufferFault (Buffer α) :=
  match b.reserve 1 with
  | .ok b => .ok { b with items := b.items.push a }
  | .error fault => .error fault

/-- Overwrites the item number `i`, if there is one. -/
def replace (b : Buffer α) (i : Nat) (a : α) : Buffer α :=
  { b with items := b.items.setIfInBounds i a }

/-- Drops every item and goes back to the first capacity. -/
def reset (b : Buffer α) : Buffer α :=
  { b with items := #[], capacity := b.initialCapacity }

/-- Drops every item and the capacity with them. -/
def release (b : Buffer α) : Buffer α :=
  { b with items := #[], capacity := 0 }

/-! ### The items after each operation -/

@[simp] theorem length_toList (b : Buffer α) : b.toList.length = b.size :=
  Array.length_toList

@[simp] theorem toList_new (initialCapacity limit : Nat) :
    (new initialCapacity limit : Buffer α).toList = [] := rfl

/-- Making room keeps the items, and there is room if they fit into the limit. -/
theorem reserve_eq_ok {b b' : Buffer α} {n : Nat} (h : b.reserve n = .ok b') :
    b.size + n ≤ b.limit ∧ b' = { b with capacity := grown b.limit (b.size + n) b.capacity } := by
  unfold reserve at h
  split at h
  · cases h
  · next fits => exact ⟨by omega, (Except.ok.inj h).symm⟩

/-- Making room fails only at the limit. -/
theorem reserve_eq_error {b : Buffer α} {n : Nat} {fault : BufferFault}
    (h : b.reserve n = .error fault) : b.limit < b.size + n ∧ fault = .limitReached b.limit := by
  unfold reserve at h
  split at h
  · next tight => exact ⟨tight, (Except.error.inj h).symm⟩
  · cases h

/-- A push adds its item at the end. -/
theorem toList_of_push {b b' : Buffer α} {a : α} (h : b.push a = .ok b') :
    b'.toList = b.toList ++ [a] := by
  unfold push at h
  split at h
  · next room made =>
    obtain ⟨-, rfl⟩ := reserve_eq_ok made
    obtain rfl := Except.ok.inj h
    simp [toList]
  · cases h

@[simp] theorem toList_replace (b : Buffer α) (i : Nat) (a : α) :
    (b.replace i a).toList = b.toList.set i a :=
  Array.toList_setIfInBounds

@[simp] theorem toList_reset (b : Buffer α) : b.reset.toList = [] := rfl

@[simp] theorem toList_release (b : Buffer α) : b.release.toList = [] := rfl

end Buffer

end Airspace
