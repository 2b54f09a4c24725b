import Airspace.Buffer

/-! # Both endings

  A computation that a fault may end leaves a state in either case. What is to be known of
  it is said for both endings at once, and put together along the computation. Buffers are
  the first case: a buffer that was made with a limit keeps within it, and it takes no more
  only for this one reason.
-/

namespace Airspace

/-- A computation ends as asked, whichever way it ends: with a value and a state for which
    `value` holds, or with a fault and a state for which `fault` does. -/
def Ensures {ε σ α : Type} (x : EStateM ε σ α) (s : σ) (value : α → σ → Prop)
    (fault : ε → σ → Prop) : Prop :=
  match x s with
  | .ok a s' => value a s'
  | .error e s' => fault e s'

namespace Ensures

variable {ε σ α β : Type} {x : EStateM ε σ α} {s : σ} {value value' : α → σ → Prop}
  {fault fault' : ε → σ → Prop}

theorem intro (hok : ∀ a s', x s = .ok a s' → value a s')
    (herror : ∀ e s', x s = .error e s' → fault e s') : Ensures x s value fault := by
  unfold Ensures
  cases hx : x s with
  | ok a s' => exact hok a s' hx
  | error e s' => exact herror e s' hx

theorem of_ok {a : α} {s' : σ} (h : Ensures x s value fault) (hx : x s = .ok a s') :
    value a s' := by
  unfold Ensures at h
  rw [hx] at h
  exact h

theorem of_error {e : ε} {s' : σ} (h : Ensures x s value fault) (hx : x s = .error e s') :
    fault e s' := by
  unfold Ensures at h
  rw [hx] at h
  exact h

theorem mono (h : Ensures x s value fault) (hvalue : ∀ a s', value a s' → value' a s')
    (hfault : ∀ e s', fault e s' → fault' e s') : Ensures x s value' fault' :=
  intro (fun a s' hx => hvalue a s' (h.of_ok hx)) fun e s' hx => hfault e s' (h.of_error hx)

theorem mono_ok (h : Ensures x s value fault) (hvalue : ∀ a s', value a s' → value' a s') :
    Ensures x s value' fault :=
  h.mono hvalue fun _ _ hfault => hfault

theorem mono_error (h : Ensures x s value fault) (hfault : ∀ e s', fault e s' → fault' e s') :
    Ensures x s value fault' :=
  h.mono (fun _ _ hvalue => hvalue) hfault

/-- What else is known of the values may be added. -/
theorem and_ok (h : Ensures x s value fault) (hok : ∀ a s', x s = .ok a s' → value' a s') :
    Ensures x s (fun a s' => value a s' ∧ value' a s') fault :=
  intro (fun a s' hx => ⟨h.of_ok hx, hok a s' hx⟩) fun _ _ hx => h.of_error hx

/-- What is known of a computation in two ways may be put together. -/
theorem and (h : Ensures x s value fault) (h' : Ensures x s value' fault') :
    Ensures x s (fun a s' => value a s' ∧ value' a s') (fun e s' => fault e s' ∧ fault' e s') :=
  intro (fun _ _ hx => ⟨h.of_ok hx, h'.of_ok hx⟩) fun _ _ hx => ⟨h.of_error hx, h'.of_error hx⟩

/-- A computation in two parts ends as asked if the first part ends as the second one
    needs it, or with a fault that is asked for already. -/
theorem bind {f : α → EStateM ε σ β} {after : β → σ → Prop} (hx : Ensures x s value fault)
    (hf : ∀ a s', value a s' → Ensures (f a) s' after fault) :
    Ensures (x >>= f) s after fault := by
  show match EStateM.bind x f s with
    | .ok a s' => after a s'
    | .error e s' => fault e s'
  unfold Ensures at hx
  unfold EStateM.bind
  cases hend : x s with
  | ok a s' =>
    rw [hend] at hx
    exact hf a s' hx
  | error e s' =>
    rw [hend] at hx
    exact hx

/-- The same where more is known of the faults of the first part than is asked for. -/
theorem seq {f : α → EStateM ε σ β} {after : β → σ → Prop} (hx : Ensures x s value fault')
    (hfault : ∀ e s', fault' e s' → fault e s')
    (hf : ∀ a s', value a s' → Ensures (f a) s' after fault) :
    Ensures (x >>= f) s after fault :=
  (hx.mono_error hfault).bind hf

/-- A first part that is known to give a value may be left out. -/
theorem bind_of_ok {f : α → EStateM ε σ β} {after : β → σ → Prop} {a : α} {t : σ}
    (hx : x s = .ok a t) (hf : Ensures (f a) t after fault) :
    Ensures (x >>= f) s after fault := by
  have hfirst : Ensures x s (fun a₁ s₁ => a₁ = a ∧ s₁ = t) fault := by
    unfold Ensures
    rw [hx]
    exact ⟨rfl, rfl⟩
  refine hfirst.bind ?_
  rintro _ _ ⟨rfl, rfl⟩
  exact hf

/-- A fault in the first part ends the whole. -/
theorem bind_of_error {f : α → EStateM ε σ β} {after : β → σ → Prop} {e : ε} {s' : σ}
    (hx : x s = .error e s') (he : fault e s') : Ensures (x >>= f) s after fault := by
  have hfirst : Ensures x s (fun _ _ => False) fault := by
    unfold Ensures
    rw [hx]
    exact he
  exact hfirst.bind fun _ _ h => h.elim

end Ensures

/-! ### Buffers within their limit -/

/-- A buffer that was made with some first capacity and limit, and keeps within them. -/
structure Buffer.Sound {α : Type} (first limit : Nat) (b : Buffer α) : Prop where
  initialCapacity_eq : b.initialCapacity = first
  limit_eq : b.limit = limit
  size_le : b.size ≤ limit

namespace Buffer

variable {α : Type} {first limit : Nat} {b b' : Buffer α}

theorem sound_new (initialCapacity limit : Nat) :
    (new initialCapacity limit : Buffer α).Sound (max 1 (min initialCapacity (max limit 1)))
      limit :=
  ⟨rfl, rfl, Nat.zero_le limit⟩

theorem Sound.reset (h : b.Sound first limit) : b.reset.Sound first limit :=
  ⟨h.initialCapacity_eq, h.limit_eq, Nat.zero_le limit⟩

theorem Sound.release (h : b.Sound first limit) : b.release.Sound first limit :=
  ⟨h.initialCapacity_eq, h.limit_eq, Nat.zero_le limit⟩

theorem Sound.replace (h : b.Sound first limit) (i : Nat) (a : α) :
    (b.replace i a).Sound first limit := by
  refine ⟨h.initialCapacity_eq, h.limit_eq, ?_⟩
  rw [← length_toList, toList_replace, List.length_set, length_toList]
  exact h.size_le

/-- After a reset a buffer is as it was made. -/
theorem Sound.reset_eq (h : b.Sound (max 1 (min first (max limit 1))) limit) :
    b.reset = new first limit := by
  simp only [Buffer.reset, new, h.initialCapacity_eq, h.limit_eq]

theorem Sound.of_reserve {n : Nat} (h : b.Sound first limit) (hroom : b.reserve n = .ok b') :
    b'.Sound first limit ∧ b.size + n ≤ limit ∧ b'.size = b.size := by
  obtain ⟨hfits, rfl⟩ := reserve_eq_ok hroom
  rw [h.limit_eq] at hfits
  exact ⟨⟨h.initialCapacity_eq, h.limit_eq, h.size_le⟩, hfits, rfl⟩

theorem Sound.of_push {a : α} (h : b.Sound first limit) (hpush : b.push a = .ok b') :
    b'.Sound first limit ∧ b'.size = b.size + 1 := by
  unfold push at hpush
  split at hpush
  · next room hroom =>
    obtain rfl := Except.ok.inj hpush
    obtain ⟨hsound, hfits, hsize⟩ := h.of_reserve hroom
    have hpushed : (room.items.push a).size = b.size + 1 := by
      rw [Array.size_push, ← hsize]
      rfl
    refine ⟨⟨hsound.initialCapacity_eq, hsound.limit_eq, ?_⟩, hpushed⟩
    exact Nat.le_trans (Nat.le_of_eq hpushed) hfits
  · cases hpush

/-- A push fails only at the limit. -/
theorem Sound.of_push_error {a : α} {fault : BufferFault} (h : b.Sound first limit)
    (hpush : b.push a = .error fault) : fault = .limitReached limit ∧ limit < b.size + 1 := by
  unfold push at hpush
  split at hpush
  · cases hpush
  · next tight =>
    obtain rfl := Except.error.inj hpush
    obtain ⟨htight, rfl⟩ := reserve_eq_error tight
    rw [h.limit_eq] at htight ⊢
    exact ⟨rfl, htight⟩

end Buffer

end Airspace
