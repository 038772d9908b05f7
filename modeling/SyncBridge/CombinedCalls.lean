import SyncBridge.AwaitPrograms

/-!
# Calls of two systems

A program written against one set of calls also runs where a second set is on offer.
Its calls become left calls of the sum, and the second system never hears of it. What
is known about the program is therefore known about the embedded one: observers and
footprints are read through the left calls alone.
-/

namespace CombinedCalls

open AwaitPrograms

universe u

variable {Op₁ Op₂ : Type} {Ans₁ : Op₁ → Type} {Ans₂ : Op₂ → Type} {ε α β : Type}

/-- Answers to the calls of either system. -/
@[reducible] def Either (Ans₁ : Op₁ → Type) (Ans₂ : Op₂ → Type) : Op₁ ⊕ Op₂ → Type
  | .inl op => Ans₁ op
  | .inr op => Ans₂ op

/-- The program with its calls as left calls. -/
def left : Prog Op₁ Ans₁ ε α → Prog (Op₁ ⊕ Op₂) (Either Ans₁ Ans₂) ε α
  | .done r => .done r
  | .await op k => .await (.inl op) fun r => left (k r)

/-- The program with its calls as right calls. -/
def right : Prog Op₂ Ans₂ ε α → Prog (Op₁ ⊕ Op₂) (Either Ans₁ Ans₂) ε α
  | .done r => .done r
  | .await op k => .await (.inr op) fun r => right (k r)

variable {σ : Type u} (m : Monitor (Op₁ ⊕ Op₂) (Either Ans₁ Ans₂) ε σ)

/-- An observer who sees left calls only. -/
def leftOf : Monitor Op₁ Ans₁ ε σ where
  may s op := m.may s (.inl op)
  next s op r s' := m.next s (.inl op) r s'

/-- An observer who sees right calls only. -/
def rightOf : Monitor Op₂ Ans₂ ε σ where
  may s op := m.may s (.inr op)
  next s op r s' := m.next s (.inr op) r s'

variable {m}

theorem obeys_left {post : σ → Except ε α → Prop} {s : σ} (p : Prog Op₁ Ans₁ ε α) :
    Obeys m post s (left p) ↔ Obeys (leftOf m) post s p := by
  induction p generalizing s with
  | done r => exact Iff.rfl
  | await op k ih =>
    constructor
    · intro h
      exact ⟨h.1, fun r s' next => (ih r).mp (h.2 r s' next)⟩
    · intro h
      exact ⟨h.1, fun r s' next => (ih r).mpr (h.2 r s' next)⟩

theorem obeys_right {post : σ → Except ε α → Prop} {s : σ} (p : Prog Op₂ Ans₂ ε α) :
    Obeys m post s (right p) ↔ Obeys (rightOf m) post s p := by
  induction p generalizing s with
  | done r => exact Iff.rfl
  | await op k ih =>
    constructor
    · intro h
      exact ⟨h.1, fun r s' next => (ih r).mp (h.2 r s' next)⟩
    · intro h
      exact ⟨h.1, fun r s' next => (ih r).mpr (h.2 r s' next)⟩

/-- An observer with no opinion at all. -/
theorem obeys_free {Op : Type} {Ans : Op → Type} {m : Monitor Op Ans ε σ}
    {post : σ → Except ε α → Prop} (may : ∀ s op, m.may s op) (any : ∀ s r, post s r) {s : σ}
    (p : Prog Op Ans ε α) :
    Obeys m post s p := by
  induction p generalizing s with
  | done r => exact any s r
  | await op k ih => exact ⟨may s op, fun r s' _ => ih r⟩

/-- An observer with no opinion on left calls. -/
theorem obeys_left_free {post : σ → Except ε α → Prop} (may : ∀ s op, m.may s (.inl op))
    (any : ∀ s r, post s r) {s : σ} (p : Prog Op₁ Ans₁ ε α) : Obeys m post s (left p) :=
  (obeys_left p).mpr (obeys_free may any p)

end CombinedCalls
