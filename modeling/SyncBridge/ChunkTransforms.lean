import Mathlib.Algebra.Order.Ring.Int
import Mathlib.Init
import Mathlib.Data.List.Basic

/-!
# Stateful transforms of chunked byte streams

A transform is given the chunks of a stream one by one and pushes chunks of its
own; `flush` runs after the last one. A chunk may be empty, and where a stream
is cut carries no meaning. What was pushed before an error stays pushed, so a
run has both its emitted chunks and the way it ended.
-/

namespace ChunkTransforms

abbrev Bytes := List UInt8

/-- A byte string of a known length, as keys and initialisation vectors are. -/
abbrev BytesOf (n : Nat) := { b : Bytes // b.length = n }

structure Transform (σ ε : Type) where
  start : σ
  transform : σ → Bytes → List Bytes × Except ε σ
  flush : σ → List Bytes × Except ε Unit

variable {σ ε : Type}

namespace Transform

def feed (T : Transform σ ε) : σ → List Bytes → List Bytes × Except ε σ
  | s, [] => ([], .ok s)
  | s, c :: cs => match T.transform s c with
    | (out, .error e) => (out, .error e)
    | (out, .ok s') =>
      let rest := T.feed s' cs
      (out ++ rest.1, rest.2)

/-- All chunks, then the flush. -/
def pipe (T : Transform σ ε) (chunks : List Bytes) : List Bytes × Except ε Unit :=
  match T.feed T.start chunks with
  | (out, .error e) => (out, .error e)
  | (out, .ok s) => (out ++ (T.flush s).1, (T.flush s).2)

/-- The invariant rule: `I consumed emitted state` is kept by every chunk of a
stream whose bytes are `total`. -/
theorem feed_invariant (T : Transform σ ε) (I : Bytes → Bytes → σ → Prop) {total : Bytes}
    (keep : ∀ seen out s c, seen ++ c <+: total → I seen out s →
      ∃ pushed s', T.transform s c = (pushed, .ok s') ∧ I (seen ++ c) (out ++ pushed.flatten) s')
    (chunks : List Bytes) (seen out : Bytes) (s : σ) (whole : seen ++ chunks.flatten = total)
    (h : I seen out s) :
    ∃ pushed s', T.feed s chunks = (pushed, .ok s') ∧ I total (out ++ pushed.flatten) s' := by
  induction chunks generalizing seen out s with
  | nil =>
    simp only [List.flatten_nil, List.append_nil] at whole
    exact ⟨[], s, rfl, by simpa [← whole] using h⟩
  | cons c cs ih =>
    rw [List.flatten_cons, ← List.append_assoc] at whole
    obtain ⟨pushed, s', hc, hI⟩ := keep seen out s c ⟨_, whole⟩ h
    obtain ⟨rest, s'', hr, hI'⟩ := ih _ _ s' whole hI
    refine ⟨pushed ++ rest, s'', ?_, by simpa [List.append_assoc] using hI'⟩
    simp only [feed, hc, hr]

/-- A run that starts in the invariant ends with the flush of a state in it. -/
theorem pipe_invariant (T : Transform σ ε) (I : Bytes → Bytes → σ → Prop) (chunks : List Bytes)
    (keep : ∀ seen out s c, seen ++ c <+: chunks.flatten → I seen out s →
      ∃ pushed s', T.transform s c = (pushed, .ok s') ∧ I (seen ++ c) (out ++ pushed.flatten) s')
    (start : I [] [] T.start) :
    ∃ pushed s, I chunks.flatten pushed.flatten s ∧
      T.pipe chunks = (pushed ++ (T.flush s).1, (T.flush s).2) := by
  obtain ⟨pushed, s, hf, hI⟩ :=
    T.feed_invariant I keep chunks [] [] T.start (List.nil_append _) start
  exact ⟨pushed, s, by simpa using hI, by rw [pipe, hf]⟩

end Transform

end ChunkTransforms
