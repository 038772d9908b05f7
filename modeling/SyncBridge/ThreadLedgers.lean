import SyncBridge.ThreadPools
import Mathlib.Algebra.BigOperators.Group.List.Basic
import Mathlib.Tactic.Abel

/-!
# Books that lag behind

A store keeps an amount that threads update some time after, or before, the step that
makes it due. What a thread still owes depends on where it stands. If no step changes
the difference but the amounts that it makes due, then in every state of a run the books
and what all threads owe make up what the run has made due.
-/

namespace ThreadLedgers

open AwaitPrograms ThreadPools

universe u

variable {Store : Type u} {Task Op : Type} {Ans : Op → Type} {ε ρ Request Choice Event σ N A : Type}

section Balance
variable [AddCommMonoid A]

/-- What the noted events make due. -/
def total (due : N → A) (log : List N) : A := (log.map due).sum

@[simp] theorem total_nil (due : N → A) : total due [] = 0 := rfl

@[simp] theorem total_append (due : N → A) (log log' : List N) :
    total due (log ++ log') = total due log + total due log' := by
  simp [total]

/-- Obligations, step by step, for the books of a store. -/
structure Balances (M : Machine Store Task Op Ans ε ρ Request Choice Event)
    (allowed : World Store Task Op Ans ε ρ → Act Request Choice Event → Prop)
    (note : World Store Task Op Ans ε ρ → Act Request Choice Event → List N)
    (m : Task → Monitor Op Ans ε σ) (post : Task → σ → Except ε ρ → Prop) (first : σ)
    (owes : Nat → Task → σ → A) (books : Store → A) (due : N → A) : Prop where
  code : ∀ task, Obeys (m task) (post task) first (M.code task)
  clear : ∀ pid task, owes pid task first = 0
  request : ∀ w q s task, M.enter q w.store = some (s, task) →
    books s = books w.store ∧ note w (.request q) = []
  resume : ∀ w pid c l t r op k a s v, focus pid w.threads = some (l, t, r) → t.prog = .await op k →
    (m t.task).may v op → M.exec pid op c w.store = some (a, s) →
    ∃ v', (m t.task).next v op a v' ∧
      books s + owes pid t.task v' = books w.store + owes pid t.task v +
        total due (note w (.resume pid c))
  settle : ∀ w pid task v out, post task v out →
    owes pid task v = 0 ∧ books (M.finish task out w.store).1 = books w.store ∧
    note w (.settle pid) = []
  crash : ∀ w pid task v, allowed w (.crash pid) →
    owes pid task v = 0 ∧ books (M.drop pid task w.store) = books w.store ∧ note w (.crash pid) = []
  outside : ∀ w e s, M.outside e w.store = some s →
    books s = books w.store ∧ note w (.outside e) = []

/-- A thread and where it stands. -/
abbrev Account (Task Op : Type) (Ans : Op → Type) (ε ρ σ : Type) := Thread Task Op Ans ε ρ × σ

def owed (owes : Nat → Task → σ → A) (xs : List (Account Task Op Ans ε ρ σ)) : A :=
  (xs.map fun x => owes x.1.pid x.1.task x.2).sum

@[simp] theorem owed_nil (owes : Nat → Task → σ → A) :
    owed owes ([] : List (Account Task Op Ans ε ρ σ)) = 0 := rfl

@[simp] theorem owed_append (owes : Nat → Task → σ → A) (xs ys : List (Account Task Op Ans ε ρ σ)) :
    owed owes (xs ++ ys) = owed owes xs + owed owes ys := by
  simp [owed]

@[simp] theorem owed_cons (owes : Nat → Task → σ → A) (x : Account Task Op Ans ε ρ σ)
    (xs : List (Account Task Op Ans ε ρ σ)) :
    owed owes (x :: xs) = owes x.1.pid x.1.task x.2 + owed owes xs := by
  simp [owed]

/-- Every thread has an account that its observer keeps. -/
structure Kept (m : Task → Monitor Op Ans ε σ) (post : Task → σ → Except ε ρ → Prop)
    (ts : List (Thread Task Op Ans ε ρ)) (xs : List (Account Task Op Ans ε ρ σ)) : Prop where
  threads : xs.map (·.1) = ts
  obeys : ∀ x ∈ xs, Obeys (m x.1.task) (post x.1.task) x.2 x.1.prog

variable {M : Machine Store Task Op Ans ε ρ Request Choice Event}
variable {allowed : World Store Task Op Ans ε ρ → Act Request Choice Event → Prop}
variable {note : World Store Task Op Ans ε ρ → Act Request Choice Event → List N}
variable {m : Task → Monitor Op Ans ε σ} {post : Task → σ → Except ε ρ → Prop} {first : σ}
variable {owes : Nat → Task → σ → A} {books : Store → A} {due : N → A}

theorem Kept.append {ts ts' : List (Thread Task Op Ans ε ρ)}
    {xs xs' : List (Account Task Op Ans ε ρ σ)} (h : Kept m post ts xs) (h' : Kept m post ts' xs') :
    Kept m post (ts ++ ts') (xs ++ xs') := by
  constructor
  · rw [List.map_append, h.threads, h'.threads]
  · intro x hx
    rcases List.mem_append.mp hx with hx | hx
    · exact h.obeys x hx
    · exact h'.obeys x hx

/-- The accounts on both sides of a thread. -/
theorem Kept.split {l r : List (Thread Task Op Ans ε ρ)} {t : Thread Task Op Ans ε ρ}
    {xs : List (Account Task Op Ans ε ρ σ)} (h : Kept m post (l ++ t :: r) xs) :
    ∃ xl v xr, xs = xl ++ (t, v) :: xr ∧ Kept m post l xl ∧
    Obeys (m t.task) (post t.task) v t.prog ∧
      Kept m post r xr := by
  obtain ⟨xl, rest, rfl, left, here⟩ := List.map_eq_append_iff.mp h.threads
  obtain ⟨x, xr, rfl, rfl, right⟩ := List.map_eq_cons_iff.mp here
  refine ⟨xl, x.2, xr, rfl, ⟨left, fun y hy => ?_⟩, ?_, right, fun y hy => ?_⟩
  · exact h.obeys y (List.mem_append_left _ hy)
  · exact h.obeys x (List.mem_append_right _ List.mem_cons_self)
  · exact h.obeys y (List.mem_append_right _ (List.mem_cons_of_mem _ hy))

/-- New threads owe nothing. -/
theorem Balances.spawn (h : Balances M allowed note m post first owes books due) (n : Nat)
    (tasks : List Task) :
    ∃ xs, Kept m post (ThreadPools.spawn M.code n tasks) xs ∧ owed owes xs = 0 := by
  induction tasks generalizing n with
  | nil => exact ⟨[], ⟨rfl, fun x hx => absurd hx List.not_mem_nil⟩, rfl⟩
  | cons task tasks ih =>
    obtain ⟨xs, kept, nothing⟩ := ih (n + 1)
    refine ⟨(⟨n, task, M.code task⟩, first) :: xs, ⟨?_, ?_⟩, ?_⟩
    · rw [List.map_cons, kept.threads]
      rfl
    · intro x hx
      rcases List.mem_cons.mp hx with rfl | hx
      · exact h.code task
      · exact kept.obeys x hx
    · rw [owed_cons, nothing, h.clear, add_zero]

/-- The books and what is owed make up what was due at the start and since. -/
def Settled (owes : Nat → Task → σ → A) (books : Store → A) (due : N → A)
    (m : Task → Monitor Op Ans ε σ) (post : Task → σ → Except ε ρ → Prop) (start : A)
    (w : World Store Task Op Ans ε ρ) (log : List N) : Prop :=
  ∃ xs, Kept m post w.threads xs ∧ books w.store + owed owes xs = start + total due log

theorem Balances.step (h : Balances M allowed note m post first owes books due)
    {w w' : World Store Task Op Ans ε ρ} {a : Act Request Choice Event} {log : List N} {start : A}
    (ok : allowed w a) (move : M.step w a = some w')
    (before : Settled owes books due m post start w log) :
    Settled owes books due m post start w' (log ++ note w a) := by
  obtain ⟨xs, kept, balance⟩ := before
  cases Machine.step_move move with
  | request s task admitted eq =>
    obtain ⟨same, silent⟩ := h.request w _ s task admitted
    obtain ⟨ys, new, nothing⟩ := h.spawn w.nextPid [task]
    subst eq
    refine ⟨xs ++ ys, kept.append new, ?_⟩
    rw [same, owed_append, nothing, add_zero, silent, List.append_nil]
    exact balance
  | resume l r t op k b s found at_call answered eq =>
    obtain ⟨threads, own⟩ := focus_some found
    rw [threads] at kept
    obtain ⟨xl, v, xr, rfl, left, obeys, right⟩ := kept.split
    rw [at_call] at obeys
    obtain ⟨v', next, moved⟩ := h.resume w _ _ l t r op k b s v found at_call obeys.1 answered
    subst eq
    refine ⟨xl ++ ({ t with prog := k b }, v') :: xr, left.append ⟨?_, ?_⟩, ?_⟩
    · rw [List.map_cons, right.threads]
    · intro x hx
      rcases List.mem_cons.mp hx with rfl | hx
      · exact obeys.2 b v' next
      · exact right.obeys x hx
    · rw [total_append, ← add_assoc, ← balance]
      simp only [owed_append, owed_cons, own]
      calc books s + (owed owes xl + (owes _ t.task v' + owed owes xr))
          = (books s + owes _ t.task v') + (owed owes xl + owed owes xr) := by abel
        _ = (books w.store + owes _ t.task v + total due _) + (owed owes xl + owed owes xr) := by
          rw [moved]
        _ = _ := by abel
  | settle l r t out found ended eq =>
    rw [(focus_some found).1] at kept
    obtain ⟨xl, v, xr, rfl, left, obeys, right⟩ := kept.split
    rw [ended] at obeys
    obtain ⟨nothing, same, silent⟩ := h.settle w t.pid t.task v out obeys
    obtain ⟨ys, new, clear⟩ := h.spawn w.nextPid (M.finish t.task out w.store).2
    obtain ⟨-, own⟩ := focus_some found
    subst eq
    refine ⟨xl ++ xr ++ ys, (left.append right).append new, ?_⟩
    rw [own] at silent
    rw [owed_append, owed_cons, nothing, zero_add] at balance
    rw [same, owed_append, owed_append, clear, add_zero, silent, List.append_nil]
    exact balance
  | crash l r t found eq =>
    obtain ⟨threads, own⟩ := focus_some found
    rw [threads] at kept
    obtain ⟨xl, v, xr, rfl, left, -, right⟩ := kept.split
    obtain ⟨nothing, same, silent⟩ := h.crash w _ t.task v ok
    subst eq
    refine ⟨xl ++ xr, left.append right, ?_⟩
    rw [owed_append, owed_cons, own, nothing, zero_add] at balance
    rw [same, owed_append, silent, List.append_nil]
    exact balance
  | outside s happened eq =>
    obtain ⟨same, silent⟩ := h.outside w _ s happened
    subst eq
    refine ⟨xs, kept, ?_⟩
    rw [same, silent, List.append_nil]
    exact balance

/-- From a world without threads. -/
theorem Balances.holds (h : Balances M allowed note m post first owes books due)
    {w₀ w : World Store Task Op Ans ε ρ} {log : List N} (none : w₀.threads = [])
    (path : Traced M allowed note w₀ w log) :
    Settled owes books due m post (books w₀.store) w log := by
  induction path with
  | start =>
    refine ⟨[], ⟨none.symm, fun x hx => absurd hx List.not_mem_nil⟩, ?_⟩
    rw [owed_nil, total_nil]
  | step _ ok move ih => exact h.step ok move ih

end Balance

end ThreadLedgers
