import SyncBridge.ThreadPools

/-!
# Facts that stay true

A thread that has read something from the store acts on it later, after any number of
steps of other threads. What it may rely on are facts that no step undoes. `know s k`
says that fact `k` holds in the store `s`; the observer of a task allows a call, and
interprets an answer, in terms of a set of facts. A thread is then safe when it keeps
to its observer under every set of facts that contains those of the present store:
more knowledge, gained by anyone, never harms it.
-/

namespace GrowingKnowledge

open AwaitPrograms ThreadPools

universe u

variable {Store : Type u} {Task Op : Type} {Ans : Op → Type} {ε ρ Request Choice Event K : Type}

/-- Obligations, step by step, for a store invariant `G` and facts `know` that are never
lost. `admits` says which facts must hold for a task to be started, `post` what its end
has established. -/
structure Knowing (M : Machine Store Task Op Ans ε ρ Request Choice Event)
    (allowed : World Store Task Op Ans ε ρ → Act Request Choice Event → Prop)
    (know : Store → K → Prop) (m : (K → Prop) → Task → Monitor Op Ans ε Unit)
    (admits : (K → Prop) → Task → Prop) (post : (K → Prop) → Task → Except ε ρ → Prop)
    (G : Store → Prop) : Prop where
  code : ∀ F task, admits F task → Obeys (m F task) (fun _ => post F task) () (M.code task)
  more : ∀ F F' task, (∀ k, F k → F' k) → admits F task → admits F' task
  request : ∀ w q s task, allowed w (.request q) → G w.store → M.enter q w.store = some (s, task) →
    G s ∧ (∀ k, know w.store k → know s k) ∧ admits (know s) task
  resume : ∀ w pid c l r t op k a s, allowed w (.resume pid c) → G w.store →
    focus pid w.threads = some (l, t, r) → t.prog = .await op k →
    (m (know w.store) t.task).may () op → M.exec pid op c w.store = some (a, s) →
    G s ∧ (∀ k, know w.store k → know s k) ∧ ∀ F, (∀ k, know s k → F k) →
    (m F t.task).next () op a ()
  settle : ∀ task out s, G s → post (know s) task out →
    G (M.finish task out s).1 ∧ (∀ k, know s k → know (M.finish task out s).1 k) ∧
      ∀ new ∈ (M.finish task out s).2, admits (know (M.finish task out s).1) new
  crash : ∀ pid task s, G s → G (M.drop pid task s) ∧ ∀ k, know s k → know (M.drop pid task s) k
  outside : ∀ e s s', G s → M.outside e s = some s' → G s' ∧ ∀ k, know s k → know s' k

/-- The thread keeps to its observer, whatever more becomes known. -/
def Safe (know : Store → K → Prop) (m : (K → Prop) → Task → Monitor Op Ans ε Unit)
    (post : (K → Prop) → Task → Except ε ρ → Prop) (s : Store)
    (t : Thread Task Op Ans ε ρ) : Prop :=
  ∀ F : K → Prop, (∀ k, know s k → F k) → Obeys (m F t.task) (fun _ => post F t.task) () t.prog

variable {M : Machine Store Task Op Ans ε ρ Request Choice Event}
variable {allowed : World Store Task Op Ans ε ρ → Act Request Choice Event → Prop}
variable {know : Store → K → Prop} {m : (K → Prop) → Task → Monitor Op Ans ε Unit}
variable {admits : (K → Prop) → Task → Prop} {post : (K → Prop) → Task → Except ε ρ → Prop}
variable {G : Store → Prop}

theorem Safe.grow {s s' : Store} {t : Thread Task Op Ans ε ρ} (h : Safe know m post s t)
    (grown : ∀ k, know s k → know s' k) : Safe know m post s' t :=
  fun F known => h F fun k hk => known k (grown k hk)

/-- A thread is safe and was started with what it relies on. -/
def Prepared (know : Store → K → Prop) (m : (K → Prop) → Task → Monitor Op Ans ε Unit)
    (admits : (K → Prop) → Task → Prop) (post : (K → Prop) → Task → Except ε ρ → Prop) (s : Store)
    (t : Thread Task Op Ans ε ρ) : Prop :=
  Safe know m post s t ∧ admits (know s) t.task

theorem Knowing.grow (h : Knowing M allowed know m admits post G) {s s' : Store}
    {t : Thread Task Op Ans ε ρ} (prepared : Prepared know m admits post s t)
    (grown : ∀ k, know s k → know s' k) :
    Prepared know m admits post s' t :=
  ⟨prepared.1.grow grown, h.more _ _ _ grown prepared.2⟩

theorem Knowing.fresh (h : Knowing M allowed know m admits post G) {s : Store} {task : Task}
    (admitted : admits (know s) task) (n : Nat) :
    Prepared know m admits post s ⟨n, task, M.code task⟩ :=
  ⟨fun F known => h.code F task (h.more _ F task known admitted), admitted⟩

theorem Knowing.threadwise (h : Knowing M allowed know m admits post G) :
    Threadwise M allowed G (Prepared know m admits post) where
  request w q s task ok hG hT entered := by
    obtain ⟨hs, grown, admitted⟩ := h.request w q s task ok hG entered
    exact ⟨hs, fun t ht => h.grow (hT t ht) grown, h.fresh admitted⟩
  resume w pid c l r t op k a s ok hG hT _ found at_call answered := by
    obtain ⟨hmem, hothers⟩ := mem_of_focus found
    obtain ⟨safe, admitted⟩ := hT t hmem
    have here := safe (know w.store) fun _ hk => hk
    rw [at_call] at here
    obtain ⟨hs, grown, next⟩ := h.resume w pid c l r t op k a s ok hG found at_call here.1 answered
    refine ⟨hs, fun t' ht => h.grow (hT t' (hothers t' ht)) grown, fun F known => ?_,
      h.more _ _ _ grown admitted⟩
    have later := safe F fun k hk => known k (grown k hk)
    rw [at_call] at later
    exact later.2 a () (next F known)
  settle w pid l r t out ok hG hT found ended := by
    obtain ⟨hmem, hothers⟩ := mem_of_focus found
    have here := (hT t hmem).1 (know w.store) fun _ hk => hk
    rw [ended] at here
    obtain ⟨hs, grown, admitted⟩ := h.settle t.task out w.store hG here
    exact ⟨hs, fun t' ht => h.grow (hT t' (hothers t' ht)) grown,
      fun n task new => h.fresh (admitted task new) n⟩
  crash w pid l r t _ hG hT _ found := by
    obtain ⟨hs, grown⟩ := h.crash pid t.task w.store hG
    exact ⟨hs, fun t' ht => h.grow (hT t' ((mem_of_focus found).2 t' ht)) grown⟩
  outside w e s _ hG hT happened := by
    obtain ⟨hs, grown⟩ := h.outside e w.store s hG happened
    exact ⟨hs, fun t ht => h.grow (hT t ht) grown⟩

/-- A world without threads is numbered. -/
theorem numbered_of_none {w : World Store Task Op Ans ε ρ} (none : w.threads = []) :
    Numbered w := by
  constructor
  · rw [none]
    exact List.nodup_nil
  · rw [none]
    intro t ht
    cases ht

/-- From a world without threads. -/
theorem Knowing.holds (h : Knowing M allowed know m admits post G)
    {w₀ w : World Store Task Op Ans ε ρ} (none : w₀.threads = []) (hG : G w₀.store)
    (path : Reach M allowed w₀ w) :
    G w.store ∧ ∀ t ∈ w.threads, Prepared know m admits post w.store t := by
  apply h.threadwise.holds (numbered_of_none none) hG _ path
  rw [none]
  intro t ht
  cases ht

end GrowingKnowledge
