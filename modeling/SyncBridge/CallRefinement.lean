import SyncBridge.CombinedCalls
import SyncBridge.ThreadPools

/-!
# Calls made of smaller calls

A machine whose programs make finer calls than those of another one. A call of the finer
program is either silent, when the other machine does not move, or it is the moment at
which the call of the coarser program happens, with its answer. Threads may be stopped
anywhere in between. Events outside the programs are likewise silent or events of the other
machine. When all programs and all other steps are so related, every run of the finer
machine is one of the coarser machine.
-/

namespace CallRefinement

open AwaitPrograms CombinedCalls ThreadPools

universe u v

variable {Op Op' : Type} {Ans : Op → Type} {Ans' : Op' → Type} {ε ρ α β : Type}
variable {Store : Type u} {Store' : Type v} {Choice Choice' : Type}

/-- The finer program does what the coarser one does, as far as the relation of the stores
can tell, and ends as it does. -/
def Tracks (exec : (op : Op) → Choice → Store → Option (Except ε (Ans op) × Store))
    (exec' : (op : Op') → Choice' → Store' → Option (Except ε (Ans' op) × Store'))
    (R : Store' → Store → Prop) :
    Prog Op' Ans' ε α → Prog Op Ans ε α → Prop
  | .done r, p => p = .done r
  | .await op' k', p => ∀ c' s' s a' x', R s' s → exec' op' c' s' = some (a', x') →
      (R x' s ∧ Tracks exec exec' R (k' a') p) ∨
        ∃ op k, p = .await op k ∧ ∃ c a x, exec op c s = some (a, x) ∧ R x' x ∧
        Tracks exec exec' R (k' a') (k a)

section Programs
variable {exec : (op : Op) → Choice → Store → Option (Except ε (Ans op) × Store)}
variable {exec' : (op : Op') → Choice' → Store' → Option (Except ε (Ans' op) × Store')}
  {R : Store' → Store → Prop}

theorem tracks_done (r : Except ε α) : Tracks exec exec' R (.done r) (.done r) := rfl

/-- A call that the other machine does not notice. -/
theorem tracks_silent {op' : Op'} {k' : Except ε (Ans' op') → Prog Op' Ans' ε α}
    {p : Prog Op Ans ε α}
    (silent : ∀ c' s' s a' x', R s' s → exec' op' c' s' = some (a', x') →
      R x' s ∧ Tracks exec exec' R (k' a') p) : Tracks exec exec' R (.await op' k') p :=
  fun c' s' s a' x' related answered => .inl (silent c' s' s a' x' related answered)

/-- A call that is the other one. -/
theorem tracks_call {op' : Op'} {op : Op} {k' : Except ε (Ans' op') → Prog Op' Ans' ε α}
    {k : Except ε (Ans op) → Prog Op Ans ε α}
    (same : ∀ c' s' s a' x', R s' s → exec' op' c' s' = some (a', x') →
      ∃ c a x, exec op c s = some (a, x) ∧ R x' x ∧ Tracks exec exec' R (k' a') (k a)) :
    Tracks exec exec' R (.await op' k') (.await op k) :=
  fun c' s' s a' x' related answered => .inr ⟨op, k, rfl, same c' s' s a' x' related answered⟩

theorem tracks_bind {p' : Prog Op' Ans' ε α} {p : Prog Op Ans ε α} {f' : α → Prog Op' Ans' ε β}
    {f : α → Prog Op Ans ε β} (first : Tracks exec exec' R p' p)
    (rest : ∀ a, Tracks exec exec' R (f' a) (f a)) :
    Tracks exec exec' R (p'.bind f') (p.bind f) := by
  induction p' generalizing p with
  | done r =>
    cases (first : p = .done r)
    cases r with
    | ok a => exact rest a
    | error e => exact tracks_done _
  | await op' k' ih =>
    intro c' s' s a' x' related answered
    rcases first c' s' s a' x' related answered with ⟨still, later⟩ | ⟨op, k, rfl, c, a, x,
      step, kept, later⟩
    · exact .inl ⟨still, ih a' later⟩
    · exact .inr ⟨op, _, rfl, c, a, x, step, kept, ih a' later⟩

theorem tracks_tryCatch {p' : Prog Op' Ans' ε α} {p : Prog Op Ans ε α} {h' : ε → Prog Op' Ans' ε α}
    {h : ε → Prog Op Ans ε α} (first : Tracks exec exec' R p' p)
    (rest : ∀ e, Tracks exec exec' R (h' e) (h e)) :
    Tracks exec exec' R (p'.tryCatch h') (p.tryCatch h) := by
  induction p' generalizing p with
  | done r =>
    cases (first : p = .done r)
    cases r with
    | ok a => exact tracks_done _
    | error e => exact rest e
  | await op' k' ih =>
    intro c' s' s a' x' related answered
    rcases first c' s' s a' x' related answered with ⟨still, later⟩ | ⟨op, k, rfl, c, a, x,
      step, kept, later⟩
    · exact .inl ⟨still, ih a' later⟩
    · exact .inr ⟨op, _, rfl, c, a, x, step, kept, ih a' later⟩

/-- A cleanup of silent calls. -/
theorem tracks_finally {p' : Prog Op' Ans' ε α} {p : Prog Op Ans ε α}
    {cleanup : Prog Op' Ans' ε Unit} (first : Tracks exec exec' R p' p)
    (silent : ∀ r : Except ε α, Tracks exec exec' R (cleanup.bind fun _ => .done r) (.done r)) :
    Tracks exec exec' R (p'.finallyDo cleanup) p := by
  induction p' generalizing p with
  | done r =>
    cases (first : p = .done r)
    exact silent r
  | await op' k' ih =>
    intro c' s' s a' x' related answered
    rcases first c' s' s a' x' related answered with ⟨still, later⟩ | ⟨op, k, rfl, c, a, x,
      step, kept, later⟩
    · exact .inl ⟨still, ih a' later⟩
    · exact .inr ⟨op, _, rfl, c, a, x, step, kept, ih a' later⟩

end Programs

/-- A program that only makes calls on which both machines agree. -/
theorem tracks_left {Op₂ : Type} {Ans₂ : Op₂ → Type} {P : Op → Prop} {E : ε → Prop}
    {exec : (op : Op) → Choice → Store → Option (Except ε (Ans op) × Store)}
    {exec' : (op : Op ⊕ Op₂) → Choice' → Store' → Option (Except ε (Either Ans Ans₂ op) × Store')}
    {R : Store' → Store → Prop}
    (agree : ∀ op, P op → ∀ c' s' s a x', R s' s → exec' (.inl op) c' s' = some (a, x') →
      ∃ c x, exec op c s = some (a, x) ∧ R x' x)
    {p : Prog Op Ans ε α} (calls : Within P (fun _ => True) E p) : Tracks exec exec' R
      (left p) p := by
  induction p with
  | done r => exact tracks_done r
  | await op k ih =>
    refine tracks_call fun c' s' s a' x' related answered => ?_
    obtain ⟨c, x, step, kept⟩ := agree op calls.1 c' s' s a' x' related answered
    exact ⟨c, a', x, step, kept, ih a' (calls.2 a' fun _ _ => trivial)⟩

section Pools
variable {Task Request Event Event' : Type}

/-- Obligations for the programs and for the steps that no program takes. -/
structure Refines (M : Machine Store Task Op Ans ε ρ Request Choice Event)
    (M' : Machine Store' Task Op' Ans' ε ρ Request Choice' Event')
    (R : Store' → Store → Prop) : Prop where
  code : ∀ pid task, Tracks (M.exec pid) (M'.exec pid) R (M'.code task) (M.code task)
  enter : ∀ q s' s x' task, R s' s → M'.enter q s' = some (x', task) →
    ∃ x, M.enter q s = some (x, task) ∧ R x' x
  finish : ∀ task out s' s, R s' s →
    (M'.finish task out s').2 = (M.finish task out s).2 ∧
    R (M'.finish task out s').1 (M.finish task out s).1
  drop : ∀ pid task s' s, R s' s → R (M'.drop pid task s') (M.drop pid task s)
  outside : ∀ e' s' s x', R s' s → M'.outside e' s' = some x' →
    R x' s ∨ ∃ e x, M.outside e s = some x ∧ R x' x

/-- A thread and what it is in the coarser machine. -/
def Mirrors (M : Machine Store Task Op Ans ε ρ Request Choice Event)
    (M' : Machine Store' Task Op' Ans' ε ρ Request Choice' Event') (R : Store' → Store → Prop)
    (t' : Thread Task Op' Ans' ε ρ) (t : Thread Task Op Ans ε ρ) : Prop :=
  t.pid = t'.pid ∧ t.task = t'.task ∧ Tracks (M.exec t'.pid) (M'.exec t'.pid) R t'.prog t.prog

structure Related (M : Machine Store Task Op Ans ε ρ Request Choice Event)
    (M' : Machine Store' Task Op' Ans' ε ρ Request Choice' Event') (R : Store' → Store → Prop)
    (w' : World Store' Task Op' Ans' ε ρ) (w : World Store Task Op Ans ε ρ) : Prop where
  stores : R w'.store w.store
  threads : List.Forall₂ (Mirrors M M' R) w'.threads w.threads
  next : w.nextPid = w'.nextPid

variable {M : Machine Store Task Op Ans ε ρ Request Choice Event}
variable {M' : Machine Store' Task Op' Ans' ε ρ Request Choice' Event'} {R : Store' → Store → Prop}

/-- Where the thread stands, its counterpart stands too. -/
theorem mirrors_focus {ts' : List (Thread Task Op' Ans' ε ρ)} {ts : List (Thread Task Op Ans ε ρ)}
    {pid : Nat} {l' r' : List (Thread Task Op' Ans' ε ρ)} {t' : Thread Task Op' Ans' ε ρ}
    (mirrored : List.Forall₂ (Mirrors M M' R) ts' ts) (found : focus pid ts' = some (l', t', r')) :
    ∃ l t r, focus pid ts = some (l, t, r) ∧ List.Forall₂ (Mirrors M M' R) l' l ∧
    Mirrors M M' R t' t ∧
      List.Forall₂ (Mirrors M M' R) r' r := by
  induction mirrored generalizing l' with
  | nil => cases found
  | cons head tail ih =>
    rename_i a' a as' as
    rw [focus] at found
    split at found
    · rename_i here
      cases found
      refine ⟨[], a, as, ?_, .nil, head, tail⟩
      rw [focus, if_pos (head.1.trans here)]
    · rename_i elsewhere
      split at found
      · cases found
      · rename_i later
        cases found
        obtain ⟨l, t, r, found', left, same, right⟩ := ih later
        refine ⟨a :: l, t, r, ?_, .cons head left, same, right⟩
        rw [focus, if_neg (fun h => elsewhere (head.1.symm.trans h)), found']

theorem Refines.spawn (h : Refines M M' R) (n : Nat) (tasks : List Task) :
    List.Forall₂ (Mirrors M M' R) (ThreadPools.spawn M'.code n tasks)
      (ThreadPools.spawn M.code n tasks) := by
  induction tasks generalizing n with
  | nil => exact .nil
  | cons task tasks ih => exact .cons ⟨rfl, rfl, h.code n task⟩ (ih (n + 1))

/-- A step of the finer machine is none or one of the coarser machine. -/
theorem Refines.step (h : Refines M M' R) {w' x' : World Store' Task Op' Ans' ε ρ}
    {w : World Store Task Op Ans ε ρ} {act' : Act Request Choice' Event'}
    (related : Related M M' R w' w) (move : M'.step w' act' = some x') :
    Related M M' R x' w ∨ ∃ act x, M.step w act = some x ∧ Related M M' R x' x := by
  cases Machine.step_move move with
  | request s' task admitted eq =>
    rename_i q
    obtain ⟨s, entered, kept⟩ := h.enter q _ _ s' task related.stores admitted
    subst eq
    refine .inr ⟨.request q, ⟨s, w.threads ++ ThreadPools.spawn M.code w.nextPid [task],
      w.nextPid + 1⟩, ?_, kept,
      ?_, ?_⟩
    · rw [Machine.step, entered]
    · rw [related.next]
      exact List.rel_append related.threads (h.spawn _ _)
    · rw [related.next]
  | resume l' r' t' op' k' a' s' found at_call answered eq =>
    rename_i pid c'
    obtain ⟨l, t, r, found', left, same, right⟩ := mirrors_focus related.threads found
    obtain ⟨number, task, tracks⟩ := same
    obtain ⟨-, own⟩ := focus_some found
    rw [at_call, own] at tracks
    subst eq
    rcases tracks c' w'.store w.store a' s' related.stores answered with
      ⟨still, later⟩ | ⟨op, k, here, c, a, s, step, kept, later⟩
    · left
      refine ⟨still, ?_, related.next⟩
      rw [(focus_some found').1]
      exact List.rel_append left (.cons ⟨number, task, by rw [own]; exact later⟩ right)
    · right
      refine ⟨.resume pid c, ⟨s, l ++ { t with prog := k a } :: r, w.nextPid⟩, ?_, kept,
        ?_, related.next⟩
      · simp only [Machine.step, found', here, step]
      · exact List.rel_append left (.cons ⟨number, task, by rw [own]; exact later⟩ right)
  | settle l' r' t' out found ended eq =>
    rename_i pid
    obtain ⟨l, t, r, found', left, same, right⟩ := mirrors_focus related.threads found
    obtain ⟨number, task, tracks⟩ := same
    rw [ended] at tracks
    obtain ⟨started, kept⟩ := h.finish t'.task out w'.store w.store related.stores
    subst eq
    refine .inr ⟨.settle pid, ⟨(M.finish t.task out w.store).1,
      l ++ r ++ ThreadPools.spawn M.code w.nextPid (M.finish t.task out w.store).2,
      w.nextPid + (M.finish t.task out w.store).2.length⟩, ?_, ?_, ?_, ?_⟩
    · have ended : t.prog = .done out := tracks
      simp only [Machine.step, found', ended]
    · rw [task]
      exact kept
    · rw [task, ← started, related.next]
      exact List.rel_append (List.rel_append left right) (h.spawn _ _)
    · rw [task, ← started, related.next]
  | crash l' r' t' found eq =>
    rename_i pid
    obtain ⟨l, t, r, found', left, same, right⟩ := mirrors_focus related.threads found
    subst eq
    refine .inr ⟨.crash pid, ⟨M.drop pid t.task w.store, l ++ r, w.nextPid⟩, ?_, ?_,
      List.rel_append left right,
      related.next⟩
    · rw [Machine.step, found']
    · rw [same.2.1]
      exact h.drop pid t'.task _ _ related.stores
  | outside s' happened eq =>
    subst eq
    rcases h.outside _ _ _ s' related.stores happened with still | ⟨e, s, happens, kept⟩
    · exact .inl ⟨still, related.threads, related.next⟩
    · refine .inr ⟨.outside e, ⟨s, w.threads, w.nextPid⟩, ?_, kept, related.threads, related.next⟩
      rw [Machine.step, happens]

/-- Every run of the finer machine is one of the coarser machine. -/
theorem Refines.simulates (h : Refines M M' R) {w₀' w' : World Store' Task Op' Ans' ε ρ}
    {w₀ : World Store Task Op Ans ε ρ} (start : Related M M' R w₀' w₀)
    (path : Reach M' anyStep w₀' w') :
    ∃ w, Reach M anyStep w₀ w ∧ Related M M' R w' w := by
  induction path with
  | start => exact ⟨w₀, .start, start⟩
  | step _ _ move ih =>
    obtain ⟨w, path, related⟩ := ih
    rcases h.step related move with still | ⟨act, x, step, related'⟩
    · exact ⟨w, path, still⟩
    · exact ⟨x, .step path trivial step, related'⟩

end Pools

end CallRefinement
