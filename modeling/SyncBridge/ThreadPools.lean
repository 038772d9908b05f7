import SyncBridge.AwaitPrograms
import Mathlib.Data.List.Forall2

/-!
# Thread pools over a shared store

Any number of await programs run against one store. A step lets a request in,
answers the call at which one thread stands, settles a thread that has ended,
kills a thread, or changes the store from outside. Threads are interleaved in
every order the steps allow. A call that must wait has no answer yet, so the
thread cannot be resumed until another step has changed the store.

Results about runs are stated for `Reach`, whose steps may be restricted by a
condition on the world before the step.
-/

namespace ThreadPools

open AwaitPrograms

universe u

structure Thread (Task Op : Type) (Ans : Op → Type) (ε ρ : Type) where
  pid : Nat
  task : Task
  prog : Prog Op Ans ε ρ

structure World (Store : Type u) (Task Op : Type) (Ans : Op → Type) (ε ρ : Type) where
  store : Store
  threads : List (Thread Task Op Ans ε ρ)
  nextPid : Nat

inductive Act (Request Choice Event : Type) where
  | request (r : Request)
  | resume (pid : Nat) (c : Choice)
  | settle (pid : Nat)
  | crash (pid : Nat)
  | outside (e : Event)

/-- What the calls do, which requests start which task, and what an end does. -/
structure Machine (Store : Type u) (Task Op : Type) (Ans : Op → Type) (ε ρ : Type)
    (Request Choice Event : Type) where
  exec : Nat → (op : Op) → Choice → Store → Option (Except ε (Ans op) × Store)
  enter : Request → Store → Option (Store × Task)
  code : Task → Prog Op Ans ε ρ
  finish : Task → Except ε ρ → Store → Store × List Task
  drop : Nat → Task → Store → Store
  outside : Event → Store → Option Store

variable {Store : Type u} {Task Op : Type} {Ans : Op → Type} {ε ρ : Type}
variable {Request Choice Event : Type}

/-- The threads before, at and after the first one with this identifier. -/
def focus (pid : Nat) : List (Thread Task Op Ans ε ρ) →
    Option (List (Thread Task Op Ans ε ρ) × Thread Task Op Ans ε ρ × List (Thread Task Op Ans ε ρ))
  | [] => none
  | t :: ts =>
    if t.pid = pid then some ([], t, ts)
    else match focus pid ts with
      | none => none
      | some (l, x, r) => some (t :: l, x, r)

theorem focus_some {pid : Nat} {ts l r : List (Thread Task Op Ans ε ρ)}
    {t : Thread Task Op Ans ε ρ} (h : focus pid ts = some (l, t, r)) :
    ts = l ++ t :: r ∧ t.pid = pid := by
  induction ts generalizing l with
  | nil => cases h
  | cons x xs ih =>
    rw [focus] at h
    split at h
    · rename_i hx
      cases h
      exact ⟨rfl, hx⟩
    · cases hf : focus pid xs with
      | none => rw [hf] at h; cases h
      | some found =>
        obtain ⟨l', x', r'⟩ := found
        rw [hf] at h
        cases h
        obtain ⟨rfl, hp⟩ := ih hf
        exact ⟨rfl, hp⟩

/-- The thread in the middle, or one beside it. -/
theorem mem_middle {l r : List (Thread Task Op Ans ε ρ)} {t t' : Thread Task Op Ans ε ρ} :
    t' ∈ l ++ t :: r ↔ t' = t ∨ t' ∈ l ++ r :=
  List.perm_middle.mem_iff.trans List.mem_cons

theorem mem_of_focus {pid : Nat} {ts l r : List (Thread Task Op Ans ε ρ)}
    {t : Thread Task Op Ans ε ρ} (found : focus pid ts = some (l, t, r)) :
    t ∈ ts ∧ ∀ t' ∈ l ++ r, t' ∈ ts := by
  rw [(focus_some found).1]
  exact ⟨mem_middle.mpr (.inl rfl), fun t' ht => mem_middle.mpr (.inr ht)⟩

theorem mem_beside {pid : Nat} {ts l r : List (Thread Task Op Ans ε ρ)}
    {t t' : Thread Task Op Ans ε ρ} (found : focus pid ts = some (l, t, r)) (ht : t' ∈ ts)
    (other : t' ≠ t) : t' ∈ l ++ r := by
  rw [(focus_some found).1] at ht
  exact (mem_middle.mp ht).resolve_left other

/-- All threads but the first one with this identifier. -/
def World.others (w : World Store Task Op Ans ε ρ) (pid : Nat) : List (Thread Task Op Ans ε ρ) :=
  match focus pid w.threads with
  | none => w.threads
  | some (l, _, r) => l ++ r

/-- Threads for a list of tasks, numbered from `n`. -/
def spawn (code : Task → Prog Op Ans ε ρ) : Nat → List Task → List (Thread Task Op Ans ε ρ)
  | _, [] => []
  | n, a :: as => ⟨n, a, code a⟩ :: spawn code (n + 1) as

theorem mem_spawn {code : Task → Prog Op Ans ε ρ} {n : Nat} {tasks : List Task}
    {t : Thread Task Op Ans ε ρ} (h : t ∈ spawn code n tasks) :
    t.task ∈ tasks ∧ t.prog = code t.task ∧ n ≤ t.pid := by
  induction tasks generalizing n with
  | nil => cases h
  | cons a as ih =>
    rcases List.mem_cons.mp h with rfl | h
    · exact ⟨List.mem_cons_self, rfl, Nat.le_refl _⟩
    · obtain ⟨hm, hp, hn⟩ := ih h
      exact ⟨List.mem_cons_of_mem a hm, hp, by omega⟩

namespace Machine
variable (M : Machine Store Task Op Ans ε ρ Request Choice Event)

def step (w : World Store Task Op Ans ε ρ) :
    Act Request Choice Event → Option (World Store Task Op Ans ε ρ)
  | .request q => match M.enter q w.store with
    | none => none
    | some (s, a) => some ⟨s, w.threads ++ spawn M.code w.nextPid [a], w.nextPid + 1⟩
  | .resume pid c => match focus pid w.threads with
    | none => none
    | some (l, t, r) => match t.prog with
      | .done _ => none
      | .await op k => match M.exec pid op c w.store with
        | none => none
        | some (a, s) => some ⟨s, l ++ { t with prog := k a } :: r, w.nextPid⟩
  | .settle pid => match focus pid w.threads with
    | none => none
    | some (l, t, r) => match t.prog with
      | .await _ _ => none
      | .done out =>
        let (s, tasks) := M.finish t.task out w.store
        some ⟨s, l ++ r ++ spawn M.code w.nextPid tasks, w.nextPid + tasks.length⟩
  | .crash pid => match focus pid w.threads with
    | none => none
    | some (l, t, r) => some ⟨M.drop pid t.task w.store, l ++ r, w.nextPid⟩
  | .outside e => match M.outside e w.store with
    | none => none
    | some s => some ⟨s, w.threads, w.nextPid⟩

/-- A schedule of steps, refused when one is not enabled or fails the test. -/
def stepsIf (test : World Store Task Op Ans ε ρ → Act Request Choice Event → Bool)
    (w : World Store Task Op Ans ε ρ) :
    List (Act Request Choice Event) → Option (World Store Task Op Ans ε ρ)
  | [] => some w
  | a :: as =>
    if test w a then match M.step w a with
      | none => none
      | some w' => stepsIf test w' as
    else none

/-- A schedule of steps, refused as soon as one step is not enabled. -/
def steps (w : World Store Task Op Ans ε ρ) (as : List (Act Request Choice Event)) :
    Option (World Store Task Op Ans ε ρ) := M.stepsIf (fun _ _ => true) w as

/-- Everything one step can do. -/
inductive Move (w w' : World Store Task Op Ans ε ρ) : Act Request Choice Event → Prop where
  | request {q : Request} (s : Store) (a : Task) (admitted : M.enter q w.store = some (s, a))
      (eq : w' = ⟨s, w.threads ++ spawn M.code w.nextPid [a], w.nextPid + 1⟩) :
      Move w w' (.request q)
  | resume {pid : Nat} {c : Choice} (l r : List (Thread Task Op Ans ε ρ))
      (t : Thread Task Op Ans ε ρ) (op : Op) (k : Except ε (Ans op) → Prog Op Ans ε ρ)
      (a : Except ε (Ans op)) (s : Store) (found : focus pid w.threads = some (l, t, r))
      (at_call : t.prog = .await op k) (answered : M.exec pid op c w.store = some (a, s))
      (eq : w' = ⟨s, l ++ { t with prog := k a } :: r, w.nextPid⟩) : Move w w' (.resume pid c)
  | settle {pid : Nat} (l r : List (Thread Task Op Ans ε ρ)) (t : Thread Task Op Ans ε ρ)
      (out : Except ε ρ) (found : focus pid w.threads = some (l, t, r))
      (ended : t.prog = .done out)
      (eq : w' = ⟨(M.finish t.task out w.store).1,
        l ++ r ++ spawn M.code w.nextPid (M.finish t.task out w.store).2,
        w.nextPid + (M.finish t.task out w.store).2.length⟩) : Move w w' (.settle pid)
  | crash {pid : Nat} (l r : List (Thread Task Op Ans ε ρ)) (t : Thread Task Op Ans ε ρ)
      (found : focus pid w.threads = some (l, t, r))
      (eq : w' = ⟨M.drop pid t.task w.store, l ++ r, w.nextPid⟩) : Move w w' (.crash pid)
  | outside {e : Event} (s : Store) (happened : M.outside e w.store = some s)
      (eq : w' = ⟨s, w.threads, w.nextPid⟩) : Move w w' (.outside e)

variable {M}

theorem step_move {w w' : World Store Task Op Ans ε ρ} {a : Act Request Choice Event}
    (h : M.step w a = some w') : M.Move w w' a := by
  cases a with
  | request q =>
    rw [step] at h
    split at h
    · cases h
    · rename_i s a hq
      exact .request s a hq (Option.some.inj h).symm
  | resume pid c =>
    rw [step] at h
    split at h
    · cases h
    · rename_i l t r hf
      split at h
      · cases h
      · rename_i op k hp
        split at h
        · cases h
        · rename_i a s he
          exact .resume l r t op k a s hf hp he (Option.some.inj h).symm
  | settle pid =>
    rw [step] at h
    split at h
    · cases h
    · rename_i l t r hf
      split at h
      · cases h
      · rename_i out hp
        exact .settle l r t out hf hp (Option.some.inj h).symm
  | crash pid =>
    rw [step] at h
    split at h
    · cases h
    · rename_i l t r hf
      exact .crash l r t hf (Option.some.inj h).symm
  | outside e =>
    rw [step] at h
    split at h
    · cases h
    · rename_i s he
      exact .outside s he (Option.some.inj h).symm

end Machine

/-- Worlds reached from `w₀` by steps that satisfy the condition. -/
inductive Reach (M : Machine Store Task Op Ans ε ρ Request Choice Event)
    (allowed : World Store Task Op Ans ε ρ → Act Request Choice Event → Prop)
    (w₀ : World Store Task Op Ans ε ρ) : World Store Task Op Ans ε ρ → Prop where
  | start : Reach M allowed w₀ w₀
  | step {w w' : World Store Task Op Ans ε ρ} {a : Act Request Choice Event}
      (path : Reach M allowed w₀ w) (ok : allowed w a) (move : M.step w a = some w') :
      Reach M allowed w₀ w'

/-- Threads have different numbers, all below the next one to be given. -/
structure Numbered (w : World Store Task Op Ans ε ρ) : Prop where
  distinct : (w.threads.map (·.pid)).Nodup
  below : ∀ t ∈ w.threads, t.pid < w.nextPid

/-- The condition that allows every step. -/
def anyStep (_ : World Store Task Op Ans ε ρ) (_ : Act Request Choice Event) : Prop := True

section Runs
variable {M : Machine Store Task Op Ans ε ρ Request Choice Event}
variable {allowed : World Store Task Op Ans ε ρ → Act Request Choice Event → Prop}
variable {w₀ : World Store Task Op Ans ε ρ}

/-- A schedule whose steps pass a test for the condition is a run. -/
theorem reach_of_stepsIf {test : World Store Task Op Ans ε ρ → Act Request Choice Event → Bool}
    (sound : ∀ w a, test w a = true → allowed w a) {w : World Store Task Op Ans ε ρ}
    (path : Reach M allowed w₀ w) {w' : World Store Task Op Ans ε ρ}
    (as : List (Act Request Choice Event)) (h : M.stepsIf test w as = some w') :
    Reach M allowed w₀ w' := by
  induction as generalizing w with
  | nil => cases h; exact path
  | cons a as ih =>
    rw [Machine.stepsIf] at h
    split at h
    · rename_i ok
      split at h
      · cases h
      · rename_i v hv
        exact ih (.step path (sound w a ok) hv) h
    · cases h

theorem reach_of_steps {w : World Store Task Op Ans ε ρ} (as : List (Act Request Choice Event))
    (h : M.steps w₀ as = some w) : Reach M anyStep w₀ w :=
  reach_of_stepsIf (fun _ _ _ => trivial) .start as h

/-- A schedule in two parts passes through a world between them. -/
theorem stepsIf_split {test : World Store Task Op Ans ε ρ → Act Request Choice Event → Bool}
    {w w' : World Store Task Op Ans ε ρ} (as bs : List (Act Request Choice Event))
    (h : M.stepsIf test w (as ++ bs) = some w') :
    ∃ v, M.stepsIf test w as = some v ∧ M.stepsIf test v bs = some w' := by
  induction as generalizing w with
  | nil => exact ⟨w, rfl, h⟩
  | cons a as ih =>
    rw [List.cons_append, Machine.stepsIf] at h
    rw [Machine.stepsIf]
    split at h
    · split at h
      · cases h
      · rw [if_pos ‹_›]
        exact ih h
    · cases h

theorem stepsIf_one {test : World Store Task Op Ans ε ρ → Act Request Choice Event → Bool}
    {w w' : World Store Task Op Ans ε ρ} {a : Act Request Choice Event}
    (h : M.stepsIf test w [a] = some w') : test w a = true ∧ M.step w a = some w' := by
  rw [Machine.stepsIf] at h
  split at h
  · rename_i ok
    split at h
    · cases h
    · rename_i v hv
      cases h
      exact ⟨ok, hv⟩
  · cases h

theorem steps_snoc {w : World Store Task Op Ans ε ρ} (as : List (Act Request Choice Event))
    (a : Act Request Choice Event) (h : M.steps w₀ (as ++ [a]) = some w) :
    ∃ v, M.steps w₀ as = some v ∧ M.step v a = some w := by
  obtain ⟨v, hv, hone⟩ := stepsIf_split as [a] h
  exact ⟨v, hv, (stepsIf_one hone).2⟩

/-- The induction rule for runs; earlier results about the run may be used. -/
theorem Reach.invariant {I : World Store Task Op Ans ε ρ → Prop} (start : I w₀)
    (step : ∀ w w' a, Reach M allowed w₀ w → allowed w a → M.step w a = some w' → I w → I w')
    {w : World Store Task Op Ans ε ρ} (path : Reach M allowed w₀ w) : I w := by
  induction path with
  | start => exact start
  | step path ok move ih => exact step _ _ _ path ok move ih

theorem Reach.weaken {allowed' : World Store Task Op Ans ε ρ → Act Request Choice Event → Prop}
    (imp : ∀ w a, allowed w a → allowed' w a) {w : World Store Task Op Ans ε ρ}
    (path : Reach M allowed w₀ w) : Reach M allowed' w₀ w := by
  induction path with
  | start => exact .start
  | step _ ok move ih => exact .step ih (imp _ _ ok) move

/-- What holds in all worlds of a run may be used as a condition of its steps. -/
theorem Reach.strengthen {J : World Store Task Op Ans ε ρ → Prop}
    (known : ∀ w, Reach M allowed w₀ w → J w) {w : World Store Task Op Ans ε ρ}
    (path : Reach M allowed w₀ w) : Reach M (fun w a => allowed w a ∧ J w) w₀ w := by
  induction path with
  | start => exact .start
  | step before ok move ih => exact .step ih ⟨ok, known _ before⟩ move

theorem Reach.trans {w w' : World Store Task Op Ans ε ρ} (path : Reach M allowed w₀ w)
    (rest : Reach M allowed w w') : Reach M allowed w₀ w' := by
  induction rest with
  | start => exact path
  | step _ ok move ih => exact .step ih ok move

theorem spawn_pids (code : Task → Prog Op Ans ε ρ) (n : Nat) (tasks : List Task) :
    (spawn code n tasks).map (·.pid) = List.range' n tasks.length := by
  induction tasks generalizing n with
  | nil => rfl
  | cons a as ih => simp [spawn, List.range'_succ, ih]

/-- New threads take numbers no thread has. -/
theorem numbered_spawn {s : Store} {ts : List (Thread Task Op Ans ε ρ)} {n : Nat}
    (h : Numbered (⟨s, ts, n⟩ : World Store Task Op Ans ε ρ)) (s' : Store)
    (code : Task → Prog Op Ans ε ρ) (tasks : List Task) :
    Numbered (⟨s', ts ++ spawn code n tasks, n + tasks.length⟩ : World Store Task Op Ans ε ρ) := by
  constructor
  · rw [List.map_append, spawn_pids, List.nodup_append]
    refine ⟨h.distinct, List.nodup_range', ?_⟩
    intro a ha b hb
    obtain ⟨t, ht, rfl⟩ := List.mem_map.mp ha
    have low : t.pid < n := h.below t ht
    have high := (List.mem_range'_1.mp hb).1
    omega
  · intro t ht
    rcases List.mem_append.mp ht with ht | ht
    · have low : t.pid < n := h.below t ht
      exact Nat.lt_add_right _ low
    · have hm : t.pid ∈ (spawn code n tasks).map (·.pid) := List.mem_map_of_mem ht
      rw [spawn_pids] at hm
      exact (List.mem_range'_1.mp hm).2

theorem numbered_remove {s : Store} {l r : List (Thread Task Op Ans ε ρ)}
    {t : Thread Task Op Ans ε ρ} {n : Nat}
    (h : Numbered (⟨s, l ++ t :: r, n⟩ : World Store Task Op Ans ε ρ)) (s' : Store) :
    Numbered (⟨s', l ++ r, n⟩ : World Store Task Op Ans ε ρ) := by
  have sub : (l ++ r).Sublist (l ++ t :: r) := (List.sublist_cons_self t r).append_left l
  exact ⟨h.distinct.sublist (sub.map _), fun t' ht => h.below t' (sub.subset ht)⟩

theorem numbered_step {w w' : World Store Task Op Ans ε ρ} {a : Act Request Choice Event}
    (h : Numbered w) (move : M.step w a = some w') : Numbered w' := by
  cases Machine.step_move move with
  | request s b _ eq => exact eq ▸ numbered_spawn h s M.code [b]
  | resume l r t op k b s found _ _ eq =>
    have heq := (focus_some found).1
    constructor
    · rw [eq]
      simpa [heq] using h.distinct
    · rw [eq]
      intro t' ht
      have := h.below
      rw [heq] at this
      simp only [List.mem_append, List.mem_cons] at ht this
      rcases ht with ht | rfl | ht
      · exact this t' (.inl ht)
      · exact this t (.inr (.inl rfl))
      · exact this t' (.inr (.inr ht))
  | settle l r t out found _ eq =>
    have heq := (focus_some found).1
    rw [eq]
    obtain ⟨s, ts, n⟩ := w
    simp only at heq
    subst heq
    exact numbered_spawn (numbered_remove h s) _ M.code _
  | crash l r t found eq =>
    have heq := (focus_some found).1
    rw [eq]
    obtain ⟨s, ts, n⟩ := w
    simp only at heq
    subst heq
    exact numbered_remove h _
  | outside s _ eq => exact eq ▸ ⟨h.distinct, h.below⟩

theorem Numbered.others_ne {w : World Store Task Op Ans ε ρ} (h : Numbered w) {pid : Nat}
    {l r : List (Thread Task Op Ans ε ρ)} {t : Thread Task Op Ans ε ρ}
    (found : focus pid w.threads = some (l, t, r)) : ∀ t' ∈ l ++ r, t'.pid ≠ pid := by
  obtain ⟨heq, rfl⟩ := focus_some found
  have hd := h.distinct
  rw [heq, List.map_append, List.map_cons, List.perm_middle.nodup_iff, List.nodup_cons] at hd
  intro t' ht hp
  apply hd.1
  rw [← List.map_append, ← hp]
  exact List.mem_map_of_mem ht

theorem Numbered.reach (h : Numbered w₀) {w : World Store Task Op Ans ε ρ}
    (path : Reach M allowed w₀ w) : Numbered w :=
  path.invariant h fun _ _ _ _ _ move hw => numbered_step hw move

/-- What the answers to a thread's calls keep of its program holds from then on. -/
theorem Reach.program_keeps {pid : Nat} {P : Prog Op Ans ε ρ → Prop}
    {w w' : World Store Task Op Ans ε ρ}
    (old : pid < w.nextPid) (here : ∀ t ∈ w.threads, t.pid = pid → P t.prog)
    (answer : ∀ w c op k a s, allowed w (.resume pid c) → M.exec pid op c w.store = some (a, s) →
      P (.await op k) → P (k a)) (path :
      Reach M allowed w w') : ∀ t ∈ w'.threads, t.pid = pid → P t.prog := by
  refine (path.invariant (I := fun w => pid < w.nextPid ∧ ∀ t ∈ w.threads, t.pid = pid →
    P t.prog) ⟨old, here⟩ ?_).2
  rintro w w' a - ok move ⟨old, here⟩
  cases Machine.step_move move with
  | request s b admitted eq =>
    subst eq
    refine ⟨Nat.lt_succ_of_lt old, fun t ht own => ?_⟩
    rcases List.mem_append.mp ht with ht | ht
    · exact here t ht own
    · obtain ⟨-, -, new⟩ := mem_spawn ht
      omega
  | resume l r t op k b s found at_call answered eq =>
    obtain ⟨hmem, others⟩ := mem_of_focus found
    subst eq
    refine ⟨old, fun t' ht own => ?_⟩
    rcases mem_middle.mp ht with rfl | ht
    · have same := (focus_some found).2.symm.trans own
      subst same
      have before := here t hmem own
      rw [at_call] at before
      exact answer w _ op k b s ok answered before
    · exact here t' (others t' ht) own
  | settle l r t out found ended eq =>
    subst eq
    refine ⟨Nat.lt_add_right _ old, fun t' ht own => ?_⟩
    rcases List.mem_append.mp ht with ht | ht
    · exact here t' ((mem_of_focus found).2 t' ht) own
    · obtain ⟨-, -, new⟩ := mem_spawn ht
      omega
  | crash l r t found eq =>
    subst eq
    exact ⟨old, fun t' ht own => here t' ((mem_of_focus found).2 t' ht) own⟩
  | outside s happened eq =>
    subst eq
    exact ⟨old, here⟩

/-- In the world `v`, on the way from `w₀` to `w`, this call of the thread was answered so. -/
structure Answered (M : Machine Store Task Op Ans ε ρ Request Choice Event)
    (allowed : World Store Task Op Ans ε ρ → Act Request Choice Event → Prop)
    (w₀ v w : World Store Task Op Ans ε ρ) (t : Thread Task Op Ans ε ρ) (op : Op)
    (a : Except ε (Ans op)) : Prop where
  before : Reach M allowed w₀ v
  asked : ∃ t' ∈ v.threads, t'.pid = t.pid ∧ t'.task = t.task ∧ t'.prog.head = some op
  answer : ∃ c s, M.exec t.pid op c v.store = some (a, s)
  after : Reach M allowed v w

/-- The thread stands where its code stands after the answers it was given in the run. -/
def Standing (M : Machine Store Task Op Ans ε ρ Request Choice Event)
    (allowed : World Store Task Op Ans ε ρ → Act Request Choice Event → Prop)
    (w₀ w : World Store Task Op Ans ε ρ) (t : Thread Task Op Ans ε ρ) : Prop :=
  ∃ heard, Leaves (M.code t.task) heard t.prog ∧
    ∀ x ∈ heard, ∃ v, Answered M allowed w₀ v w t x.1 x.2

theorem standing_new {w : World Store Task Op Ans ε ρ} {n : Nat} {tasks : List Task}
    {t : Thread Task Op Ans ε ρ} (h : t ∈ spawn M.code n tasks) : Standing M allowed w₀ w t := by
  refine ⟨[], ?_, fun x hx => by cases hx⟩
  rw [(mem_spawn h).2.1]
  exact .start

theorem Standing.step {w w' : World Store Task Op Ans ε ρ} {a : Act Request Choice Event}
    {t : Thread Task Op Ans ε ρ} (h : Standing M allowed w₀ w t) (ok : allowed w a)
    (move : M.step w a = some w') : Standing M allowed w₀ w' t := by
  obtain ⟨heard, left, answers⟩ := h
  refine ⟨heard, left, fun x hx => ?_⟩
  obtain ⟨v, h⟩ := answers x hx
  exact ⟨v, h.before, h.asked, h.answer, h.after.step ok move⟩

theorem Reach.standing (idle : w₀.threads = []) {w : World Store Task Op Ans ε ρ}
    (path : Reach M allowed w₀ w) : ∀ t ∈ w.threads, Standing M allowed w₀ w t := by
  induction path with
  | start =>
    intro t ht
    rw [idle] at ht
    cases ht
  | step path ok move ih =>
    rename_i w w' a
    have kept : ∀ t ∈ w.threads, Standing M allowed w₀ w' t := fun t ht => (ih t ht).step ok move
    cases Machine.step_move move with
    | request s b admitted eq =>
      intro t ht
      simp only [eq, List.mem_append] at ht
      exact ht.elim (kept t) standing_new
    | @resume pid c l r t op k b s found at_call answered eq =>
      obtain ⟨hmem, others⟩ := mem_of_focus found
      obtain rfl : t.pid = pid := (focus_some found).2
      intro t' ht
      rw [eq] at ht
      rcases mem_middle.mp ht with rfl | ht
      · obtain ⟨heard, left, answers⟩ := kept t hmem
        rw [at_call] at left
        refine ⟨heard ++ [⟨op, b⟩], left.answer b, fun x hx => ?_⟩
        rcases List.mem_append.mp hx with hx | hx
        · obtain ⟨v, h⟩ := answers x hx
          exact ⟨v, h.before, h.asked, h.answer, h.after⟩
        · obtain rfl := List.mem_singleton.mp hx
          exact ⟨w, path, ⟨t, hmem, rfl, rfl, by rw [at_call]; rfl⟩, ⟨c, s, answered⟩,
            .step .start ok move⟩
      · exact kept t' (others t' ht)
    | settle l r t out found ended eq =>
      intro t' ht
      simp only [eq, List.mem_append] at ht
      exact ht.elim
        (fun ht => kept t' ((mem_of_focus found).2 t' (List.mem_append.mpr ht))) standing_new
    | crash l r t found eq =>
      intro t' ht
      rw [eq] at ht
      exact kept t' ((mem_of_focus found).2 t' ht)
    | outside s happened eq =>
      intro t' ht
      rw [eq] at ht
      exact kept t' ht

/-- What the code asks for on the strength of what it heard, it asks for on the strength of
answers given in the run. -/
theorem Reach.recalls {P : List (Exchange Op Ans ε) → Op → Prop}
    {post : List (Exchange Op Ans ε) → Except ε ρ → Prop} (idle : w₀.threads = [])
    {w : World Store Task Op Ans ε ρ} (path : Reach M allowed w₀ w) {t : Thread Task Op Ans ε ρ}
    (ht : t ∈ w.threads) (code : Obeys (recording P) post [] (M.code t.task)) :
    ∃ heard, Obeys (recording P) post heard t.prog ∧
      ∀ x ∈ heard, ∃ v, Answered M allowed w₀ v w t x.1 x.2 := by
  obtain ⟨heard, left, answers⟩ := path.standing idle t ht
  exact ⟨heard, code.after left, answers⟩

/-- Obligations, step by step, for a store invariant `G` and a property `T` of
every thread that other threads' steps must not destroy. -/
structure Threadwise (M : Machine Store Task Op Ans ε ρ Request Choice Event)
    (allowed : World Store Task Op Ans ε ρ → Act Request Choice Event → Prop)
    (G : Store → Prop) (T : Store → Thread Task Op Ans ε ρ → Prop) : Prop where
  request : ∀ w q s a, allowed w (.request q) → G w.store →
    (∀ t ∈ w.threads, T w.store t) → M.enter q w.store = some (s, a) →
    G s ∧ (∀ t ∈ w.threads, T s t) ∧ ∀ n, T s ⟨n, a, M.code a⟩
  resume : ∀ w pid c l r t op k a s, allowed w (.resume pid c) → G w.store →
    (∀ t ∈ w.threads, T w.store t) → (∀ t' ∈ l ++ r, t'.pid ≠ pid) →
    focus pid w.threads = some (l, t, r) →
    t.prog = .await op k → M.exec pid op c w.store = some (a, s) →
    G s ∧ (∀ t ∈ l ++ r, T s t) ∧ T s { t with prog := k a }
  settle : ∀ w pid l r t out, allowed w (.settle pid) → G w.store →
    (∀ t ∈ w.threads, T w.store t) → focus pid w.threads = some (l, t, r) →
    t.prog = .done out →
    G (M.finish t.task out w.store).1 ∧
      (∀ t' ∈ l ++ r, T (M.finish t.task out w.store).1 t') ∧
      ∀ n, ∀ a ∈ (M.finish t.task out w.store).2, T (M.finish t.task out w.store).1 ⟨n, a, M.code a⟩
  crash : ∀ w pid l r t, allowed w (.crash pid) → G w.store →
    (∀ t ∈ w.threads, T w.store t) → (∀ t' ∈ l ++ r, t'.pid ≠ pid) →
    focus pid w.threads = some (l, t, r) →
    G (M.drop pid t.task w.store) ∧ ∀ t' ∈ l ++ r, T (M.drop pid t.task w.store) t'
  outside : ∀ w e s, allowed w (.outside e) → G w.store →
    (∀ t ∈ w.threads, T w.store t) → M.outside e w.store = some s →
    G s ∧ ∀ t ∈ w.threads, T s t

theorem Threadwise.step {G : Store → Prop} {T : Store → Thread Task Op Ans ε ρ → Prop}
    (h : Threadwise M allowed G T) {w w' : World Store Task Op Ans ε ρ}
    {a : Act Request Choice Event} (ok : allowed w a) (move : M.step w a = some w')
    (num : Numbered w) (hG : G w.store) (hT : ∀ t ∈ w.threads, T w.store t) :
    G w'.store ∧ ∀ t ∈ w'.threads, T w'.store t := by
  cases Machine.step_move move with
  | request s b admitted eq =>
    obtain ⟨hs, hold, hnew⟩ := h.request w _ s b ok hG hT admitted
    subst eq
    refine ⟨hs, fun t ht => ?_⟩
    rcases List.mem_append.mp ht with ht | ht
    · exact hold t ht
    · rw [spawn, spawn, List.mem_singleton] at ht
      exact ht ▸ hnew _
  | resume l r t op k b s found at_call answered eq =>
    obtain ⟨hs, hold, hself⟩ :=
      h.resume w _ _ l r t op k b s ok hG hT (num.others_ne found) found at_call answered
    subst eq
    refine ⟨hs, fun t' ht => ?_⟩
    rcases mem_middle.mp ht with rfl | ht
    · exact hself
    · exact hold t' ht
  | settle l r t out found ended eq =>
    obtain ⟨hs, hold, hnew⟩ := h.settle w _ l r t out ok hG hT found ended
    subst eq
    refine ⟨hs, fun t' ht => ?_⟩
    rcases List.mem_append.mp ht with ht | ht
    · exact hold t' ht
    · obtain ⟨hm, hp, _⟩ := mem_spawn ht
      have := hnew t'.pid t'.task hm
      rw [← hp] at this
      exact this
  | crash l r t found eq =>
    obtain ⟨hs, hold⟩ := h.crash w _ l r t ok hG hT (num.others_ne found) found
    subst eq
    exact ⟨hs, hold⟩
  | outside s happened eq =>
    obtain ⟨hs, hold⟩ := h.outside w _ s ok hG hT happened
    subst eq
    exact ⟨hs, hold⟩

theorem Threadwise.holds {G : Store → Prop} {T : Store → Thread Task Op Ans ε ρ → Prop}
    (h : Threadwise M allowed G T) (num : Numbered w₀) (hG : G w₀.store)
    (hT : ∀ t ∈ w₀.threads, T w₀.store t)
    {w : World Store Task Op Ans ε ρ} (path : Reach M allowed w₀ w) :
    G w.store ∧ ∀ t ∈ w.threads, T w.store t := by
  induction path with
  | start => exact ⟨hG, hT⟩
  | step path ok move ih => exact h.step ok move (num.reach path) ih.1 ih.2

/-- Threads that keep to the observer of their task, one without memory, over a store
invariant that gives the answers the observers rely on. -/
theorem Threadwise.observed {m : Task → Monitor Op Ans ε Unit} {G : Store → Prop}
    (code : ∀ task, Obeys (m task) (fun _ _ => True) () (M.code task))
    (enter : ∀ q s s' task, G s → M.enter q s = some (s', task) → G s')
    (exec : ∀ task pid op c s a s', G s → (m task).may () op → M.exec pid op c s = some (a, s') →
      G s' ∧ (m task).next () op a ())
    (finish : ∀ task out s, G s → G (M.finish task out s).1)
    (drop : ∀ pid task s, G s → G (M.drop pid task s))
    (outside : ∀ e s s', G s → M.outside e s = some s' → G s') :
    Threadwise M allowed G fun _ t => Obeys (m t.task) (fun _ _ => True) () t.prog where
  request w q s task _ hG hT entered := ⟨enter q w.store s task hG entered, hT, fun _ => code task⟩
  resume w pid c l r t op k a s _ hG hT _ found at_call answered := by
    obtain ⟨hmem, hothers⟩ := mem_of_focus found
    have obeys := hT t hmem
    rw [at_call] at obeys
    obtain ⟨hs, hn⟩ := exec t.task pid op c w.store a s hG obeys.1 answered
    exact ⟨hs, fun t' ht => hT t' (hothers t' ht), obeys.2 a () hn⟩
  settle w pid l r t out _ hG hT found _ := by
    exact ⟨finish _ _ _ hG, fun t' ht => hT t' ((mem_of_focus found).2 t' ht),
      fun _ task _ => code task⟩
  crash w pid l r t _ hG hT _ found := by
    exact ⟨drop _ _ _ hG, fun t' ht => hT t' ((mem_of_focus found).2 t' ht)⟩
  outside w e s _ hG hT happened := ⟨outside e w.store s hG happened, hT⟩

end Runs

/-! ## Runs with a log -/

/-- Worlds reached from `w₀`, with what the steps have been noted as. -/
inductive Traced {N : Type} (M : Machine Store Task Op Ans ε ρ Request Choice Event)
    (allowed : World Store Task Op Ans ε ρ → Act Request Choice Event → Prop)
    (note : World Store Task Op Ans ε ρ → Act Request Choice Event → List N)
    (w₀ : World Store Task Op Ans ε ρ) : World Store Task Op Ans ε ρ → List N → Prop where
  | start : Traced M allowed note w₀ w₀ []
  | step {w w' : World Store Task Op Ans ε ρ} {log : List N} {a : Act Request Choice Event}
      (path : Traced M allowed note w₀ w log) (ok : allowed w a) (move : M.step w a = some w') :
      Traced M allowed note w₀ w' (log ++ note w a)

section Logs
variable {N : Type} {M : Machine Store Task Op Ans ε ρ Request Choice Event}
variable {allowed : World Store Task Op Ans ε ρ → Act Request Choice Event → Prop}
variable {note : World Store Task Op Ans ε ρ → Act Request Choice Event → List N}
variable {w₀ w : World Store Task Op Ans ε ρ}

theorem Traced.reach {log : List N} (path : Traced M allowed note w₀ w log) :
    Reach M allowed w₀ w := by
  induction path with
  | start => exact .start
  | step _ ok move ih => exact .step ih ok move

theorem Reach.traced (note : World Store Task Op Ans ε ρ → Act Request Choice Event → List N)
    (path : Reach M allowed w₀ w) : ∃ log, Traced M allowed note w₀ w log := by
  induction path with
  | start => exact ⟨[], .start⟩
  | step _ ok move ih =>
    obtain ⟨log, traced⟩ := ih
    exact ⟨_, .step traced ok move⟩

end Logs

/-! ## A value per thread -/

/-- Each thread has a value that its observer keeps, and that fits the end it comes to. -/
def Keeps {σ : Type} (m : Task → Monitor Op Ans ε σ) (post : Task → σ → Except ε ρ → Prop)
    (t : Thread Task Op Ans ε ρ) (x : Task × σ) : Prop :=
  t.task = x.1 ∧ Obeys (m x.1) (post x.1) x.2 t.prog

/-- Each thread has a value that its observer keeps. -/
def Carries {σ : Type} (m : Task → Monitor Op Ans ε σ) (t : Thread Task Op Ans ε ρ)
    (x : Task × σ) : Prop :=
  t.task = x.1 ∧ Obeys (m x.1) (fun _ _ => True) x.2 t.prog

/-- Obligations, step by step, for an invariant `G` of the store, the values of all threads
and the log; a new thread starts with the value `first`, and `J` is known of every store. -/
structure Logged {σ N : Type} (M : Machine Store Task Op Ans ε ρ Request Choice Event)
    (allowed : World Store Task Op Ans ε ρ → Act Request Choice Event → Prop)
    (note : World Store Task Op Ans ε ρ → Act Request Choice Event → List N)
    (m : Task → Monitor Op Ans ε σ) (post : Task → σ → Except ε ρ → Prop) (first : σ)
    (J : Store → Prop) (G : Store → List (Task × σ) → List N → Prop) : Prop where
  code : ∀ task, Obeys (m task) (post task) first (M.code task)
  request : ∀ w q s task xs log, allowed w (.request q) → w.threads.map (·.task) = xs.map (·.1) →
    G w.store xs log → M.enter q w.store = some (s, task) →
    G s (xs ++ [(task, first)]) (log ++ note w (.request q))
  resume : ∀ w pid c ts t us op k a s v l r log, allowed w (.resume pid c) →
    focus pid w.threads = some (ts, t, us) → t.prog = .await op k → J w.store → J s →
    G w.store (l ++ (t.task, v) :: r) log → (m t.task).may v op →
    M.exec pid op c w.store = some (a, s) →
    ∃ v', (m t.task).next v op a v' ∧ G s (l ++ (t.task, v') :: r) (log ++ note w (.resume pid c))
  settle : ∀ w pid task v out l r log, G w.store (l ++ (task, v) :: r) log → post task v out →
    G (M.finish task out w.store).1 (l ++ r ++ (M.finish task out w.store).2.map
      fun new => (new, first))
      (log ++ note w (.settle pid))
  crash : ∀ w pid ts t us v l r log, allowed w (.crash pid) →
    focus pid w.threads = some (ts, t, us) →
    G w.store (l ++ (t.task, v) :: r) log →
    G (M.drop pid t.task w.store) (l ++ r) (log ++ note w (.crash pid))
  outside : ∀ w e s xs log, G w.store xs log → M.outside e w.store = some s →
    G s xs (log ++ note w (.outside e))

section Values
variable {σ N : Type} {M : Machine Store Task Op Ans ε ρ Request Choice Event}
variable {allowed : World Store Task Op Ans ε ρ → Act Request Choice Event → Prop}
variable {note : World Store Task Op Ans ε ρ → Act Request Choice Event → List N}
variable {m : Task → Monitor Op Ans ε σ} {post : Task → σ → Except ε ρ → Prop} {first : σ}
  {J : Store → Prop}
variable {G : Store → List (Task × σ) → List N → Prop}

theorem keeps_spawn (code : ∀ task, Obeys (m task) (post task) first (M.code task)) (n : Nat)
    (tasks : List Task) :
    List.Forall₂ (Keeps m post) (spawn M.code n tasks) (tasks.map fun task => (task, first)) := by
  induction tasks generalizing n with
  | nil => exact .nil
  | cons task tasks ih => exact .cons ⟨rfl, code task⟩ (ih (n + 1))

theorem keeps_tasks {ts : List (Thread Task Op Ans ε ρ)} {xs : List (Task × σ)}
    (h : List.Forall₂ (Keeps m post) ts xs) : ts.map (·.task) = xs.map (·.1) := by
  induction h with
  | nil => rfl
  | cons head _ ih => rw [List.map_cons, List.map_cons, head.1, ih]

/-- The values on both sides of a thread. -/
theorem keeps_split {l r : List (Thread Task Op Ans ε ρ)} {t : Thread Task Op Ans ε ρ}
    {xs : List (Task × σ)} (h : List.Forall₂ (Keeps m post) (l ++ t :: r) xs) :
    ∃ xl v xr, xs = xl ++ (t.task, v) :: xr ∧ List.Forall₂ (Keeps m post) l xl ∧
      Obeys (m t.task) (post t.task) v t.prog ∧ List.Forall₂ (Keeps m post) r xr := by
  induction l generalizing xs with
  | nil =>
    cases h with
    | cons head tail =>
      rename_i x xr
      obtain ⟨task, v⟩ := x
      obtain ⟨same, obeys⟩ := head
      obtain rfl : t.task = task := same
      exact ⟨[], v, xr, rfl, .nil, obeys, tail⟩
  | cons t' l ih =>
    cases h with
    | cons head tail =>
      obtain ⟨xl, v, xr, rfl, left, obeys, right⟩ := ih tail
      exact ⟨_ :: xl, v, xr, rfl, .cons head left, obeys, right⟩

theorem Logged.step (h : Logged M allowed note m post first J G)
    {w w' : World Store Task Op Ans ε ρ}
    {a : Act Request Choice Event} {log : List N} (ok : allowed w a) (move : M.step w a = some w')
    (known : J w.store) (known' : J w'.store) {xs : List (Task × σ)}
    (kept : List.Forall₂ (Keeps m post) w.threads xs) (hG : G w.store xs log) :
    ∃ xs', List.Forall₂ (Keeps m post) w'.threads xs' ∧ G w'.store xs' (log ++ note w a) := by
  cases Machine.step_move move with
  | request s task admitted eq =>
    subst eq
    exact ⟨_, List.rel_append kept (keeps_spawn h.code w.nextPid [task]),
      h.request w _ s task xs log ok (keeps_tasks kept) hG admitted⟩
  | resume ts us t op k b s found at_call answered eq =>
    subst eq
    rw [(focus_some found).1] at kept
    obtain ⟨xl, v, xr, rfl, left, obeys, right⟩ := keeps_split kept
    rw [at_call] at obeys
    obtain ⟨v', next, hs⟩ :=
      h.resume w _ _ ts t us op k b s v xl xr log ok found at_call known known' hG
      obeys.1 answered
    exact ⟨_, List.rel_append left (.cons ⟨rfl, obeys.2 b v' next⟩ right), hs⟩
  | settle ts us t out found ended eq =>
    subst eq
    rw [(focus_some found).1] at kept
    obtain ⟨xl, v, xr, rfl, left, obeys, right⟩ := keeps_split kept
    rw [ended] at obeys
    exact ⟨_, List.rel_append (List.rel_append left right) (keeps_spawn h.code _ _),
      h.settle w _ t.task v out xl xr log hG obeys⟩
  | crash ts us t found eq =>
    subst eq
    rw [(focus_some found).1] at kept
    obtain ⟨xl, v, xr, rfl, left, -, right⟩ := keeps_split kept
    exact ⟨_, List.rel_append left right, h.crash w _ ts t us v xl xr log ok found hG⟩
  | outside s happened eq =>
    subst eq
    exact ⟨xs, kept, h.outside w _ s xs log hG happened⟩

/-- From a world without threads. -/
theorem Logged.holds (h : Logged M allowed note m post first J G)
    {w₀ w : World Store Task Op Ans ε ρ} {log : List N} (none : w₀.threads = [])
    (known : ∀ w, Reach M allowed w₀ w → J w.store) (hG : G w₀.store [] [])
    (path : Traced M allowed note w₀ w log) :
    ∃ xs, List.Forall₂ (Keeps m post) w.threads xs ∧ G w.store xs log := by
  induction path with
  | start => exact ⟨[], none ▸ .nil, hG⟩
  | step before ok move ih =>
    obtain ⟨xs, kept, hs⟩ := ih
    exact h.step ok move (known _ before.reach) (known _ (.step before.reach ok move)) kept hs

end Values

/-- Obligations, step by step, for an invariant `G` of the store and the values of all
threads; a new thread starts with the value `first`. -/
structure Accounted {σ : Type} (M : Machine Store Task Op Ans ε ρ Request Choice Event)
    (allowed : World Store Task Op Ans ε ρ → Act Request Choice Event → Prop)
    (m : Task → Monitor Op Ans ε σ) (first : σ) (G : Store → List (Task × σ) → Prop) : Prop where
  code : ∀ task, Obeys (m task) (fun _ _ => True) first (M.code task)
  request : ∀ w q s task xs, allowed w (.request q) → w.threads.map (·.task) = xs.map (·.1) →
    G w.store xs →
    M.enter q w.store = some (s, task) → G s (xs ++ [(task, first)])
  resume : ∀ pid c s op a s' task v l r, G s (l ++ (task, v) :: r) → (m task).may v op →
    M.exec pid op c s = some (a, s') → ∃ v', (m task).next v op a v' ∧ G s' (l ++ (task, v') :: r)
  settle : ∀ s task v out l r, G s (l ++ (task, v) :: r) →
    G (M.finish task out s).1 (l ++ r ++ (M.finish task out s).2.map fun new => (new, first))
  crash : ∀ pid s task v l r, G s (l ++ (task, v) :: r) → G (M.drop pid task s) (l ++ r)
  outside : ∀ e s s' xs, G s xs → M.outside e s = some s' → G s' xs

section Accounts
variable {σ : Type} {M : Machine Store Task Op Ans ε ρ Request Choice Event}
variable {allowed : World Store Task Op Ans ε ρ → Act Request Choice Event → Prop}
variable {m : Task → Monitor Op Ans ε σ} {first : σ} {G : Store → List (Task × σ) → Prop}

/-- Accounts are kept along the log that notes nothing. -/
theorem Accounted.logged (h : Accounted M allowed m first G) :
    Logged M allowed (fun _ _ => ([] : List Empty)) m (fun _ _ _ => True) first (fun _ => True)
      (fun s xs _ => G s xs) where
  code := h.code
  request w q s task xs _ ok tasks hG admitted := h.request w q s task xs ok tasks hG admitted
  resume w pid c _ t _ op _ a s v l r _ _ _ _ _ _ hG may answered :=
    h.resume pid c w.store op a s t.task v l r hG may answered
  settle w _ task v out l r _ hG _ := h.settle w.store task v out l r hG
  crash w pid _ t _ v l r _ _ _ hG := h.crash pid w.store t.task v l r hG
  outside w e s xs _ hG happened := h.outside e w.store s xs hG happened

/-- From a world without threads. -/
theorem Accounted.holds (h : Accounted M allowed m first G) {w₀ w : World Store Task Op Ans ε ρ}
    (none : w₀.threads = []) (hG : G w₀.store []) (path : Reach M allowed w₀ w) :
    ∃ xs, List.Forall₂ (Carries m) w.threads xs ∧ G w.store xs := by
  obtain ⟨log, traced⟩ := path.traced fun _ _ => ([] : List Empty)
  exact h.logged.holds none (fun _ _ => trivial) hG traced

end Accounts

/-! ## One thread at a time -/

section Driving
variable {exec : Nat → (op : Op) → Choice → Store → Option (Except ε (Ans op) × Store)}
  {pid : Nat} {α β : Type}

/-- The next calls of a program are answered, and nothing else happens in between. -/
inductive Drives (exec : Nat → (op : Op) → Choice → Store → Option (Except ε (Ans op) × Store))
    (pid : Nat) {α : Type} : Prog Op Ans ε α → Store → Prog Op Ans ε α → Store → Prop where
  | here (p : Prog Op Ans ε α) (s : Store) : Drives exec pid p s p s
  | next {op : Op} {k : Except ε (Ans op) → Prog Op Ans ε α} (c : Choice) {a : Except ε (Ans op)}
      {s s₁ s' : Store} {p' : Prog Op Ans ε α} (answered : exec pid op c s = some (a, s₁))
      (rest : Drives exec pid (k a) s₁ p' s') : Drives exec pid (.await op k) s p' s'

theorem Drives.trans {p p₁ p₂ : Prog Op Ans ε α} {s s₁ s₂ : Store} (h : Drives exec pid p s p₁ s₁)
    (h' : Drives exec pid p₁ s₁ p₂ s₂) : Drives exec pid p s p₂ s₂ := by
  induction h with
  | here p s => exact h'
  | next c answered rest ih => exact .next c answered (ih h')

theorem drives_call {op : Op} {c : Choice} {a : Except ε (Ans op)} {s s' : Store}
    (answered : exec pid op c s = some (a, s')) : Drives exec pid (Prog.call op) s (.done a) s' :=
  .next c answered (.here _ _)

theorem Drives.bind {p p' : Prog Op Ans ε α} {s s' : Store} (h : Drives exec pid p s p' s')
    (f : α → Prog Op Ans ε β) : Drives exec pid (p.bind f) s (p'.bind f) s' := by
  induction h with
  | here p s => exact .here _ _
  | next c answered rest ih => exact .next c answered ih

theorem Drives.tryCatch {p p' : Prog Op Ans ε α} {s s' : Store} (h : Drives exec pid p s p' s')
    (f : ε → Prog Op Ans ε α) : Drives exec pid (p.tryCatch f) s (p'.tryCatch f) s' := by
  induction h with
  | here p s => exact .here _ _
  | next c answered rest ih => exact .next c answered ih

/-- A prefix returns, and the rest goes on. -/
theorem Drives.seq {p : Prog Op Ans ε α} {q : Prog Op Ans ε β} {f : α → Prog Op Ans ε β} {a : α}
    {s s₁ s' : Store} (h : Drives exec pid p s (.done (.ok a)) s₁)
    (h' : Drives exec pid (f a) s₁ q s') :
    Drives exec pid (p.bind f) s q s' :=
  (h.bind f).trans h'

theorem focus_append {l r : List (Thread Task Op Ans ε ρ)} {t : Thread Task Op Ans ε ρ}
    (fresh : ∀ t' ∈ l, t'.pid ≠ t.pid) : focus t.pid (l ++ t :: r) = some (l, t, r) := by
  induction l with
  | nil => simp [focus]
  | cons t' l ih =>
    have rest := ih fun x hx => fresh x (List.mem_cons_of_mem _ hx)
    rw [List.cons_append, focus, if_neg (fresh t' List.mem_cons_self), rest]

theorem Drives.reach {M : Machine Store Task Op Ans ε ρ Request Choice Event}
    {allowed : World Store Task Op Ans ε ρ → Act Request Choice Event → Prop}
    (ok : ∀ w c, allowed w (.resume pid c)) {p p' : Prog Op Ans ε ρ} {s s' : Store}
    (h : Drives M.exec pid p s p' s') (l r : List (Thread Task Op Ans ε ρ)) (task : Task) (n : Nat)
    (fresh : ∀ t ∈ l, t.pid ≠ pid) :
    Reach M allowed ⟨s, l ++ ⟨pid, task, p⟩ :: r, n⟩ ⟨s', l ++ ⟨pid, task, p'⟩ :: r, n⟩ := by
  induction h with
  | here p s => exact .start
  | next c answered rest ih =>
    rename_i op k a s s₁ s' p'
    have move : M.step ⟨s, l ++ ⟨pid, task, .await op k⟩ :: r, n⟩ (.resume pid c) =
        some ⟨s₁, l ++ ⟨pid, task, k a⟩ :: r, n⟩ := by
      rw [Machine.step, focus_append (t := ⟨pid, task, .await op k⟩) fresh]
      simp only [answered]
    exact (Reach.step .start (ok _ c) move).trans ih

/-- A request that is served to its end before anything else happens. -/
theorem Drives.serve {M : Machine Store Task Op Ans ε ρ Request Choice Event}
    {w : World Store Task Op Ans ε ρ} (numbered : Numbered w) {q : Request} {s s' : Store}
    {task : Task} {out : Except ε ρ} (entered : M.enter q w.store = some (s, task))
    (h : Drives M.exec w.nextPid (M.code task) s (.done out) s') :
    Reach M anyStep w ⟨(M.finish task out s').1,
      w.threads ++ spawn M.code (w.nextPid + 1) (M.finish task out s').2,
      w.nextPid + 1 + (M.finish task out s').2.length⟩ := by
  have others : ∀ t ∈ w.threads, t.pid ≠ w.nextPid := fun t ht => Nat.ne_of_lt (numbered.below t ht)
  have start : M.step w (.request q) =
      some ⟨s, w.threads ++ [⟨w.nextPid, task, M.code task⟩], w.nextPid + 1⟩ := by
    rw [Machine.step, entered]
    rfl
  have middle : Reach M anyStep ⟨s, w.threads ++ [⟨w.nextPid, task, M.code task⟩], w.nextPid + 1⟩
      ⟨s', w.threads ++ [⟨w.nextPid, task, .done out⟩], w.nextPid + 1⟩ :=
    h.reach (fun _ _ => trivial) w.threads [] task (w.nextPid + 1) others
  have settle :
      M.step ⟨s', w.threads ++ [⟨w.nextPid, task, .done out⟩], w.nextPid + 1⟩ (.settle w.nextPid) =
      some ⟨(M.finish task out s').1,
        w.threads ++ spawn M.code (w.nextPid + 1) (M.finish task out s').2,
        w.nextPid + 1 + (M.finish task out s').2.length⟩ := by
    have found : focus w.nextPid (w.threads ++ [⟨w.nextPid, task, .done out⟩]) =
        some (w.threads, ⟨w.nextPid, task, .done out⟩, []) :=
      focus_append (t := ⟨w.nextPid, task, .done out⟩) others
    rw [Machine.step, found]
    simp only [List.append_nil]
  exact (Reach.step .start trivial start).trans (.step middle trivial settle)

/-- A program that is served alone, by a server whose every turn is a run of the machine. -/
theorem run_reach {σ : Type} (M : Machine Store Task Op Ans ε ρ Request Choice Event)
    (allowed : World Store Task Op Ans ε ρ → Act Request Choice Event → Prop) (pid : Nat)
    (task : Task) (n : Nat)
    (state : σ → Store) (server : σ → (op : Op) → Except ε (Ans op) × σ) {I : σ → Prop}
    {P : Op → Prop} {E : ε → Prop}
    {l r : List (Thread Task Op Ans ε ρ)}
    (turn : ∀ x op k, I x → P op → I (server x op).2 ∧
      Reach M allowed ⟨state x, l ++ ⟨pid, task, .await op k⟩ :: r, n⟩
        ⟨state (server x op).2, l ++ ⟨pid, task, k (server x op).1⟩ :: r, n⟩)
    {p : Prog Op Ans ε ρ} (calls : Within P (fun _ => True) E p) {x : σ} (start : I x) :
    I (p.run server x).2 ∧ Reach M allowed ⟨state x, l ++ ⟨pid, task, p⟩ :: r, n⟩
      ⟨state (p.run server x).2, l ++ ⟨pid, task, .done (p.run server x).1⟩ :: r, n⟩ := by
  induction p generalizing x with
  | done out => exact ⟨start, .start⟩
  | await op k ih =>
    obtain ⟨kept, first⟩ := turn x op k start calls.1
    obtain ⟨kept', rest⟩ := ih (server x op).1 (calls.2 _ fun _ _ => trivial) kept
    exact ⟨kept', first.trans rest⟩

end Driving

end ThreadPools
