import Mathlib.Algebra.Order.Ring.Int
import Mathlib.Init
import Mathlib.Tactic.Basic

/-!
# Programs that await calls

An asynchronous function is a tree: it has either returned or thrown, or it
stands at an awaited call and continues from the answer. The code between two
awaits runs to completion, so the calls are the only points at which other
functions may run. An answer is a value or a rejection.

`Obeys` is the program logic used on such trees. A monitor keeps a local state,
says which calls are allowed in it and how an answer changes it. One monitor may
record what a program has done so far, another may be the whole store on which a
program runs alone. Every tree is well founded, so no fuel is needed.
-/

namespace AwaitPrograms

universe u

inductive Prog (Op : Type) (Ans : Op → Type) (ε α : Type) where
  | done : Except ε α → Prog Op Ans ε α
  | await : (op : Op) → (Except ε (Ans op) → Prog Op Ans ε α) → Prog Op Ans ε α

variable {Op : Type} {Ans : Op → Type} {ε α β : Type}

namespace Prog

def bind : Prog Op Ans ε α → (α → Prog Op Ans ε β) → Prog Op Ans ε β
  | done (.ok a), f => f a
  | done (.error e), _ => done (.error e)
  | await op k, f => await op fun r => (k r).bind f

/-- A `try` block with its `catch` clause. -/
def tryCatch : Prog Op Ans ε α → (ε → Prog Op Ans ε α) → Prog Op Ans ε α
  | done (.ok a), _ => done (.ok a)
  | done (.error e), h => h e
  | await op k, h => await op fun r => (k r).tryCatch h

/-- A `finally` clause: the cleanup runs after a return and after a throw. -/
def finallyDo : Prog Op Ans ε α → Prog Op Ans ε Unit → Prog Op Ans ε α
  | done r, c => c.bind fun _ => done r
  | await op k, c => await op fun r => (k r).finallyDo c

def call (op : Op) : Prog Op Ans ε (Ans op) := await op done

def throw (e : ε) : Prog Op Ans ε α := done (.error e)

instance : Monad (Prog Op Ans ε) where
  pure a := done (.ok a)
  bind := bind

/-- `for (const x of xs) await f(x)`: the first throw leaves the loop. -/
def forEach {γ : Type} (f : γ → Prog Op Ans ε Unit) : List γ → Prog Op Ans ε Unit
  | [] => done (.ok ())
  | x :: xs => (f x).bind fun _ => forEach f xs

/-- The call at which the program stands. -/
def head : Prog Op Ans ε α → Option Op
  | done _ => none
  | await op _ => some op

theorem bind_eq (p : Prog Op Ans ε α) (f : α → Prog Op Ans ε β) : (p >>= f) = p.bind f := rfl

/-- Run alone on a store that answers every call. -/
def run {σ : Type u} (answer : σ → (op : Op) → Except ε (Ans op) × σ) :
    Prog Op Ans ε α → σ → Except ε α × σ
  | done r, s => (r, s)
  | await op k, s => (k (answer s op).1).run answer (answer s op).2

end Prog

/-- Local state of an observer, the calls it allows, and its moves on answers. -/
structure Monitor (Op : Type) (Ans : Op → Type) (ε : Type) (σ : Type u) where
  may : σ → Op → Prop
  next : σ → (op : Op) → Except ε (Ans op) → σ → Prop

variable {σ : Type u} {m : Monitor Op Ans ε σ}

/-- Every call of the program is allowed, and every end satisfies `post`. -/
def Obeys (m : Monitor Op Ans ε σ) (post : σ → Except ε α → Prop) : σ → Prog Op Ans ε α → Prop
  | s, .done r => post s r
  | s, .await op k => m.may s op ∧ ∀ r s', m.next s op r s' → Obeys m post s' (k r)

/-- What the rest of a program must satisfy after a prefix has ended. -/
def andThen (m : Monitor Op Ans ε σ) (post : σ → Except ε β → Prop)
    (f : α → Prog Op Ans ε β) : σ → Except ε α → Prop
  | s, .ok a => Obeys m post s (f a)
  | s, .error e => post s (.error e)

section Rules
variable {post post' : σ → Except ε α → Prop} {s : σ}

theorem Obeys.mono (p : Prog Op Ans ε α) (h : Obeys m post s p)
    (imp : ∀ s r, post s r → post' s r) : Obeys m post' s p := by
  induction p generalizing s with
  | done r => exact imp s r h
  | await op k ih => exact ⟨h.1, fun r s' hn => ih r (h.2 r s' hn)⟩

@[simp] theorem obeys_done (r : Except ε α) : Obeys m post s (.done r) ↔ post s r := Iff.rfl

@[simp] theorem obeys_await (op : Op) (k : Except ε (Ans op) → Prog Op Ans ε α) :
    Obeys m post s (.await op k) ↔
      m.may s op ∧ ∀ r s', m.next s op r s' → Obeys m post s' (k r) := Iff.rfl

@[simp] theorem obeys_throw (e : ε) : Obeys m post s (Prog.throw e) ↔ post s (.error e) := Iff.rfl

theorem obeys_bind {post : σ → Except ε β → Prop} (p : Prog Op Ans ε α)
    (f : α → Prog Op Ans ε β) :
    Obeys m post s (p.bind f) ↔ Obeys m (andThen m post f) s p := by
  induction p generalizing s with
  | done r => cases r with
    | ok a => exact Iff.rfl
    | error e => exact Iff.rfl
  | await op k ih =>
    simp only [Prog.bind, obeys_await]
    exact and_congr_right fun _ => forall_congr' fun r => forall_congr' fun s' =>
      imp_congr_right fun _ => ih r

/-- A program that obeys a monitor is allowed the call at which it stands. -/
theorem may_at_head {p : Prog Op Ans ε α} {op : Op} (h : Obeys m post s p)
    (head : p.head = some op) : m.may s op := by
  cases p with
  | done r => cases head
  | await op' k =>
    cases head
    exact h.1

/-- The rule for an awaited call. -/
theorem obeys_call {post : σ → Except ε β → Prop} {op : Op} {f : Ans op → Prog Op Ans ε β}
    (may : m.may s op) (answered : ∀ a s', m.next s op (.ok a) s' → Obeys m post s' (f a))
    (rejected : ∀ e s', m.next s op (.error e) s' → post s' (.error e)) :
    Obeys m post s ((Prog.call op).bind f) := by
  refine ⟨may, fun r s' hn => ?_⟩
  cases r with
  | ok a => exact answered a s' hn
  | error e => exact rejected e s' hn

/-- The rule for a program and its continuation. -/
theorem Obeys.andThen {q : σ → Except ε α → Prop} {post : σ → Except ε β → Prop}
    {p : Prog Op Ans ε α} {f : α → Prog Op Ans ε β} (hp : Obeys m q s p)
    (next : ∀ s' a, q s' (.ok a) → Obeys m post s' (f a))
    (thrown : ∀ s' e, q s' (.error e) → post s' (.error e)) : Obeys m post s (p.bind f) := by
  rw [obeys_bind]
  refine hp.mono p fun s' r hr => ?_
  cases r with
  | ok a => exact next s' a hr
  | error e => exact thrown s' e hr

theorem Obeys.orElse {q : σ → Except ε α → Prop} {p : Prog Op Ans ε α} {h : ε → Prog Op Ans ε α}
    (hp : Obeys m q s p) (returned : ∀ s' a, q s' (.ok a) → post s' (.ok a))
    (caught : ∀ s' e, q s' (.error e) → Obeys m post s' (h e)) : Obeys m post s (p.tryCatch h) := by
  induction p generalizing s with
  | done r => cases r with
    | ok a => exact returned s a hp
    | error e => exact caught s e hp
  | await op k ih => exact ⟨hp.1, fun r s' hn => ih r (hp.2 r s' hn)⟩

theorem Obeys.finally {q : σ → Except ε α → Prop} {p : Prog Op Ans ε α} {c : Prog Op Ans ε Unit}
    (hp : Obeys m q s p)
    (cleanup : ∀ s' r, q s' r → Obeys m post s' (c.bind fun _ => .done r)) :
    Obeys m post s (p.finallyDo c) := by
  induction p generalizing s with
  | done r => exact cleanup s r hp
  | await op k ih => exact ⟨hp.1, fun r s' hn => ih r (hp.2 r s' hn)⟩

/-- The loop rule: an invariant for the iterations still ahead. -/
theorem obeys_forEach {γ : Type} {post : σ → Except ε Unit → Prop}
    (f : γ → Prog Op Ans ε Unit) (I : List γ → σ → Prop) (xs : List γ)
    (start : I xs s) (last : ∀ s, I [] s → post s (.ok ()))
    (body : ∀ x xs s, I (x :: xs) s → Obeys m
      (fun s' r => match r with | .ok _ => I xs s' | .error e => post s' (.error e)) s (f x)) :
    Obeys m post s (Prog.forEach f xs) := by
  induction xs generalizing s with
  | nil => exact last s start
  | cons x xs ih =>
    rw [Prog.forEach, obeys_bind]
    refine (body x xs s start).mono _ fun s' r hr => ?_
    cases r with
    | ok _ => exact ih hr
    | error e => exact hr

end Rules

/-- As long as rejections satisfy `R`, every call satisfies `P` and every throw `E`. -/
def Within (P : Op → Prop) (R E : ε → Prop) : Prog Op Ans ε α → Prop
  | .done (.ok _) => True
  | .done (.error e) => E e
  | .await op k => P op ∧ ∀ r, (∀ e, r = .error e → R e) → Within P R E (k r)

section Footprints
variable {P Q : Op → Prop} {R E F : ε → Prop}

@[simp] theorem within_ok (a : α) : Within P R E (Prog.done (.ok a) : Prog Op Ans ε α) := trivial

@[simp] theorem within_pure (a : α) : Within P R E (pure a : Prog Op Ans ε α) := trivial

@[simp] theorem within_throw (e : ε) :
    Within P R E (Prog.throw e : Prog Op Ans ε α) ↔ E e := Iff.rfl

theorem within_call {op : Op} (hop : P op) (imp : ∀ e, R e → E e) :
    Within P R E (Prog.call op : Prog Op Ans ε (Ans op)) := by
  refine ⟨hop, fun r hr => ?_⟩
  cases r with
  | ok a => trivial
  | error e => exact imp e (hr e rfl)

theorem within_bind {p : Prog Op Ans ε α} {f : α → Prog Op Ans ε β} (hp : Within P R E p)
    (hf : ∀ a, Within P R E (f a)) : Within P R E (p.bind f) := by
  induction p with
  | done r => cases r with
    | ok a => exact hf a
    | error e => exact hp
  | await op k ih => exact ⟨hp.1, fun r hr => ih r (hp.2 r hr)⟩

theorem within_tryCatch {p : Prog Op Ans ε α} {h : ε → Prog Op Ans ε α} (hp : Within P R F p)
    (hh : ∀ e, F e → Within P R E (h e)) : Within P R E (p.tryCatch h) := by
  induction p with
  | done r => cases r with
    | ok a => trivial
    | error e => exact hh e hp
  | await op k ih => exact ⟨hp.1, fun r hr => ih r (hp.2 r hr)⟩

theorem within_finallyDo {p : Prog Op Ans ε α} {c : Prog Op Ans ε Unit} (hp : Within P R E p)
    (hc : Within P R E c) : Within P R E (p.finallyDo c) := by
  induction p with
  | done r => cases r with
    | ok a => exact within_bind hc fun _ => trivial
    | error e => exact within_bind hc fun _ => hp
  | await op k ih => exact ⟨hp.1, fun r hr => ih r (hp.2 r hr)⟩

theorem within_forEach {γ : Type} {f : γ → Prog Op Ans ε Unit} {xs : List γ}
    (hf : ∀ x ∈ xs, Within P R E (f x)) : Within P R E (Prog.forEach f xs) := by
  induction xs with
  | nil => trivial
  | cons x xs ih =>
    refine within_bind (hf x List.mem_cons_self) fun _ => ih ?_
    exact fun y hy => hf y (List.mem_cons_of_mem x hy)

theorem Within.mono {p : Prog Op Ans ε α} (h : Within P R E p) (imp : ∀ op, P op → Q op)
    (weaker : ∀ e, E e → F e) : Within Q R F p := by
  induction p with
  | done r => cases r with
    | ok a => trivial
    | error e => exact weaker e h
  | await op k ih => exact ⟨imp op h.1, fun r hr => ih r (h.2 r hr)⟩

/-- A monitor state that is kept by all calls of a kind is kept by the program. -/
theorem Within.obeys {I : σ → Prop} {p : Prog Op Ans ε α} (h : Within P R E p)
    (may : ∀ s op, I s → P op → m.may s op)
    (keep : ∀ s op r s', I s → P op → m.next s op r s' → I s' ∧ ∀ e, r = .error e → R e)
    {s : σ} (start : I s) :
    Obeys m (fun s' r => I s' ∧ ∀ e, r = .error e → E e) s p := by
  induction p generalizing s with
  | done r => cases r with
    | ok a => exact ⟨start, fun e he => nomatch he⟩
    | error e => exact ⟨start, fun e' he => Except.error.inj he ▸ h⟩
  | await op k ih =>
    refine ⟨may s op start h.1, fun r s' hn => ?_⟩
    obtain ⟨hs, hr⟩ := keep s op r s' start h.1 hn
    exact ih r (h.2 r hr) hs

end Footprints

/-- Every value the program returns satisfies `Q`, whatever the answers. -/
def Yields (Q : α → Prop) : Prog Op Ans ε α → Prop
  | .done (.ok a) => Q a
  | .done (.error _) => True
  | .await _ k => ∀ r, Yields Q (k r)

section Values
variable {P : Op → Prop} {R E : ε → Prop} {Q : α → Prop}

@[simp] theorem yields_pure (a : α) : Yields Q (pure a : Prog Op Ans ε α) ↔ Q a := Iff.rfl

theorem yields_any (p : Prog Op Ans ε α) : Yields (fun _ => True) p := by
  induction p with
  | done r => cases r <;> trivial
  | await op k ih => exact ih

theorem yields_bind {Q' : β → Prop} {p : Prog Op Ans ε α} {f : α → Prog Op Ans ε β}
    (hp : Yields Q p) (hf : ∀ a, Q a → Yields Q' (f a)) : Yields Q' (p.bind f) := by
  induction p with
  | done r => cases r with
    | ok a => exact hf a hp
    | error e => trivial
  | await op k ih => exact fun r => ih r (hp r)

/-- The footprint of a continuation may use what the returned value satisfies. -/
theorem within_bind_yields {p : Prog Op Ans ε α} {f : α → Prog Op Ans ε β} (hp : Within P R E p)
    (values : Yields Q p) (hf : ∀ a, Q a → Within P R E (f a)) : Within P R E (p.bind f) := by
  induction p with
  | done r => cases r with
    | ok a => exact hf a values
    | error e => exact hp
  | await op k ih => exact ⟨hp.1, fun r hr => ih r (hp.2 r hr) (values r)⟩

/-- A postcondition may use what the returned value satisfies. -/
theorem Obeys.withValue {post : σ → Except ε α → Prop} {s : σ} {p : Prog Op Ans ε α}
    (h : Obeys m post s p) (values : Yields Q p) :
    Obeys m (fun s' r => post s' r ∧ ∀ a, r = .ok a → Q a) s p := by
  induction p generalizing s with
  | done r => cases r with
    | ok a => exact ⟨h, fun _ heq => Except.ok.inj heq ▸ values⟩
    | error e => exact ⟨h, fun _ heq => nomatch heq⟩
  | await op k ih => exact ⟨h.1, fun r s' hn => ih r (h.2 r s' hn) (values r)⟩

end Values

/-- The monitor of a program that runs alone on a store. -/
def alone (answer : σ → (op : Op) → Except ε (Ans op) × σ) : Monitor Op Ans ε σ where
  may _ _ := True
  next s op r s' := answer s op = (r, s')

theorem obeys_alone_iff (answer : σ → (op : Op) → Except ε (Ans op) × σ)
    (post : σ → Except ε α → Prop) (s : σ) (p : Prog Op Ans ε α) :
    Obeys (alone answer) post s p ↔ post (p.run answer s).2 (p.run answer s).1 := by
  induction p generalizing s with
  | done r => exact Iff.rfl
  | await op k ih =>
    simp only [obeys_await, alone, true_and, Prog.run]
    constructor
    · intro h
      exact (ih _ _).mp (h _ _ rfl)
    · rintro h r s' hrs
      have : (answer s op).1 = r ∧ (answer s op).2 = s' := by rw [hrs]; exact ⟨rfl, rfl⟩
      obtain ⟨rfl, rfl⟩ := this
      exact (ih _ _).mpr h

/-- The monitor of one program on two stores, which must answer alike. -/
def both (answer : σ → (op : Op) → Except ε (Ans op) × σ) : Monitor Op Ans ε (σ × σ) where
  may x op := (answer x.1 op).1 = (answer x.2 op).1
  next x op r x' := answer x.1 op = (r, x'.1) ∧ answer x.2 op = (r, x'.2)

theorem run_both {answer : σ → (op : Op) → Except ε (Ans op) × σ}
    {post : σ × σ → Except ε α → Prop} (p : Prog Op Ans ε α) {x : σ × σ}
    (h : Obeys (both answer) post x p) :
    (p.run answer x.1).1 = (p.run answer x.2).1 ∧
      post ((p.run answer x.1).2, (p.run answer x.2).2) (p.run answer x.1).1 := by
  induction p generalizing x with
  | done r => exact ⟨rfl, h⟩
  | await op k ih =>
    have alike : (answer x.1 op).1 = (answer x.2 op).1 := h.1
    have rest := ih _ (h.2 (answer x.1 op).1 ((answer x.1 op).2, (answer x.2 op).2)
      ⟨rfl, by rw [alike]⟩)
    simp only [Prog.run, ← alike]
    exact rest

section RunAlone
variable {answer : σ → (op : Op) → Except ε (Ans op) × σ} {s s' : σ} {p : Prog Op Ans ε α}

theorem run_call {op : Op} {r : Except ε (Ans op)} (h : answer s op = (r, s')) :
    (Prog.call op : Prog Op Ans ε (Ans op)).run answer s = (r, s') := h

theorem run_bind_ok {f : α → Prog Op Ans ε β} {a : α} (h : p.run answer s = (.ok a, s')) :
    (p.bind f).run answer s = (f a).run answer s' := by
  induction p generalizing s with
  | done r => cases h; rfl
  | await op k ih => exact ih _ h

theorem run_bind_error {f : α → Prog Op Ans ε β} {e : ε} (h : p.run answer s = (.error e, s')) :
    (p.bind f).run answer s = (.error e, s') := by
  induction p generalizing s with
  | done r => cases h; rfl
  | await op k ih => exact ih _ h

theorem run_tryCatch_ok {g : ε → Prog Op Ans ε α} {a : α} (h : p.run answer s = (.ok a, s')) :
    (p.tryCatch g).run answer s = (.ok a, s') := by
  induction p generalizing s with
  | done r => cases h; rfl
  | await op k ih => exact ih _ h

theorem run_tryCatch_error {g : ε → Prog Op Ans ε α} {e : ε} (h : p.run answer s = (.error e, s')) :
    (p.tryCatch g).run answer s = (g e).run answer s' := by
  induction p generalizing s with
  | done r => cases h; rfl
  | await op k ih => exact ih _ h

theorem run_finallyDo {c : Prog Op Ans ε Unit} {r : Except ε α} (h : p.run answer s = (r, s')) :
    (p.finallyDo c).run answer s = (c.bind fun _ => Prog.done r).run answer s' := by
  induction p generalizing s with
  | done r => cases h; rfl
  | await op k ih => exact ih _ h

/-- A loop all of whose iterations return, with an invariant for those still ahead. -/
theorem run_forEach {γ : Type} {f : γ → Prog Op Ans ε Unit}
    (answer : σ → (op : Op) → Except ε (Ans op) × σ) (I : List γ → σ → Prop)
    (body : ∀ x xs s, I (x :: xs) s → ∃ s', (f x).run answer s = (.ok (), s') ∧ I xs s')
    (xs : List γ) (start : I xs s) :
    ∃ s', (Prog.forEach f xs).run answer s = (.ok (), s') ∧ I [] s' := by
  induction xs generalizing s with
  | nil => exact ⟨s, rfl, start⟩
  | cons x xs ih =>
    obtain ⟨s₁, first, kept⟩ := body x xs s start
    obtain ⟨s₂, rest, last⟩ := ih kept
    exact ⟨s₂, (run_bind_ok first).trans rest, last⟩

/-- What all calls of a kind keep is kept by a run of the program. -/
theorem Within.run_keeps {P : Op → Prop} {E : ε → Prop} {I : σ → Prop}
    (h : Within P (fun _ => True) E p) (keep : ∀ s op, I s → P op → I (answer s op).2)
    (start : I s) : I (p.run answer s).2 := by
  induction p generalizing s with
  | done r => exact start
  | await op k ih => exact ih _ (h.2 _ fun _ _ => trivial) (keep s op start h.1)

end RunAlone

/-! ## What a program has heard -/

/-- A call together with its answer. -/
abbrev Exchange (Op : Type) (Ans : Op → Type) (ε : Type) : Type := Σ op : Op, Except ε (Ans op)

/-- What is left of a program after its first calls were answered like this. -/
inductive Leaves (p : Prog Op Ans ε α) : List (Exchange Op Ans ε) → Prog Op Ans ε α → Prop where
  | start : Leaves p [] p
  | answer {heard : List (Exchange Op Ans ε)} {op : Op} {k : Except ε (Ans op) → Prog Op Ans ε α}
      (before : Leaves p heard (.await op k)) (a : Except ε (Ans op)) :
      Leaves p (heard ++ [⟨op, a⟩]) (k a)

/-- The monitor that remembers every answer, and allows calls by what was heard. -/
def recording (P : List (Exchange Op Ans ε) → Op → Prop) :
    Monitor Op Ans ε (List (Exchange Op Ans ε)) where
  may := P
  next heard op a heard' := heard' = heard ++ [⟨op, a⟩]

theorem Obeys.after {P : List (Exchange Op Ans ε) → Op → Prop}
    {post : List (Exchange Op Ans ε) → Except ε α → Prop} {p q : Prog Op Ans ε α}
    {heard : List (Exchange Op Ans ε)} (h : Obeys (recording P) post [] p)
    (left : Leaves p heard q) :
    Obeys (recording P) post heard q := by
  induction left with
  | start => exact h
  | answer _ a ih => exact ih.2 a _ rfl

end AwaitPrograms
