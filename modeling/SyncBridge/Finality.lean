import SyncBridge.Footprints

/-!
# A transfer that has succeeded

Every operation that updates a row reads its status first, in a separate
statement. `final r` observes one row from inside one operation: as long as the
row is not SUCCESS the operation may update it, and once the row is SUCCESS, or
gone, it may not. An operation that would not update the row any more, if all its
reads from now on saw SUCCESS or nothing, is `Quiet`.

SUCCESS is not final in all runs. It is in the runs in which a `markSuccess`
commits only while all other operations in flight are quiet for its row, and no
job throws on its last attempt while its row is SUCCESS.
-/

namespace Finality

open AwaitPrograms ThreadPools Entities Database TableInvariants Calls Ingestion Worker Management
open Orchestrator Footprints

/-- The statements that update the row. -/
def writes (r : Nat) : Op → Bool
  | .db (.update id _) => id = r
  | .db (.resetForRetry _ id) => id = r
  | _ => false

/-- The call marks the row SUCCESS. -/
def Marks (r : Nat) : Op → Prop
  | .db (.update id (.markSuccess _ _ _ _ _ _ _)) => id = r
  | _ => False

/-- An answer that fits a row that is SUCCESS or gone. -/
def SeesDone (r : Nat) : (op : Op) → op.Ans → Prop
  | .db (.findOne _ id) => fun row => ∀ t, row = some t → id = r → t.status = .success
  | .db (.findForRetry _ _ _ _) => fun rows => ∀ t ∈ rows, t.id = r → t.status = .success
  | .db (.findStuck _ _) => fun rows => ∀ t ∈ rows, t.id ≠ r
  | _ => fun _ => True

/-- The state says whether the row is known to be SUCCESS or gone. -/
def final (r : Nat) : Monitor Op Op.Ans Err Bool where
  may b op := b = true → writes r op = false
  next b op a b' := Sound op a ∧ (b = true → ∀ v, a = .ok v → SeesDone r op v) ∧
    (b' = b ∨ Marks r op ∧ b' = true)

/-- If all reads see the row SUCCESS or gone, it is not updated any more. -/
def Quiet {α : Type} (r : Nat) (p : Async α) : Prop := Obeys (final r) (fun _ _ => True) true p

section Programs
variable {r : Nat} {b : Bool} {env : Env}

theorem marks_writes {op : Op} (h : Marks r op) : writes r op = true := by
  unfold Marks at h
  split at h
  · simp [writes, h]
  · cases h

/-- Calls that do not update the row leave the observer where it is. -/
theorem final_of_within {α : Type} {P : Op → Prop} {E : Err → Prop} {p : Async α}
    (h : Within P Retryable E p) (quiet : ∀ op, P op → writes r op = false) :
    Obeys (final r) (fun b' out => b' = b ∧ ∀ e, out = .error e → E e) b p := by
  refine h.obeys (I := fun b' => b' = b) ?_ ?_ rfl
  · exact fun _ op _ hop _ => quiet op hop
  · rintro s op a s' rfl hop ⟨sound, -, next⟩
    refine ⟨?_, sound.rejected⟩
    rcases next with h | ⟨hm, -⟩
    · exact h
    · exact nomatch (marks_writes hm).symm.trans (quiet op hop)

/-- A call that does not mark the row leaves the observer where it is. -/
theorem final_next {op : Op} {a : Except Err op.Ans} {b' : Bool} (h : (final r).next b op a b')
    (unmarked : ¬ Marks r op) : b' = b :=
  h.2.2.resolve_right fun hm => unmarked hm.1

theorem publishCall_quiet (op : Op) (h : PublishCall op) : writes r op = false := by
  unfold PublishCall at h
  split at h <;> first | rfl | cases h

theorem prepareCall_quiet (op : Op) (h : PrepareCall op) : writes r op = false := by
  unfold PrepareCall at h
  split at h <;> first | rfl | cases h

theorem complete_final {t : FileTransfer} (u : Uploaded) (hb : b = true → t.id ≠ r) :
    Obeys (final r) (fun b' out => b' = true → t.id ≠ r ∨ ∀ e, out = .error e → Retryable e) b
      (complete env t u) := by
  refine obeys_call ?_ ?_ ?_
  · intro h
    simpa [writes] using hb h
  · intro _ b' hn
    refine obeys_call (fun _ => rfl) ?_ ?_
    · intro _ b'' hn'
      refine (final_of_within (publish_within t _ _) publishCall_quiet).mono _ ?_
      exact fun _ out hout _ => .inr hout.2
    · exact fun e b'' hn' _ => .inr fun e' he => Except.error.inj he ▸ hn'.1.rejected e rfl
  · exact fun e b' hn _ => .inr fun e' he => Except.error.inj he ▸ hn.1.rejected e rfl

theorem reject_final {t : FileTransfer} {e : Err} (hb : b = true → t.id ≠ r ∨ Retryable e) :
    Obeys (final r) (fun _ _ => True) b (reject env t e) := by
  unfold reject
  split
  · rename_i message
    refine obeys_call ?_ ?_ fun _ _ _ => trivial
    · intro h
      rcases hb h with h | h
      · simpa [writes] using h
      · exact absurd rfl (h message)
    · intro _ b' _
      refine (final_of_within (publish_within t _ _) publishCall_quiet).andThen ?_
        fun _ _ _ => trivial
      intro b'' _ _
      exact ⟨fun _ => rfl, fun _ _ _ => trivial⟩
  · trivial

theorem runTransfer_final (data : TransferJobData) :
    Obeys (final r) (fun _ _ => True) b (runTransfer env data) := by
  refine obeys_call (fun _ => rfl) ?_ fun _ _ _ => trivial
  intro found b' hn
  obtain rfl : b' = b := final_next hn fun h => h
  split
  · trivial
  · rename_i t
    have hid : t.id = data.transferId := hn.1.answered _ rfl t rfl
    split
    · trivial
    · rename_i hs
      -- had the row been SUCCESS, the read would have shown it
      have hne : b' = true → t.id ≠ r := by
        intro hb heq
        exact hs (hn.2.1 hb _ rfl t rfl (hid.symm.trans heq))
      refine obeys_call (fun hb => by simpa [writes] using hne hb) ?_ fun _ _ _ => trivial
      intro _ b'' hn'
      obtain rfl : b'' = b' := final_next hn' fun h => h
      refine Obeys.orElse (q := fun b' out => b' = true →
        t.id ≠ r ∨ ∀ e, out = .error e → Retryable e)
        ?_ (fun _ _ _ => trivial) ?_
      · refine (final_of_within (prepare_within t) prepareCall_quiet).andThen ?_ ?_
        · rintro _ u ⟨rfl, -⟩
          exact complete_final u hne
        · rintro _ e ⟨rfl, -⟩ hb
          exact .inl (hne hb)
      · intro b'' e h
        exact reject_final fun hb => (h hb).imp_right fun h => h e rfl

/-- The handler gives up on its row at once, unless attempts are left. -/
theorem onFailed_final (job : Job) (err : Err)
    (h : b = true → job.data.transferId ≠ r ∨ job.attemptsMade < job.attempts.getD 1) :
    Obeys (final r) (fun _ _ => True) b (onFailed env job err) := by
  unfold onFailed
  split
  · trivial
  · rename_i exhausted
    refine obeys_call ?_ ?_ fun _ _ _ => trivial
    · intro hb
      simpa [writes] using (h hb).resolve_right exhausted
    · intro _ b₁ _
      refine obeys_call (fun _ => rfl) ?_ fun _ _ _ => trivial
      intro found b₂ _
      refine Obeys.andThen (q := fun _ _ => True) ?_ ?_ fun _ _ _ => trivial
      · split
        · trivial
        · exact (final_of_within (publish_within _ _ _) publishCall_quiet).mono _
            fun _ _ _ => trivial
      · intro b₃ _ _
        exact ⟨fun _ => rfl, fun _ _ _ => trivial⟩

theorem recover_final {t : FileTransfer} (hne : b = true → t.id ≠ r) :
    Obeys (final r) (fun b' _ => b' = b) b (recover env t) := by
  unfold recover
  split
  · refine ⟨fun hb => by simpa [writes] using hne hb, fun _ b' hn => ?_⟩
    exact final_next hn fun h => h
  · refine ⟨fun _ => rfl, fun _ b' hn => ?_⟩
    exact final_next hn fun h => h

theorem sweep_final (replica : Nat) :
    Obeys (final r) (fun _ _ => True) b (sweep env replica) := by
  refine sweep_obeys (I := fun _ => True) (J := fun rest b => b = true →
    ∀ t ∈ rest, t.id ≠ r) replica
    (fun _ _ _ => ⟨fun _ => rfl, fun _ _ _ => trivial⟩) ?_ ?_ (fun _ _ => trivial) trivial
  · refine fun b₁ stale limit _ =>
      ⟨fun _ => rfl, fun found b₂ hn => ⟨trivial, fun stuck answered hb => ?_⟩⟩
    obtain rfl : b₂ = b₁ := final_next hn fun h => h
    exact hn.2.1 hb stuck answered
  · intro b₁ t rest others
    refine (recover_final fun hb => others hb t List.mem_cons_self).mono _ ?_
    rintro _ out rfl
    exact ⟨trivial, fun _ _ hb t' ht => others hb t' (List.mem_cons_of_mem t ht)⟩

theorem transaction_final {α : Type} {body : Async α}
    (h : Obeys (final r) (fun _ _ => True) b body) :
    Obeys (final r) (fun _ _ => True) b (transaction body) := by
  refine obeys_call (fun _ => rfl) ?_ fun _ _ _ => trivial
  intro _ b' hn
  obtain rfl : b' = b := final_next hn fun h => h
  refine Obeys.orElse (q := fun _ _ => True) ?_ (fun _ _ _ => trivial) ?_
  · refine h.andThen ?_ fun _ _ _ => trivial
    intro b' a _
    exact obeys_call (fun _ => rfl) (fun _ _ _ => trivial) fun _ _ _ => trivial
  · intro b' e _
    exact obeys_call (fun _ => rfl) (fun _ _ _ => trivial) fun _ _ _ => trivial

theorem scopedTo_final {α : Type} (user : AuthUser) {work : Manager → Async α}
    (h : ∀ mgr, Obeys (final r) (fun _ _ => True) b (work mgr)) :
    Obeys (final r) (fun _ _ => True) b (scopedTo user work) := by
  unfold scopedTo
  split
  · exact h .pool
  · refine transaction_final (obeys_call (fun _ => rfl) ?_ fun _ _ _ => trivial)
    intro _ b' hn
    obtain rfl : b' = b := final_next hn fun h => h
    exact h .tx

theorem resetOne_final (id : Nat) (mgr : Manager) :
    Obeys (final r) (fun _ _ => True) b (resetOne id mgr) := by
  refine obeys_call (fun _ => rfl) ?_ fun _ _ _ => trivial
  intro found b' hn
  obtain rfl : b' = b := final_next hn fun h => h
  split
  · trivial
  · rename_i t
    split
    · trivial
    · rename_i hs
      refine obeys_call ?_ ?_ fun _ _ _ => trivial
      · intro hb
        have : id ≠ r := fun heq => hs (hn.2.1 hb _ rfl t rfl heq)
        simpa [writes] using this
      · intro _ b₂ _
        refine obeys_call (fun _ => rfl) ?_ fun _ _ _ => trivial
        intro again b₃ _
        split <;> trivial

theorem retry_final (id : Nat) (user : AuthUser) :
    Obeys (final r) (fun _ _ => True) b (retry env id user) := by
  refine (scopedTo_final user (resetOne_final id)).andThen ?_ fun _ _ _ => trivial
  intro b' t _
  exact obeys_call (fun _ => rfl) (fun _ _ _ => trivial) fun _ _ _ => trivial

theorem resetMatching_final {status : TransferStatus} (hstatus : status ≠ .success)
    (before : Option Nat) (limit : Nat) (mgr : Manager) :
    Obeys (final r) (fun _ _ => True) b (resetMatching status before limit mgr) := by
  refine obeys_call (fun _ => rfl) ?_ fun _ _ _ => trivial
  intro found b' hn
  obtain rfl : b' = b := final_next hn fun h => h
  -- a row of the wanted status is not SUCCESS
  have hne : b' = true → ∀ t ∈ found, t.id ≠ r := by
    intro hb t ht heq
    have seen := hn.2.1 hb _ rfl t ht heq
    have wanted := hn.1.answered _ rfl t ht
    exact hstatus (wanted.symm.trans seen)
  refine Obeys.andThen (q := fun _ _ => True) ?_ (fun _ _ _ => trivial) fun _ _ _ => trivial
  refine obeys_forEach _ (fun rest c => c = b' ∧ ∀ t ∈ rest, t ∈ found) found
    ⟨rfl, fun _ h => h⟩ (fun _ _ => trivial) ?_
  rintro t rest _ ⟨rfl, hsub⟩
  refine ⟨fun hb => by simpa [writes] using hne hb t (hsub t List.mem_cons_self), ?_⟩
  intro a c hc
  cases a with
  | ok _ => exact ⟨final_next hc fun h => h, fun t' ht => hsub t' (List.mem_cons_of_mem t ht)⟩
  | error e => trivial

theorem retryBatch_final (dto : RetryBatchDto) (user : AuthUser) :
    Obeys (final r) (fun _ _ => True) b (retryBatch env dto user) := by
  unfold retryBatch
  dsimp only
  split
  · trivial
  rename_i hstatus
  refine (scopedTo_final user (resetMatching_final hstatus dto.before dto.limit)).andThen ?_
    fun _ _ _ => trivial
  intro b' ids _
  refine Obeys.andThen (q := fun _ _ => True) ?_ (fun _ _ _ => trivial) fun _ _ _ => trivial
  refine obeys_forEach _ (fun _ _ => True) ids trivial (fun _ _ => trivial) ?_
  intro id rest c _
  refine ⟨fun _ => rfl, fun a c' _ => ?_⟩
  cases a <;> trivial

/-- No task starts by updating a row it has not read, the `failed` handler apart. -/
theorem code_final (task : Task) (h : ∀ job err, task ≠ .onFailed job err) :
    Obeys (final r) (fun _ _ => True) b (code env task) := by
  have quietly : ∀ {P : Op → Prop} {α : Type} {p : Async α} {f : α → Reply},
      Within P Retryable Retryable p → (∀ op, P op → writes r op = false) →
      Obeys (final r) (fun _ _ => True) b (p.bind fun a => .done (.ok (f a))) := by
    intro P α p f hp hq
    exact (final_of_within hp hq).andThen (fun _ _ _ => trivial) fun _ _ _ => trivial
  cases task with
  | accept p carrier =>
    refine quietly (accept_within p carrier) fun op h => ?_
    unfold AcceptCall at h
    split at h <;> first | rfl | cases h
  | relay replica =>
    refine quietly (relay_within replica) fun op h => ?_
    unfold RelayCall at h
    split at h <;> first | rfl | cases h
  | process jobId data =>
    exact (runTransfer_final data).andThen (fun _ _ _ => trivial) fun _ _ _ => trivial
  | onFailed job err => exact absurd rfl (h job err)
  | sweep replica => exact (sweep_final replica).andThen (fun _ _ _ => trivial) fun _ _ _ => trivial
  | retry id user => exact (retry_final id user).andThen (fun _ _ _ => trivial) fun _ _ _ => trivial
  | retryBatch dto user =>
    exact (retryBatch_final dto user).andThen (fun _ _ _ => trivial) fun _ _ _ => trivial
  | purge =>
    refine quietly purge_within fun op h => ?_
    unfold PurgeCall at h
    split at h <;> first | rfl | cases h

end Programs

section Rows
variable {r now pid : Nat} {db db' : Db}

/-- The row is there and it is SUCCESS. -/
def Done (r : Nat) (db : Db) : Prop := ∃ t ∈ db.transfers, t.id = r ∧ t.status = .success

/-- The row was given its number and is there no more. -/
def Gone (r : Nat) (db : Db) : Prop := r < db.nextId ∧ ∀ t ∈ allRows db, t.id ≠ r

/-- No open transaction has updated the row. -/
def Unreset (r : Nat) (db : Db) : Prop := ∀ x ∈ db.openTxs, r ∉ x.2.resets

theorem Unreset.own (h : Unreset r db) {x : Tx} (isOpen : db.tx pid = some x) : r ∉ x.resets :=
  h (pid, x) (tx_eq_some isOpen)

theorem gone_effect {op : DbOp} (hc : Consistent db) (e : Effect now pid db op db')
    (h : Gone r db) :
    Gone r db' := by
  rcases effect_grows hc e with g | ⟨row, g, hid, -⟩ | ⟨ev, g, -⟩
  · have := g.counter
    refine ⟨by have := h.1; omega, fun t ht heq => ?_⟩
    obtain ⟨t', ht', hid⟩ := g.mem_ids ht
    exact h.2 t' ht' (hid.trans heq)
  · have := g.counter
    refine ⟨by have := h.1; omega, fun t ht heq => ?_⟩
    obtain ⟨t', ht', hid'⟩ := g.mem_ids ht
    rcases List.mem_cons.mp ht' with rfl | ht'
    · have := h.1
      omega
    · exact h.2 t' ht' (hid'.trans heq)
  · have := g.counter
    refine ⟨by have := h.1; omega, fun t ht heq => ?_⟩
    obtain ⟨t', ht', hid⟩ := g.mem_ids ht
    exact h.2 t' ht' (hid.trans heq)

/-- The number of a committed row is not that of a row still to be committed. -/
theorem row_not_buffered (hc : Consistent db) {t t' : FileTransfer} (ht : t ∈ db.transfers)
    (ht' : t' ∈ buffered db) : t.id ≠ t'.id := by
  have h := hc.rowIds
  rw [allRows, List.map_append, List.nodup_append] at h
  exact h.2.2 _ (List.mem_map_of_mem ht) _ (List.mem_map_of_mem ht')

theorem poolUpdate_writes {op : DbOp} {p : Patch} (h : poolUpdate op = some (r, p)) :
    writes r (.db op) = true := by
  unfold poolUpdate at h
  split at h
  · cases h; simp [writes]
  · cases h; simp [writes]
  · cases h

/-- A statement that does not update a SUCCESS row leaves it, or deletes it. -/
theorem done_effect {op : DbOp} (hc : Consistent db) (e : Effect now pid db op db')
    (quiet : writes r (.db op) = false) (free : Unreset r db) (h : Done r db) :
    (Done r db' ∨ Gone r db') ∧ Unreset r db' := by
  obtain ⟨t, ht, rfl, hs⟩ := h
  constructor
  · have kept := row_kept e ht (fun p hp => nomatch (poolUpdate_writes hp).symm.trans quiet)
      fun x hx => free.own hx
    rcases kept with ht' | ⟨cutoff, -, hp, rfl⟩
    · exact .inl ⟨t, ht', rfl, hs⟩
    · refine .inr ⟨hc.rowsBelow t (List.mem_append_left _ ht), fun t' ht' heq => ?_⟩
      rcases List.mem_append.mp ht' with ht' | ht'
      · obtain ⟨hm, hkeep⟩ := List.mem_filter.mp ht'
        rw [row_unique hc hm ht heq, hp] at hkeep
        cases hkeep
      · exact row_not_buffered hc ht ht' heq.symm
  · intro x hx hr
    rcases resets_origin e hx hr with ⟨y, hy, -, hy'⟩ | rfl
    · exact free y hy hy'
    · simp [writes] at quiet

theorem rows_ids (hc : Consistent db) {mgr : Manager} {t : FileTransfer}
    (ht : t ∈ db.rows pid mgr) :
    ∃ t' ∈ allRows db, t'.id = t.id := by
  cases mgr with
  | pool => exact ⟨t, List.mem_append_left _ ht, rfl⟩
  | tx =>
    rw [Db.rows] at ht
    split at ht
    · cases ht
    · rename_i x isOpen
      have own : ∀ t' ∈ x.rows, t' ∈ allRows db := fun t' h => List.mem_append_right _
        ((buffered_perm hc isOpen).mem_iff.mpr (List.mem_append_left _ h))
      rcases applyWrites_origin x (List.mem_filter.mp ht).1 with h | h | ⟨-, t', h, hid⟩
      · exact ⟨t, List.mem_append_left _ h, rfl⟩
      · exact ⟨t, own t h, rfl⟩
      · rcases List.mem_append.mp h with h | h
        · exact ⟨t', List.mem_append_left _ h, hid⟩
        · exact ⟨t', own t' h, hid⟩

/-- A row that is SUCCESS or gone is not seen in any other status. -/
theorem row_seen (hc : Consistent db) (free : Done r db → Unreset r db) (h : Done r db ∨ Gone r db)
    {mgr : Manager} {t : FileTransfer} (ht : t ∈ db.rows pid mgr) (hid : t.id = r) :
    t.status = .success := by
  rcases h with done | gone
  · obtain ⟨t₀, ht₀, rfl, hs⟩ := id done
    rw [rows_committed hc ht₀ (fun x hx => (free done).own hx) ht hid]
    exact hs
  · obtain ⟨t', ht', heq⟩ := rows_ids hc ht
    exact absurd (heq.trans hid) (gone.2 t' ht')

theorem seesDone_of_exec {env : Env} {s s' : State} {c : Choice} {op : Op} {v : op.Ans}
    (hc : Consistent s.db) (free : Done r s.db → Unreset r s.db) (h : Done r s.db ∨ Gone r s.db)
    (step : exec env pid op c s = some (.ok v, s')) : SeesDone r op v := by
  unfold SeesDone
  split
  · rename_i mgr id
    intro t ht hid
    rcases exec_db step with ⟨_, _, hr, -⟩ | ⟨db', hr, -⟩
    · cases hr
    · simp only [Db.exec, Option.some.injEq, Prod.mk.injEq, Except.ok.injEq] at hr
      rw [ht] at hr
      have found : t.id = id := by simpa using List.find?_some hr.1
      exact row_seen hc free h (List.mem_of_find?_eq_some hr.1) (found.trans hid)
  · intro t ht hid
    rcases exec_db step with ⟨_, _, hr, -⟩ | ⟨db', hr, -⟩
    · cases hr
    · simp only [Db.exec, Option.some.injEq, Prod.mk.injEq, Except.ok.injEq] at hr
      rw [← hr.1] at ht
      exact row_seen hc free h (List.mem_filter.mp (mem_orderBy_take ht)).1 hid
  · intro t ht hid
    rcases exec_db step with ⟨_, _, hr, -⟩ | ⟨db', hr, -⟩
    · cases hr
    · simp only [Db.exec, Option.some.injEq, Prod.mk.injEq, Except.ok.injEq] at hr
      rw [← hr.1] at ht
      obtain ⟨hm, hstuck⟩ := List.mem_filter.mp (mem_orderBy_take ht)
      have seen : t ∈ s.db.rows pid .pool := hm
      simp [row_seen hc free h seen hid] at hstuck
  · trivial

/-- A row turns SUCCESS by a `markSuccess` that finds it unlocked. -/
theorem done_new {env : Env} {s s' : State} {c : Choice} {op : Op} {a : Except Err op.Ans}
    (hc : Consistent s.db) (step : exec env pid op c s = some (a, s')) (before : ¬ Done r s.db)
    (after : Done r s'.db) :
    Marks r op ∧ (∃ t ∈ s.db.transfers, t.id = r) ∧ Unreset r s'.db := by
  obtain ⟨t, ht, rfl, hs⟩ := after
  rcases exec_effect_db step with heq | ⟨dbOp, rfl, e⟩
  · rw [heq] at ht
    exact absurd ⟨t, ht, rfl, hs⟩ before
  · rcases status_origin hc e ht (by rw [hs]; decide) with
      ht | ⟨t₀, ht₀, p, names, rfl, free, -⟩
    · exact absurd ⟨t, ht, rfl, hs⟩ before
    · refine ⟨?_, ⟨t₀, ht₀, by simp⟩, fun x hx hr => ?_⟩
      · cases p with
        | markSuccess =>
          unfold poolUpdate at names
          split at names
          · cases names
            simp [Marks]
          · cases names
          · cases names
        | _ => cases hs
      · rcases resets_origin e hx hr with ⟨y, hy, -, hy'⟩ | rfl
        · exact not_locked free hy (by simpa using hy')
        · cases names

end Rows

section Runs
variable {env : Env} {r : Nat}

/-- A `markSuccess` meets only operations that are quiet for its row, and a job
does not throw on its last attempt while its row is SUCCESS. -/
def Careful (w : SysWorld) : SysAct → Prop
  | .resume pid _ => ∀ t ∈ w.threads, t.pid = pid → ∀ op, t.prog.head = some op →
      ∀ r, Marks r op → ∀ other ∈ w.others pid, Quiet r other.prog
  | .settle pid => ∀ t ∈ w.threads, t.pid = pid → ∀ jobId data err job,
      t.task = .process jobId data → t.prog = .done (.error err) →
      findJob jobId w.store = some job → job.attempts.getD 1 ≤ job.attemptsMade + 1 →
      ¬ Done job.data.transferId w.store.db
  | _ => True

/-- A row that is SUCCESS is in no open transaction. -/
def Unheld (r : Nat) (s : State) : Prop := Consistent s.db ∧ (Done r s.db → Unreset r s.db)

/-- The thread keeps to the observer of the row. -/
def Watched (r : Nat) (s : State) (t : SysThread) : Prop :=
  ∃ b, (Done r s.db → b = true) ∧ (b = true → Done r s.db ∨ Gone r s.db) ∧
    Obeys (final r) (fun _ _ => True) b t.prog

theorem Watched.keep {s s' : State} {t : SysThread} (h : Watched r s t)
    (old : Done r s'.db → Done r s.db) (kept : Done r s.db → Done r s'.db ∨ Gone r s'.db)
    (gone : Gone r s.db → Gone r s'.db) : Watched r s' t := by
  obtain ⟨b, known, backed, obeys⟩ := h
  refine ⟨b, fun hd => known (old hd), fun hb => ?_, obeys⟩
  rcases backed hb with hd | hg
  · exact kept hd
  · exact .inr (gone hg)

theorem Watched.same {s s' : State} {t : SysThread} (h : Watched r s t) (eq : s'.db = s.db) :
    Watched r s' t :=
  h.keep (fun hd => eq ▸ hd) (fun hd => .inl (eq ▸ hd)) fun hg => eq ▸ hg

theorem Unheld.same {s s' : State} (h : Unheld r s) (eq : s'.db = s.db) : Unheld r s' := by
  unfold Unheld
  rw [eq]
  exact h

theorem watched_new {s : State} {t : SysThread}
    (h : ∀ b, (b = true → Done r s.db) → Obeys (final r) (fun _ _ => True) b t.prog) :
    Watched r s t := by
  by_cases hd : Done r s.db
  · exact ⟨true, fun _ => rfl, fun _ => .inl hd, h true fun _ => hd⟩
  · exact ⟨false, fun h => absurd h hd, fun h => (by cases h), h false fun h => (by cases h)⟩

/-- A call keeps a SUCCESS row that its program does not update. -/
theorem done_exec {s s' : State} {pid : Nat} {c : Choice} {op : Op} {a : Except Err op.Ans}
    (hs : Unheld r s) (step : exec env pid op c s = some (a, s')) (quiet : writes r op = false)
    (hd : Done r s.db) : (Done r s'.db ∨ Gone r s'.db) ∧ Unreset r s'.db := by
  rcases exec_effect_db step with heq | ⟨dbOp, rfl, e⟩
  · rw [heq]
    exact ⟨.inl hd, hs.2 hd⟩
  · exact done_effect hs.1 e quiet (hs.2 hd) hd

theorem gone_exec {s s' : State} {pid : Nat} {c : Choice} {op : Op} {a : Except Err op.Ans}
    (hc : Consistent s.db) (step : exec env pid op c s = some (a, s')) (hg : Gone r s.db) :
    Gone r s'.db := by
  rcases exec_effect_db step with heq | ⟨dbOp, rfl, e⟩
  · rw [heq]; exact hg
  · exact gone_effect hc e hg

/-- One answered call: the row's observers in all threads are kept. -/
theorem watched_resume {w : SysWorld} {pid : Nat} {c : Choice} {l l' : List SysThread}
    {t : SysThread} {op : Op} {k : Except Err op.Ans → Async Reply} {a : Except Err op.Ans}
    {s : State} (ok : Careful w (.resume pid c)) (hG : Unheld r w.store)
    (hT : ∀ t ∈ w.threads, Watched r w.store t) (found : focus pid w.threads = some (l, t, l'))
    (at_call : t.prog = .await op k) (step : exec env pid op c w.store = some (a, s)) :
    Unheld r s ∧ (∀ t' ∈ l ++ l', Watched r s t') ∧ Watched r s { t with prog := k a } := by
  obtain ⟨hthreads, hpid⟩ := focus_some found
  have hmem : t ∈ w.threads := by rw [hthreads]; simp
  have hothers : ∀ t' ∈ l ++ l', t' ∈ w.threads := by
    intro t' ht
    rw [hthreads]
    rcases List.mem_append.mp ht with ht | ht
    · exact List.mem_append_left _ ht
    · exact List.mem_append_right _ (List.mem_cons_of_mem _ ht)
  have hcons := exec_consistent step hG.1
  have sound := exec_sound step
  obtain ⟨b, known, backed, obeys⟩ := hT t hmem
  rw [at_call] at obeys
  by_cases hd : Done r w.store.db
  · obtain rfl : b = true := known hd
    obtain ⟨kept, free⟩ := done_exec hG step (obeys.1 rfl) hd
    refine ⟨⟨hcons, fun _ => free⟩, fun t' ht => ?_, true, fun _ => rfl, fun _ => kept, ?_⟩
    · exact (hT t' (hothers t' ht)).keep (fun _ => hd) (fun _ => kept) (gone_exec hG.1 step)
    · refine obeys.2 a true ⟨sound, fun _ v hv => ?_, .inl rfl⟩
      exact seesDone_of_exec hG.1 hG.2 (.inl hd) (hv ▸ step)
  · by_cases hd' : Done r s.db
    · obtain ⟨marks, ⟨t₀, ht₀, hid⟩, free⟩ := done_new hG.1 step hd hd'
      have hb : b = false := by
        by_contra hb
        rcases backed (by simpa using hb) with h | h
        · exact hd h
        · exact h.2 t₀ (List.mem_append_left _ ht₀) hid
      subst hb
      refine ⟨⟨hcons, fun _ => free⟩, fun t' ht => ?_, true, fun _ => rfl, fun _ => .inl hd', ?_⟩
      · have quiet := ok t hmem hpid op (by rw [at_call]; rfl) r marks t'
          (by rw [World.others, found]; exact ht)
        exact ⟨true, fun _ => rfl, fun _ => .inl hd', quiet⟩
      · exact obeys.2 a true ⟨sound, fun h => (by cases h), .inr ⟨marks, rfl⟩⟩
    · refine ⟨⟨hcons, fun h => absurd h hd'⟩, fun t' ht => ?_, b, fun h => absurd h hd', ?_, ?_⟩
      · exact (hT t' (hothers t' ht)).keep (fun h => absurd h hd') (fun h => absurd h hd)
          (gone_exec hG.1 step)
      · exact fun hb => .inr (gone_exec hG.1 step ((backed hb).resolve_left hd))
      · refine obeys.2 a b ⟨sound, fun hb v hv => ?_, .inl rfl⟩
        exact seesDone_of_exec hG.1 hG.2 (backed hb) (hv ▸ step)

theorem success_threadwise (r : Nat) :
    Threadwise (machine env) Careful (Unheld r) (Watched r) where
  request w q s task _ hG hT entered := by
    obtain ⟨hdb, htask⟩ := enter_db entered
    refine ⟨hG.same hdb, fun t ht => (hT t ht).same hdb, fun n => ?_⟩
    exact watched_new fun b _ => code_final task htask
  resume w pid c l l' t op k a s ok hG hT _ found at_call step :=
    watched_resume ok hG hT found at_call step
  settle w pid l l' t out ok hG hT found ended := by
    obtain ⟨hthreads, hpid⟩ := focus_some found
    have hdb := finish_db env t.task out w.store
    refine ⟨hG.same hdb, fun t' ht => (hT t' ?_).same hdb, fun n task htask => ?_⟩
    · rw [hthreads]
      simpa using Or.imp_right Or.inr (List.mem_append.mp ht)
    · obtain ⟨jobId, data, err, job, hproc, rfl, hjob, rfl⟩ := finish_tasks htask
      refine watched_new fun b hb => ?_
      refine (onFailed_final (failedRun job) err fun hbt => ?_).andThen (fun _ _ _ => trivial)
        fun _ _ _ => trivial
      by_cases hid : job.data.transferId = r
      · right
        by_contra last
        have hd : Done r w.store.db := hdb ▸ hb hbt
        refine ok t (by rw [hthreads]; simp) hpid jobId data err job hproc ended hjob ?_ (hid ▸ hd)
        exact Nat.le_of_not_lt last
      · exact .inl hid
  crash w pid l l' t _ hG hT _ found := by
    have e := drop_effect pid t.task w.store
    refine ⟨⟨dropTx_consistent hG.1 pid, fun hd x hx => ?_⟩, fun t' ht => ?_⟩
    · exact hG.2 hd x (List.mem_filter.mp hx).1
    · have hmem := (mem_of_focus found).2 t' ht
      exact (hT t' hmem).keep (fun h => h) (fun h => .inl h) fun h => gone_effect hG.1 e h
  outside w e s _ hG hT happened := by
    have hdb := outside_db happened
    exact ⟨hG.same hdb, fun t ht => (hT t ht).same hdb⟩

theorem success_invariant {w₀ w : SysWorld} (start : Initial w₀)
    (path : Reach (machine env) Careful w₀ w) (r : Nat) :
    Unheld r w.store ∧ ∀ t ∈ w.threads, Watched r w.store t := by
  refine (success_threadwise r).holds (initial_numbered start)
    ⟨initial_consistent start, ?_⟩ ?_ path
  · intro _ x hx
    rw [start.openTxs] at hx
    cases hx
  · simp [start.threads]

theorem gone_step {w₀ w w' : SysWorld} {a : SysAct} (start : Initial w₀)
    (path : Reach (machine env) Careful w₀ w) (move : (machine env).step w a = some w')
    (h : Gone r w.store.db) : Gone r w'.store.db := by
  have hc := (success_invariant start path r).1.1
  cases Machine.step_move move with
  | request s task entered eq => subst eq; exact (enter_db entered).1 ▸ h
  | resume l r t op k b s found at_call answered eq => subst eq; exact gone_exec hc answered h
  | settle l r t out found ended eq => subst eq; exact finish_db env t.task out w.store ▸ h
  | crash l r t found eq =>
    subst eq
    exact gone_effect hc (drop_effect _ t.task w.store) h
  | outside s happened eq => subst eq; exact outside_db happened ▸ h

/-- A step of the purge that deletes the row. -/
def Purges (w : SysWorld) (a : SysAct) (row : FileTransfer) : Prop :=
  ∃ pid c, a = .resume pid c ∧ ∃ t ∈ w.threads, t.pid = pid ∧ ∃ cutoff,
    t.prog.head = some (.db (.deleteTerminalOlderThan cutoff)) ∧ Db.purgeable cutoff row = true

/-- One step keeps a SUCCESS row as it is, or is the purge that deletes it. -/
theorem success_step {w₀ w w' : SysWorld} {a : SysAct} (start : Initial w₀)
    (path : Reach (machine env) Careful w₀ w) (move : (machine env).step w a = some w')
    {row : FileTransfer} (hrow : row ∈ w.store.db.transfers) (done : row.status = .success) :
    row ∈ w'.store.db.transfers ∨ Purges w a row ∧ Gone row.id w'.store.db := by
  obtain ⟨hG, hT⟩ := success_invariant start path row.id
  have hd : Done row.id w.store.db := ⟨row, hrow, rfl, done⟩
  cases Machine.step_move move with
  | request s task entered eq =>
    subst eq
    exact .inl ((enter_db entered).1 ▸ hrow)
  | resume l r t op k b s found at_call answered eq =>
    subst eq
    obtain ⟨hthreads, hpid⟩ := focus_some found
    have hmem : t ∈ w.threads := by rw [hthreads]; simp
    obtain ⟨b, known, -, obeys⟩ := hT t hmem
    rw [at_call] at obeys
    have quiet := obeys.1 (known hd)
    rcases exec_effect_db answered with heq | ⟨dbOp, rfl, e⟩
    · exact .inl (heq ▸ hrow)
    · have kept := row_kept e hrow (fun p hp => nomatch (poolUpdate_writes hp).symm.trans quiet)
        fun x hx => (hG.2 hd).own hx
      rcases kept with h | ⟨cutoff, rfl, hp, hdb⟩
      · exact .inl h
      · refine .inr ⟨⟨_, _, rfl, t, hmem, hpid, cutoff, by rw [at_call]; rfl, hp⟩, ?_⟩
        refine ((done_effect hG.1 e quiet (hG.2 hd) hd).1).resolve_left ?_
        rintro ⟨t', ht', hid, -⟩
        rw [hdb] at ht'
        obtain ⟨hm, hkeep⟩ := List.mem_filter.mp ht'
        rw [row_unique hG.1 hm hrow hid, hp] at hkeep
        cases hkeep
  | settle l r t out found ended eq =>
    subst eq
    exact .inl (finish_db env t.task out w.store ▸ hrow)
  | crash l r t found eq =>
    subst eq
    exact .inl hrow
  | outside s happened eq =>
    subst eq
    exact .inl (outside_db happened ▸ hrow)

/-- In careful runs SUCCESS is final: a later state has the same row or none, and
only the purge takes it away. -/
theorem success_is_final {w₀ w w' : SysWorld} (start : Initial w₀)
    (path : Reach (machine env) Careful w₀ w) (later : Reach (machine env) Careful w w')
    (row : FileTransfer) (hrow : row ∈ w.store.db.transfers) (done : row.status = .success) :
    (∀ row' ∈ w'.store.db.transfers, row'.id = row.id → row' = row) ∧
    ∀ a w'', Careful w' a → (machine env).step w' a = some w'' → row ∈ w'.store.db.transfers →
      row ∈ w''.store.db.transfers ∨
        Purges w' a row ∧ ∀ row' ∈ w''.store.db.transfers, row'.id ≠ row.id := by
  constructor
  · have keep : row ∈ w'.store.db.transfers ∨ Gone row.id w'.store.db := by
      induction later with
      | start => exact .inl hrow
      | step before ok move ih =>
        have hpath := path.trans before
        rcases ih with h | h
        · exact (success_step start hpath move h done).imp_right And.right
        · exact .inr (gone_step start hpath move h)
    intro row' hrow' hid
    rcases keep with h | h
    · exact row_unique (success_invariant start (path.trans later) row.id).1.1 hrow' h hid
    · exact absurd hid (h.2 row' (List.mem_append_left _ hrow'))
  · intro a w'' _ move h
    refine (success_step start (path.trans later) move h done).imp_right fun ⟨hp, hg⟩ => ⟨hp, ?_⟩
    exact fun row' hrow' => hg.2 row' (List.mem_append_left _ hrow')

theorem calm_careful (w : SysWorld) (a : SysAct) (h : calm w a = true) : Careful w a := by
  cases a with
  | resume pid c =>
    intro t _ _ op _ r _ other hother
    simp only [calm, Bool.and_eq_true, List.isEmpty_iff] at h
    rw [h.1] at hother
    cases hother
  | settle pid =>
    intro t ht _ jobId data err job _ ended
    have := List.all_eq_true.mp h t ht
    rw [ended] at this
    cases this
  | _ => trivial

theorem success_is_final_sample : ∃ w w' : SysWorld, ∃ row ∈ w.store.db.transfers,
    row.status = .success ∧ Reach (machine sampleEnv) Careful sampleWorld w ∧
    Reach (machine sampleEnv) Careful w w' ∧ row ∈ w'.store.db.transfers := by
  have run : ((machine sampleEnv).stepsIf calm sampleWorld
      (sampleAccepted ++ sampleRelay 1 ++ .request (.takeJob 0) :: answer 2 7)).map
        (fun w => (w.store.db.transfers.map (fun t => (t.id, t.status)),
          ((machine sampleEnv).stepsIf calm w (answer 2 2 ++ [.settle 2])).map
            fun w' => w'.store.db.transfers.map (·.id))) =
      some ([(0, .success)], some [0]) := by decide +kernel
  obtain ⟨w, hw, hrow⟩ := Option.map_eq_some_iff.mp run
  obtain ⟨hstatus, hids⟩ := Prod.mk.inj hrow
  obtain ⟨w', hw', hids⟩ := Option.map_eq_some_iff.mp hids
  obtain ⟨row, hrows, heq⟩ := List.map_eq_singleton_iff.mp hstatus
  obtain ⟨row', hrows', hid'⟩ := List.map_eq_singleton_iff.mp hids
  obtain ⟨hid, hs⟩ := Prod.mk.inj heq
  have path := reach_of_stepsIf calm_careful .start _ hw
  have later := reach_of_stepsIf calm_careful .start _ hw'
  have hmem : row ∈ w.store.db.transfers := by rw [hrows]; exact List.mem_singleton_self row
  have hmem' : row' ∈ w'.store.db.transfers := by rw [hrows']; exact List.mem_singleton_self row'
  have same := (success_is_final sample_initial path later row hmem hs).1 row' hmem'
      (hid'.trans hid.symm)
  exact ⟨w, w', row, hmem, hs, path, later, same ▸ hmem'⟩

/-- A duplicate job's worker that has read the row before the first worker
finished takes it from SUCCESS back to PROCESSING. -/
theorem success_is_not_final : ¬ ∀ (env : Env) (w₀ w w' : SysWorld) (a : SysAct), Initial w₀ →
    Reach (machine env) anyStep w₀ w → (machine env).step w a = some w' →
    ∀ row ∈ w.store.db.transfers, row.status = .success →
      ∀ row' ∈ w'.store.db.transfers, row'.id = row.id → row'.status = .success := by
  intro always
  have before : ((machine sampleEnv).steps sampleWorld sampleDuplicate).map
      (fun w => w.store.db.transfers.map fun t => (t.id, t.status)) = some [(0, .success)] := by
    decide +kernel
  have after : ((machine sampleEnv).steps sampleWorld (sampleDuplicate ++ [.resume 4 .ok])).map
      (fun w => w.store.db.transfers.map fun t => (t.id, t.status)) = some [(0, .processing)] := by
    decide +kernel
  obtain ⟨w', hw', hafter⟩ := Option.map_eq_some_iff.mp after
  obtain ⟨w, hw, move⟩ := steps_snoc _ _ hw'
  rw [hw] at before
  obtain ⟨row, hrow, heq⟩ := List.map_eq_singleton_iff.mp (Option.some.inj before)
  obtain ⟨row', hrow', heq'⟩ := List.map_eq_singleton_iff.mp hafter
  obtain ⟨hid, hs⟩ := Prod.mk.inj heq
  obtain ⟨hid', hs'⟩ := Prod.mk.inj heq'
  have := always sampleEnv sampleWorld w w' _ sample_initial (reach_of_steps _ hw) move row
    (by rw [hrow]; exact List.mem_singleton_self row) hs row'
    (by rw [hrow']; exact List.mem_singleton_self row') (hid'.trans hid.symm)
  rw [hs'] at this
  cases this

end Runs

end Finality
