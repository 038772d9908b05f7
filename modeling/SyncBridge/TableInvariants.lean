import SyncBridge.Database
import Mathlib.Data.List.Perm.Subperm
import Mathlib.Data.List.Nodup
import Mathlib.Data.List.Flatten

/-!
# What statements keep

`Effect` says once what a statement can do to the tables and the open
transactions. From it follow the facts every later result uses: identifiers and
idempotency keys are never given twice, counting the rows that open transactions
have inserted but not committed, and a committed row changes only by an update
that names it, by a commit of a transaction that has reset it, or by the purge.
-/

namespace TableInvariants

open Entities Database

/-- The row a statement writes by itself, outside a transaction. -/
def poolUpdate : DbOp → Option (Nat × Patch)
  | .update id p => some (id, p)
  | .resetForRetry .pool id => some (id, .resetForRetry)
  | _ => none

/-- Everything a statement can do. -/
inductive Effect (now pid : Nat) (db : Db) : DbOp → Db → Prop where
  | unchanged {op : DbOp} : Effect now pid db op db
  | updated {op : DbOp} (id : Nat) (p : Patch) (names : poolUpdate op = some (id, p))
      (free : db.locked Db.anyone id = false) :
      Effect now pid db op { db with
        transfers := patchRow none now id p db.transfers
        completions := completed id p db.transfers ++ db.completions }
  | purged (cutoff : Nat)
      (free : ∀ t ∈ db.transfers, Db.purgeable cutoff t = true → db.locked Db.anyone t.id = false) :
      Effect now pid db (.deleteTerminalOlderThan cutoff)
        { db with transfers := db.transfers.filter fun t => !Db.purgeable cutoff t }
  | began : Effect now pid db .begin (db.setTx pid ⟨now, none, []⟩)
  | tenantSet (tenantId : String) (t : Tx) (isOpen : db.tx pid = some t) :
      Effect now pid db (.setCurrentTenant tenantId)
        (db.setTx pid { t with currentTenant := some tenantId })
  | reset (id : Nat) (t : Tx) (isOpen : db.tx pid = some t)
      (free : db.locked (· ≠ pid) id = false) :
      Effect now pid db (.resetForRetry .tx id)
        (db.setTx pid { t with writes := t.writes ++ [.reset id] })
  | inserted (input : CreatePendingInput) (t : Tx) (isOpen : db.tx pid = some t)
      (newKey : ∀ r ∈ db.transfers, r.idempotencyKey ≠ input.idempotencyKey)
      (ownKey : ∀ r ∈ t.rows, r.idempotencyKey ≠ input.idempotencyKey)
      (otherKey : db.keyHeld (· ≠ pid) input.idempotencyKey = false) :
      Effect now pid db (.insertTransfer input)
        { db.setTx pid { t with writes := t.writes ++
          [.transfer (input.row db.nextId t.startedAt)] } with
          nextId := db.nextId + 1 }
  | recorded (aggregateId : Nat) (payload : TransferJobData) (t : Tx)
    (isOpen : db.tx pid = some t) :
      Effect now pid db (.insertEvent aggregateId payload)
        { db.setTx pid { t with writes := t.writes ++
            [.event ⟨db.nextId, aggregateId, payload, .pending, 0, t.startedAt, none⟩] } with
          nextId := db.nextId + 1 }
  | committed (t : Tx) (isOpen : db.tx pid = some t) :
      Effect now pid db .commit ((db.applyWrites t).dropTx pid)
  | rolledBack : Effect now pid db .rollback (db.dropTx pid)
  | published (id : Nat) : Effect now pid db (.markPublished id)
      { db with outbox := db.outbox.map (Db.publish now id) }
  | metered (tenantId : String) (bytes : Nat) : Effect now pid db (.recordUsage tenantId bytes)
      { db with usage := Db.addUsage tenantId bytes db.usage }

section Inversion
variable {now pid : Nat} {db db' : Db}

theorem updateRow_effect {op : DbOp} {id : Nat} {p : Patch} {a : Except Err Unit}
    (names : poolUpdate op = some (id, p)) (h : db.updateRow now id p = some (a, db')) :
    Effect now pid db op db' := by
  rw [Db.updateRow] at h
  split at h
  · cases h
  · rename_i free
    cases h
    exact .updated id p names (by simpa using free)

theorem exec_effect {op : DbOp} {a : Except Err op.Ans} (h : db.exec now pid op = some (a, db')) :
    Effect now pid db op db' := by
  cases op with
  | findOne mgr id => cases h; exact .unchanged
  | update id p => exact updateRow_effect rfl h
  | resetForRetry mgr id =>
    cases mgr with
    | pool => exact updateRow_effect rfl h
    | tx =>
      simp only [Db.exec] at h
      split at h
      · cases h; exact .unchanged
      · rename_i t isOpen
        split at h
        · split at h
          · cases h
          · rename_i free
            cases h
            exact .reset id t isOpen (by simpa using free)
        · cases h; exact .unchanged
  | findForRetry mgr status before limit => cases h; exact .unchanged
  | findAndCount mgr status limit offset => cases h; exact .unchanged
  | findStuck staleBefore limit => cases h; exact .unchanged
  | deleteTerminalOlderThan cutoff =>
    simp only [Db.exec] at h
    split at h
    · cases h
    · rename_i free
      cases h
      refine .purged cutoff fun t ht hp => ?_
      by_contra hl
      exact free (List.any_eq_true.mpr ⟨t, ht, by simp [hp, hl]⟩)
  | begin => cases h; exact .began
  | setCurrentTenant tenantId =>
    simp only [Db.exec] at h
    split at h
    · cases h; exact .unchanged
    · rename_i t isOpen
      cases h
      exact .tenantSet tenantId t isOpen
  | insertTransfer input =>
    simp only [Db.exec] at h
    split at h
    · cases h; exact .unchanged
    · rename_i t isOpen
      split at h
      · cases h; exact .unchanged
      · rename_i taken
        split at h
        · cases h
        · rename_i held
          cases h
          simp only [Bool.or_eq_true, List.any_eq_true, decide_eq_true_eq, not_or, not_exists,
            not_and] at taken
          exact .inserted input t isOpen taken.1 taken.2 (by simpa using held)
  | insertEvent aggregateId payload =>
    simp only [Db.exec] at h
    split at h
    · cases h; exact .unchanged
    · rename_i t isOpen
      cases h
      exact .recorded aggregateId payload t isOpen
  | commit =>
    simp only [Db.exec] at h
    split at h
    · cases h; exact .unchanged
    · rename_i t isOpen
      cases h
      exact .committed t isOpen
  | rollback => cases h; exact .rolledBack
  | findPendingEvents limit => cases h; exact .unchanged
  | markPublished id => cases h; exact .published id
  | findUsage tenantId => cases h; exact .unchanged
  | recordUsage tenantId bytes => cases h; exact .metered tenantId bytes
  | findSubscriptions tenantId => cases h; exact .unchanged

end Inversion

section Transactions
variable {db : Db} {pid : Nat} {t : Tx}

theorem tx_eq_some (h : db.tx pid = some t) : (pid, t) ∈ db.openTxs := by
  rw [Db.tx] at h
  split at h
  · cases h
  · rename_i e he
    cases h
    have hp : e.1 = pid := by simpa using List.find?_some he
    exact hp ▸ List.mem_of_find?_eq_some he

@[simp] theorem tx_setTx (db : Db) (pid : Nat) (t : Tx) : (db.setTx pid t).tx pid = some t := by
  simp [Db.setTx, Db.tx]

theorem tx_setTx_ne (db : Db) {pid other : Nat} (t : Tx) (h : other ≠ pid) :
    (db.setTx pid t).tx other = db.tx other := by
  have hp : ¬ pid = other := fun e => h e.symm
  have hf :
      (fun e : Nat × Tx => decide ((decide (e.1 ≠ pid)) = true ∧ decide (e.1 = other) = true)) =
      fun e => decide (e.1 = other) := by
    funext e
    by_cases he : e.1 = other
    · simp [he, h]
    · simp [he]
  simp only [Db.setTx, Db.tx, List.find?_cons, hp, decide_false, List.find?_filter, hf]

theorem tx_dropTx_ne (db : Db) {pid other : Nat} (h : other ≠ pid) :
    (db.dropTx pid).tx other = db.tx other := by
  have hf :
      (fun e : Nat × Tx => decide ((decide (e.1 ≠ pid)) = true ∧ decide (e.1 = other) = true)) =
      fun e => decide (e.1 = other) := by
    funext e
    by_cases he : e.1 = other
    · simp [he, h]
    · simp [he]
  simp only [Db.dropTx, Db.tx, List.find?_filter, hf]

/-- With one transaction per connection, setting one replaces exactly that one. -/
theorem openTxs_perm (distinct : (db.openTxs.map (·.1)).Nodup) (h : db.tx pid = some t) :
    db.openTxs.Perm ((pid, t) :: db.openTxs.filter fun e => e.1 ≠ pid) := by
  have hm := tx_eq_some h
  generalize db.openTxs = l at distinct hm
  induction l with
  | nil => cases hm
  | cons e es ih =>
    rw [List.map_cons, List.nodup_cons] at distinct
    rcases List.mem_cons.mp hm with rfl | hm
    · have rest : es.filter (fun e => e.1 ≠ pid) = es := by
        refine List.filter_eq_self.mpr fun e he => ?_
        have : e.1 ≠ pid := fun eq => distinct.1 (List.mem_map.mpr ⟨e, he, eq⟩)
        simpa using this
      rw [List.filter_cons_of_neg (by simp), rest]
    · have hne : e.1 ≠ pid := fun eq => distinct.1 (List.mem_map.mpr ⟨_, hm, eq.symm⟩)
      rw [List.filter_cons_of_pos (by simpa using hne)]
      exact ((ih distinct.2 hm).cons e).trans (.swap _ _ _)

end Transactions

theorem nodup_of_subperm {α : Type} {l₁ l₂ : List α} (h : l₁.Subperm l₂) (distinct : l₂.Nodup) :
    l₁.Nodup := by
  obtain ⟨l, perm, sub⟩ := h
  exact perm.nodup_iff.mp (distinct.sublist sub)

section Columns
variable {α β : Type} {f : α → β} {new old : List α}

/-- A column stays distinct when at most one value comes in and that one is fresh. -/
theorem nodup_grown {column : List β} (sub : column.Subperm ((new ++ old).map f))
    (few : new.length ≤ 1)
    (distinct : (old.map f).Nodup) (fresh : ∀ x ∈ new, ∀ y ∈ old, f y ≠ f x) : column.Nodup := by
  apply nodup_of_subperm sub
  rcases new with _ | ⟨x, _ | ⟨_, _⟩⟩
  · exact distinct
  · rw [List.map_append, List.map_singleton, List.singleton_append, List.nodup_cons]
    refine ⟨fun hm => ?_, distinct⟩
    obtain ⟨y, hy, same⟩ := List.mem_map.mp hm
    exact fresh x List.mem_cons_self y hy same
  · simp only [List.length_cons] at few
    omega

/-- Numbers stay below the counter when the new ones are its value and it is moved on. -/
theorem below_grown {f : α → Nat} {column : List Nat} {n n' : Nat}
    (sub : column.Subperm ((new ++ old).map f)) (numbered : ∀ x ∈ new, f x = n)
    (below : ∀ y ∈ old, f y < n) (counter : n + new.length ≤ n') : ∀ i ∈ column, i < n' := by
  intro i hi
  obtain ⟨x, hx, rfl⟩ := List.mem_map.mp (sub.subset hi)
  rcases List.mem_append.mp hx with hx | hx
  · have := numbered x hx
    have := List.length_pos_of_mem hx
    omega
  · have := below x hx
    omega

end Columns

/-- A column that no update changes. -/
def Kept {β : Type} (f : FileTransfer → β) : Prop := ∀ now t p, f (Patch.apply now t p) = f t

theorem kept_id : Kept (·.id) := fun now t p => Patch.apply_id now t p

theorem kept_key : Kept (·.idempotencyKey) := fun now t p => Patch.apply_idempotencyKey now t p

section Columns
variable {β : Type} {f : FileTransfer → β}

theorem patchRow_map (hf : Kept f) (tenant : Option String) (now : Nat) (id : Nat) (p : Patch)
    (rows : List FileTransfer) : (patchRow tenant now id p rows).map f = rows.map f := by
  rw [patchRow, List.map_map]
  refine List.map_congr_left fun t _ => ?_
  simp only [Function.comp]
  split
  · exact hf now t p
  · rfl

theorem applyWrites_map (hf : Kept f) (db : Db) (t : Tx) :
    (db.applyWrites t).transfers.map f = db.transfers.map f ++ t.rows.map f := by
  rw [Db.applyWrites, Tx.rows]
  generalize t.writes = ws
  induction ws generalizing db with
  | nil => simp
  | cons w ws ih =>
    rw [List.foldl_cons, ih]
    cases w with
    | transfer row => simp [Db.applyWrite, Write.row?]
    | event e => simp [Db.applyWrite, Write.row?, List.filterMap_cons]
    | reset id => simp [Db.applyWrite, Write.row?, List.filterMap_cons, patchRow_map hf]

end Columns

/-- An update of one row leaves the others. -/
theorem patchRow_elsewhere {tenant : Option String} {now id r : Nat} (other : id ≠ r) (p : Patch)
    (rows : List FileTransfer) :
    (patchRow tenant now id p rows).filter (fun t => t.id = r) = rows.filter fun t => t.id = r := by
  induction rows with
  | nil => rfl
  | cons t rest ih =>
    rw [patchRow, List.map_cons, ← patchRow]
    by_cases hid : t.id = id
    · have kept :
          (if t.id = id ∧ tenantIsolation tenant t = true then p.apply now t else t).id ≠ r := by
        split
        · rw [Patch.apply_id, hid]
          exact other
        · rw [hid]
          exact other
      rw [List.filter_cons_of_neg (by simpa using kept), ih,
        List.filter_cons_of_neg (by simpa [hid] using other)]
    · rw [if_neg fun h => hid h.1, List.filter_cons, List.filter_cons, ih]

/-- The parts of the database a commit leaves alone, and the logs it extends. -/
theorem applyWrites_frame (db : Db) (t : Tx) :
    (db.applyWrites t).outbox = db.outbox ++ t.events ∧
    (db.applyWrites t).inserted = db.inserted ++ t.rows ∧
    (db.applyWrites t).openTxs = db.openTxs ∧
    (db.applyWrites t).nextId = db.nextId ∧
    (db.applyWrites t).usage = db.usage ∧
    (db.applyWrites t).subscriptions = db.subscriptions ∧
    (db.applyWrites t).completions = db.completions := by
  rw [Db.applyWrites, Tx.events, Tx.rows]
  generalize t.writes = ws
  induction ws generalizing db with
  | nil => simp
  | cons w ws ih =>
    obtain ⟨h₁, h₂, h₃, h₄, h₅, h₆, h₇⟩ := ih (db.applyWrite t w)
    rw [List.foldl_cons, h₁, h₂, h₃, h₄, h₅, h₆, h₇]
    cases w <;> simp [Db.applyWrite, Write.row?, Write.event?, List.filterMap_cons]

/-- Rows inserted by open transactions. -/
def buffered (db : Db) : List FileTransfer := db.openTxs.flatMap fun e => e.2.rows

def bufferedEvents (db : Db) : List OutboxEvent := db.openTxs.flatMap fun e => e.2.events

/-- Committed rows and the rows still in open transactions. -/
def allRows (db : Db) : List FileTransfer := db.transfers ++ buffered db

def allEvents (db : Db) : List OutboxEvent := db.outbox ++ bufferedEvents db

structure Consistent (db : Db) : Prop where
  connections : (db.openTxs.map (·.1)).Nodup
  rowIds : ((allRows db).map (·.id)).Nodup
  keys : ((allRows db).map (·.idempotencyKey)).Nodup
  rowsBelow : ∀ t ∈ allRows db, t.id < db.nextId
  eventIds : ((allEvents db).map (·.id)).Nodup
  eventsBelow : ∀ e ∈ allEvents db, e.id < db.nextId
  newRows : ∀ t ∈ buffered db, t.status = .pending
  newEvents : ∀ e ∈ bufferedEvents db, e.status = .pending
  historyIds : ((db.inserted ++ buffered db).map (·.id)).Nodup
  historyBelow : ∀ t ∈ db.inserted, t.id < db.nextId

/-- Rows and events of the other connections' transactions. -/
def otherRows (db : Db) (pid : Nat) : List FileTransfer :=
  (db.openTxs.filter fun e => e.1 ≠ pid).flatMap fun e => e.2.rows

def otherEvents (db : Db) (pid : Nat) : List OutboxEvent :=
  (db.openTxs.filter fun e => e.1 ≠ pid).flatMap fun e => e.2.events

section Buffers
variable {db : Db} {pid : Nat} {t : Tx}

theorem buffered_perm (h : Consistent db) (isOpen : db.tx pid = some t) :
    (buffered db).Perm (t.rows ++ otherRows db pid) :=
  (openTxs_perm h.connections isOpen).flatMap_right _

theorem bufferedEvents_perm (h : Consistent db) (isOpen : db.tx pid = some t) :
    (bufferedEvents db).Perm (t.events ++ otherEvents db pid) :=
  (openTxs_perm h.connections isOpen).flatMap_right _

theorem otherRows_sublist (db : Db) (pid : Nat) : (otherRows db pid).Sublist (buffered db) :=
  List.filter_sublist.flatMap _

theorem otherEvents_sublist (db : Db) (pid : Nat) :
    (otherEvents db pid).Sublist (bufferedEvents db) :=
  List.filter_sublist.flatMap _

theorem connections_filter (h : Consistent db) :
    ((db.openTxs.filter fun e => e.1 ≠ pid).map (·.1)).Nodup :=
  h.connections.sublist (List.filter_sublist.map _)

theorem connections_setTx (h : Consistent db) (pid : Nat) (t : Tx) :
    ((db.setTx pid t).openTxs.map (·.1)).Nodup := by
  rw [Db.setTx, List.map_cons, List.nodup_cons]
  refine ⟨?_, connections_filter h⟩
  intro hm
  obtain ⟨e, he, heq⟩ := List.mem_map.mp hm
  have := (List.mem_filter.mp he).2
  simp [heq] at this

end Buffers

/-- How one statement may change the rows and events there are. -/
structure Grows (db db' : Db) (rows : List FileTransfer) (events : List OutboxEvent) : Prop where
  connections : (db'.openTxs.map (·.1)).Nodup
  columns : ∀ {β : Type} (f : FileTransfer → β), Kept f →
    ((allRows db').map f).Subperm ((rows ++ allRows db).map f)
  eventColumn : ((allEvents db').map (·.id)).Subperm ((events ++ allEvents db).map (·.id))
  history : ((db'.inserted ++ buffered db').map (·.id)).Subperm
    ((rows ++ (db.inserted ++ buffered db)).map (·.id))
  counter : db'.nextId = db.nextId + rows.length + events.length
  buffers : ∀ t ∈ buffered db', t ∈ rows ∨ t ∈ buffered db
  eventBuffers : ∀ e ∈ bufferedEvents db', e ∈ events ∨ e ∈ bufferedEvents db

section Growth
variable {now pid : Nat} {db db' : Db}

theorem grows_refl (h : Consistent db) : Grows db db [] [] :=
  ⟨h.connections, fun _ _ => .refl _, .refl _, .refl _, rfl, fun _ ht => .inr ht,
    fun _ he => .inr he⟩

/-- Replacing the transaction of a connection by one with the same rows and events. -/
theorem grows_setTx (h : Consistent db) {t t' : Tx} (isOpen : db.tx pid = some t)
    (rows : t'.rows = t.rows) (events : t'.events = t.events) :
    Grows db (db.setTx pid t') [] [] := by
  have hr : (t'.rows ++ otherRows db pid).Perm (buffered db) := rows ▸ (buffered_perm h isOpen).symm
  have he : (t'.events ++ otherEvents db pid).Perm (bufferedEvents db) :=
    events ▸ (bufferedEvents_perm h isOpen).symm
  exact {
    connections := connections_setTx h pid t'
    columns := fun f _ => ((hr.append_left db.transfers).map f).subperm
    eventColumn := ((he.append_left db.outbox).map _).subperm
    history := ((hr.append_left db.inserted).map _).subperm
    counter := rfl
    buffers := fun t ht => .inr (hr.mem_iff.mp ht)
    eventBuffers := fun e he' => .inr (he.mem_iff.mp he') }

/-- Forgetting the transaction of a connection, or starting it anew. -/
theorem grows_dropTx (h : Consistent db) : Grows db (db.dropTx pid) [] [] where
  connections := connections_filter h
  columns f _ := (((otherRows_sublist db pid).append_left db.transfers).map f).subperm
  eventColumn := (((otherEvents_sublist db pid).append_left db.outbox).map _).subperm
  history := (((otherRows_sublist db pid).append_left db.inserted).map _).subperm
  counter := rfl
  buffers _ ht := .inr ((otherRows_sublist db pid).subset ht)
  eventBuffers _ he := .inr ((otherEvents_sublist db pid).subset he)

theorem grows_begin (h : Consistent db) : Grows db (db.setTx pid ⟨now, none, []⟩) [] [] where
  connections := connections_setTx h pid _
  columns f _ := (((otherRows_sublist db pid).append_left db.transfers).map f).subperm
  eventColumn := (((otherEvents_sublist db pid).append_left db.outbox).map _).subperm
  history := (((otherRows_sublist db pid).append_left db.inserted).map _).subperm
  counter := rfl
  buffers _ ht := .inr ((otherRows_sublist db pid).subset ht)
  eventBuffers _ he := .inr ((otherEvents_sublist db pid).subset he)

theorem grows_commit (h : Consistent db) {t : Tx} (isOpen : db.tx pid = some t) :
    Grows db ((db.applyWrites t).dropTx pid) [] [] := by
  obtain ⟨houtbox, hinserted, hopen, hnext, -⟩ := applyWrites_frame db t
  have hbuf : buffered ((db.applyWrites t).dropTx pid) = otherRows db pid := by
    simp only [buffered, otherRows, Db.dropTx, hopen]
  have hevs : bufferedEvents ((db.applyWrites t).dropTx pid) = otherEvents db pid := by
    simp only [bufferedEvents, otherEvents, Db.dropTx, hopen]
  constructor
  · simpa only [Db.dropTx, hopen] using connections_filter h
  · intro β f hf
    rw [allRows, List.map_append, hbuf, List.nil_append, allRows, List.map_append]
    have := applyWrites_map hf db t
    rw [Db.dropTx, this, List.append_assoc, ← List.map_append]
    exact (((buffered_perm h isOpen).symm.map f).append_left _).subperm
  · rw [allEvents, hevs, Db.dropTx, houtbox, List.append_assoc]
    exact (((bufferedEvents_perm h isOpen).symm.append_left db.outbox).map _).subperm
  · rw [hbuf, Db.dropTx, hinserted, List.append_assoc]
    exact (((buffered_perm h isOpen).symm.append_left db.inserted).map _).subperm
  · exact hnext
  · intro t' ht
    rw [hbuf] at ht
    exact .inr ((otherRows_sublist db pid).subset ht)
  · intro e he
    rw [hevs] at he
    exact .inr ((otherEvents_sublist db pid).subset he)

/-- A new row or event of the connection's own transaction. -/
theorem grows_insert (h : Consistent db) {t : Tx} (isOpen : db.tx pid = some t)
    (row : FileTransfer) :
    Grows db { db.setTx pid { t with writes := t.writes ++ [.transfer row] } with
      nextId := db.nextId + 1 } [row] [] := by
  have hr : (Tx.rows { t with writes := t.writes ++ [.transfer row] } ++ otherRows db pid).Perm
      (row :: buffered db) := by
    have : Tx.rows { t with writes := t.writes ++ [.transfer row] } = t.rows ++ [row] := by
      simp [Tx.rows, Write.row?]
    rw [this, List.append_assoc]
    exact List.perm_middle.trans ((buffered_perm h isOpen).symm.cons row)
  have he : (Tx.events { t with writes := t.writes ++ [.transfer row] } ++ otherEvents db pid).Perm
      (bufferedEvents db) := by
    have : Tx.events { t with writes := t.writes ++ [.transfer row] } = t.events := by
      simp [Tx.events, Write.event?, List.filterMap_cons]
    exact this ▸ (bufferedEvents_perm h isOpen).symm
  exact {
    connections := connections_setTx h pid _
    columns := fun f _ => (((hr.append_left db.transfers).trans List.perm_middle).map f).subperm
    eventColumn := ((he.append_left db.outbox).map _).subperm
    history := (((hr.append_left db.inserted).trans List.perm_middle).map _).subperm
    counter := rfl
    eventBuffers := fun e he' => .inr (he.mem_iff.mp he')
    buffers := fun t' ht => by
      rcases List.mem_cons.mp (hr.mem_iff.mp ht) with rfl | ht
      · exact .inl List.mem_cons_self
      · exact .inr ht }

theorem grows_record (h : Consistent db) {t : Tx} (isOpen : db.tx pid = some t) (e : OutboxEvent) :
    Grows db { db.setTx pid { t with writes := t.writes ++ [.event e] } with
      nextId := db.nextId + 1 } [] [e] := by
  have hr : (Tx.rows { t with writes := t.writes ++ [.event e] } ++ otherRows db pid).Perm
      (buffered db) := by
    have : Tx.rows { t with writes := t.writes ++ [.event e] } = t.rows := by
      simp [Tx.rows, Write.row?, List.filterMap_cons]
    exact this ▸ (buffered_perm h isOpen).symm
  have he : (Tx.events { t with writes := t.writes ++ [.event e] } ++ otherEvents db pid).Perm
      (e :: bufferedEvents db) := by
    have : Tx.events { t with writes := t.writes ++ [.event e] } = t.events ++ [e] := by
      simp [Tx.events, Write.event?]
    rw [this, List.append_assoc]
    exact List.perm_middle.trans ((bufferedEvents_perm h isOpen).symm.cons e)
  exact {
    connections := connections_setTx h pid _
    columns := fun f _ => ((hr.append_left db.transfers).map f).subperm
    eventColumn := (((he.append_left db.outbox).trans List.perm_middle).map _).subperm
    history := ((hr.append_left db.inserted).map _).subperm
    counter := rfl
    buffers := fun t' ht => .inr (hr.mem_iff.mp ht)
    eventBuffers := fun e' he' => by
      rcases List.mem_cons.mp (he.mem_iff.mp he') with rfl | he'
      · exact .inl List.mem_cons_self
      · exact .inr he' }

theorem mem_keyHeld {who : Nat → Bool} {key : String} (h : db.keyHeld who key = false)
    {e : Nat × Tx} (he : e ∈ db.openTxs) (hwho : who e.1 = true) {t : FileTransfer}
    (ht : t ∈ e.2.rows) : t.idempotencyKey ≠ key := by
  intro heq
  have : db.keyHeld who key = true := by
    rw [Db.keyHeld, List.any_eq_true]
    refine ⟨e, he, ?_⟩
    simp only [hwho, Bool.true_and, List.any_eq_true]
    exact ⟨t, ht, by simpa using heq⟩
  rw [this] at h
  cases h

/-- An insert that goes through has a key no row has, committed or not. -/
theorem inserted_key_new (h : Consistent db) {key : String} {t : Tx} (isOpen : db.tx pid = some t)
    (newKey : ∀ r ∈ db.transfers, r.idempotencyKey ≠ key)
    (ownKey : ∀ r ∈ t.rows, r.idempotencyKey ≠ key)
    (otherKey : db.keyHeld (· ≠ pid) key = false) : ∀ r ∈ allRows db, r.idempotencyKey ≠ key := by
  intro r hr
  rcases List.mem_append.mp hr with hr | hr
  · exact newKey r hr
  · rcases List.mem_append.mp ((buffered_perm h isOpen).mem_iff.mp hr) with hr | hr
    · exact ownKey r hr
    · obtain ⟨e, he, hr⟩ := List.mem_flatMap.mp hr
      obtain ⟨he, hne⟩ := List.mem_filter.mp he
      exact mem_keyHeld otherKey he hne hr

theorem effect_grows {op : DbOp} (h : Consistent db) (e : Effect now pid db op db') :
    Grows db db' [] [] ∨
    (∃ row, Grows db db' [row] [] ∧ row.id = db.nextId ∧ row.status = .pending ∧
      ∀ r ∈ allRows db, r.idempotencyKey ≠ row.idempotencyKey) ∨
    (∃ ev, Grows db db' [] [ev] ∧ ev.id = db.nextId ∧ ev.status = .pending) := by
  cases e with
  | unchanged => exact .inl (grows_refl h)
  | updated id p names free =>
    refine .inl { grows_refl h with columns := fun f hf => ?_ }
    have : (allRows { db with transfers := patchRow none now id p db.transfers
                              completions :=
                                completed id p db.transfers ++ db.completions }).map f =
        (allRows db).map f := by
      simp only [allRows, List.map_append, patchRow_map hf, buffered]
    rw [this]
    exact .refl _
  | purged cutoff free =>
    refine .inl { grows_refl h with columns := fun f hf => ?_ }
    exact ((List.filter_sublist.append_right (buffered db)).map f).subperm
  | began => exact .inl (grows_begin h)
  | tenantSet tenantId t isOpen => exact .inl (grows_setTx h isOpen rfl rfl)
  | reset id t isOpen free =>
    exact .inl (grows_setTx h isOpen (by simp [Tx.rows, Write.row?, List.filterMap_cons])
      (by simp [Tx.events, Write.event?, List.filterMap_cons]))
  | inserted input t isOpen newKey ownKey otherKey =>
    exact .inr (.inl ⟨_, grows_insert h isOpen _, rfl, rfl,
      inserted_key_new h isOpen newKey ownKey otherKey⟩)
  | recorded aggregateId payload t isOpen =>
    exact .inr (.inr ⟨_, grows_record h isOpen _, rfl, rfl⟩)
  | committed t isOpen => exact .inl (grows_commit h isOpen)
  | rolledBack => exact .inl (grows_dropTx h)
  | published id =>
    refine .inl { grows_refl h with eventColumn := ?_ }
    have : (db.outbox.map (Db.publish now id)).map (·.id) = db.outbox.map (·.id) := by
      rw [List.map_map]
      refine List.map_congr_left fun e _ => ?_
      simp only [Function.comp, Db.publish]
      split <;> rfl
    simp only [allEvents, List.map_append, this, bufferedEvents, List.nil_append]
    exact .refl _
  | metered tenantId bytes => exact .inl { grows_refl h with }

theorem Grows.mem_ids {rows : List FileTransfer} {events : List OutboxEvent}
    (g : Grows db db' rows events) {t : FileTransfer} (ht : t ∈ allRows db') :
    ∃ t' ∈ rows ++ allRows db, t'.id = t.id := by
  have := (g.columns _ kept_id).subset (List.mem_map_of_mem ht)
  exact List.mem_map.mp this

/-- Consistency is kept when what is new carries the next number and a new key. -/
theorem Consistent.grow (h : Consistent db) {rows : List FileTransfer} {events : List OutboxEvent}
    (g : Grows db db' rows events) (ids : ∀ t ∈ rows, t.id = db.nextId)
    (eventIds : ∀ e ∈ events, e.id = db.nextId) (one : rows.length + events.length ≤ 1)
    (pending : ∀ t ∈ rows, t.status = .pending) (pendingEvents : ∀ e ∈ events, e.status = .pending)
    (keys : ∀ t ∈ rows, ∀ r ∈ allRows db, r.idempotencyKey ≠ t.idempotencyKey) :
    Consistent db' := by
  have counter := g.counter
  have history : ∀ t ∈ db.inserted ++ buffered db, t.id < db.nextId := by
    intro t ht
    rcases List.mem_append.mp ht with ht | ht
    · exact h.historyBelow t ht
    · exact h.rowsBelow t (List.mem_append_right _ ht)
  have fresh : ∀ t ∈ rows, ∀ i < db.nextId, i ≠ t.id := by
    intro t ht i low
    have := ids t ht
    omega
  constructor
  · exact g.connections
  · exact nodup_grown (g.columns _ kept_id) (by omega) h.rowIds
      fun t ht r hr => fresh t ht r.id (h.rowsBelow r hr)
  · exact nodup_grown (g.columns _ kept_key) (by omega) h.keys keys
  · intro t ht
    exact below_grown (g.columns _ kept_id) ids h.rowsBelow (by omega) t.id (List.mem_map_of_mem ht)
  · refine nodup_grown g.eventColumn (by omega) h.eventIds fun e he r hr => ?_
    have := h.eventsBelow r hr
    have := eventIds e he
    omega
  · intro e he
    exact below_grown g.eventColumn eventIds h.eventsBelow (by omega) e.id (List.mem_map_of_mem he)
  · intro t ht
    rcases g.buffers t ht with ht | ht
    · exact pending t ht
    · exact h.newRows t ht
  · intro e he
    rcases g.eventBuffers e he with he | he
    · exact pendingEvents e he
    · exact h.newEvents e he
  · exact nodup_grown g.history (by omega) h.historyIds
      fun t ht r hr => fresh t ht r.id (history r hr)
  · intro t ht
    exact below_grown g.history ids history (by omega) t.id
      (List.mem_map_of_mem (List.mem_append_left _ ht))

theorem exec_consistent {op : DbOp} {a : Except Err op.Ans} (h : Consistent db)
    (step : db.exec now pid op = some (a, db')) : Consistent db' := by
  rcases effect_grows h (exec_effect step) with g | ⟨row, g, hid, hp, hk⟩ | ⟨ev, g, hid, hp⟩
  · exact h.grow g (by simp) (by simp) (by simp) (by simp) (by simp) (by simp)
  · exact h.grow g (by simpa using hid) (by simp) (by simp) (by simpa using hp) (by simp)
      (by simpa using hk)
  · exact h.grow g (by simp) (by simpa using hid) (by simp) (by simp) (by simpa using hp) (by simp)

theorem dropTx_consistent (h : Consistent db) (pid : Nat) : Consistent (db.dropTx pid) :=
  h.grow (grows_dropTx h) (by simp) (by simp) (by simp) (by simp) (by simp) (by simp)

theorem empty_consistent (db : Db) (transfers : db.transfers = []) (outbox : db.outbox = [])
    (openTxs : db.openTxs = []) (inserted : db.inserted = []) : Consistent db := by
  constructor <;>
    simp [allRows, allEvents, buffered, bufferedEvents, transfers, outbox, openTxs, inserted]

end Growth

section Rows
variable {now pid : Nat} {db db' : Db} {t : FileTransfer}

theorem distinct_rows (h : Consistent db) : (db.transfers.map (·.id)).Nodup := by
  have := h.rowIds
  rw [allRows, List.map_append] at this
  exact this.of_append_left

theorem row_unique (h : Consistent db) {t t' : FileTransfer} (ht : t ∈ db.transfers)
    (ht' : t' ∈ db.transfers) (same : t.id = t'.id) : t = t' :=
  List.inj_on_of_nodup_map (distinct_rows h) ht ht' same

theorem mem_patchRow {tenant : Option String} {id : Nat} {p : Patch} {rows : List FileTransfer}
    (h : t ∈ patchRow tenant now id p rows) :
    t ∈ rows ∨ ∃ t₀ ∈ rows, t₀.id = id ∧ t = p.apply now t₀ := by
  obtain ⟨t₀, ht₀, rfl⟩ := List.mem_map.mp h
  split
  · rename_i hid
    exact .inr ⟨t₀, ht₀, hid.1, rfl⟩
  · exact .inl ht₀

theorem mem_patchRow_of_ne {tenant : Option String} {id : Nat} (p : Patch)
    {rows : List FileTransfer} (ht : t ∈ rows) (hne : t.id ≠ id) :
    t ∈ patchRow tenant now id p rows :=
  List.mem_map.mpr ⟨t, ht, if_neg fun h => hne h.1⟩

/-- A commit keeps the rows it has not reset. -/
theorem mem_applyWrites (x : Tx) (ht : t ∈ db.transfers) (hr : t.id ∉ x.resets) :
    t ∈ (db.applyWrites x).transfers := by
  rw [Db.applyWrites]
  rw [Tx.resets] at hr
  generalize x.writes = ws at hr
  induction ws generalizing db with
  | nil => exact ht
  | cons w ws ih =>
    rw [List.foldl_cons]
    cases w with
    | transfer row =>
      refine ih (List.mem_append_left _ ht) ?_
      simpa [List.filterMap_cons, Write.reset?] using hr
    | event e =>
      refine ih ht ?_
      simpa [List.filterMap_cons, Write.reset?] using hr
    | reset id =>
      simp only [List.filterMap_cons, Write.reset?, List.mem_cons, not_or] at hr
      exact ih (mem_patchRow_of_ne _ ht hr.1) hr.2

/-- A row after a commit is an old one, one just inserted, or a reset one. -/
theorem applyWrites_origin (x : Tx) (ht : t ∈ (db.applyWrites x).transfers) :
    t ∈ db.transfers ∨ t ∈ x.rows ∨ t.status = .pending ∧
    ∃ t₀ ∈ db.transfers ++ x.rows, t₀.id = t.id := by
  rw [Db.applyWrites] at ht
  rw [Tx.rows]
  generalize x.writes = ws at ht
  induction ws generalizing db with
  | nil => exact .inl ht
  | cons w ws ih =>
    rw [List.foldl_cons] at ht
    cases w with
    | transfer row =>
      rcases ih ht with h | h | ⟨hp, t₀, h, hid⟩
      · rcases List.mem_append.mp h with h | h
        · exact .inl h
        · exact .inr (.inl (List.mem_singleton.mp h ▸ List.mem_cons_self))
      · exact .inr (.inl (List.mem_cons_of_mem _ h))
      · refine .inr (.inr ⟨hp, t₀, ?_, hid⟩)
        simpa [Db.applyWrite, Write.row?, or_assoc] using h
    | event e =>
      rcases ih ht with h | h | h
      · exact .inl h
      · exact .inr (.inl (by simpa [List.filterMap_cons, Write.row?] using h))
      · exact .inr (.inr (by simpa [Db.applyWrite, List.filterMap_cons, Write.row?] using h))
    | reset id =>
      rcases ih ht with h | h | ⟨hp, t₀, h, hid⟩
      · rcases mem_patchRow h with h | ⟨t₀, h₀, -, rfl⟩
        · exact .inl h
        · exact .inr (.inr ⟨rfl, t₀, List.mem_append_left _ h₀, by simp⟩)
      · exact .inr (.inl (by simpa [List.filterMap_cons, Write.row?] using h))
      · refine .inr (.inr ⟨hp, ?_⟩)
        rcases List.mem_append.mp h with h | h
        · rcases mem_patchRow h with h | ⟨t₁, h₁, -, rfl⟩
          · exact ⟨t₀, List.mem_append_left _ h, hid⟩
          · exact ⟨t₁, List.mem_append_left _ h₁, by simpa using hid⟩
        · exact ⟨t₀, List.mem_append_right _ (by simpa [List.filterMap_cons, Write.row?] using h),
            hid⟩

/-- A row changes only by an update that names it, a commit that has reset it, or
the purge. -/
theorem row_kept {op : DbOp} (e : Effect now pid db op db') (ht : t ∈ db.transfers)
    (named : ∀ p, poolUpdate op ≠ some (t.id, p))
    (reset : ∀ x, db.tx pid = some x → t.id ∉ x.resets) :
    t ∈ db'.transfers ∨ ∃ cutoff, op = .deleteTerminalOlderThan cutoff ∧
    Db.purgeable cutoff t = true ∧
      db' = { db with transfers := db.transfers.filter fun t => !Db.purgeable cutoff t } := by
  cases e with
  | updated id p names free =>
    refine .inl (mem_patchRow_of_ne p ht fun heq => named p ?_)
    rw [names, heq]
  | purged cutoff free =>
    by_cases hp : Db.purgeable cutoff t = true
    · exact .inr ⟨cutoff, rfl, hp, rfl⟩
    · exact .inl (List.mem_filter.mpr ⟨ht, by simpa using hp⟩)
  | committed x isOpen => exact .inl (mem_applyWrites x ht (reset x isOpen))
  | _ => exact .inl ht

/-- A row gets a status other than PENDING only by an update outside transactions. -/
theorem status_origin {op : DbOp} (h : Consistent db) (e : Effect now pid db op db')
    (ht : t ∈ db'.transfers) (status : t.status ≠ .pending) :
    t ∈ db.transfers ∨ ∃ t₀ ∈ db.transfers, ∃ p, poolUpdate op = some (t₀.id, p) ∧
      t = p.apply now t₀ ∧ db.locked Db.anyone t₀.id = false ∧
      db'.completions = completed t₀.id p db.transfers ++ db.completions := by
  cases e with
  | updated id p names free =>
    rcases mem_patchRow ht with ht | ⟨t₀, ht₀, rfl, rfl⟩
    · exact .inl ht
    · exact .inr ⟨t₀, ht₀, p, names, rfl, free, rfl⟩
  | purged cutoff free => exact .inl (List.mem_filter.mp ht).1
  | committed x isOpen =>
    rcases applyWrites_origin x ht with ht | ht | ⟨hp, -⟩
    · exact .inl ht
    · exact absurd
        (h.newRows t ((buffered_perm h isOpen).mem_iff.mpr (List.mem_append_left _ ht))) status
    · exact absurd hp status
  | _ => exact .inl ht

/-- A row after a statement is an old one, up to an update, or a committed one. -/
theorem effect_rows {β : Type} {f : FileTransfer → β} (hf : Kept f) {op : DbOp}
    (e : Effect now pid db op db') (ht : t ∈ db'.transfers) :
    ∃ t₀, f t₀ = f t ∧ (t₀ ∈ db.transfers ∨ ∃ x, op = .commit ∧ db.tx pid = some x ∧ t₀ ∈ x.rows ∧
      db'.inserted = db.inserted ++ x.rows) := by
  have column := List.mem_map_of_mem (f := f) ht
  cases e with
  | updated id p names free =>
    rw [patchRow_map hf] at column
    obtain ⟨t₀, ht₀, heq⟩ := List.mem_map.mp column
    exact ⟨t₀, heq, .inl ht₀⟩
  | purged cutoff free => exact ⟨t, rfl, .inl (List.mem_filter.mp ht).1⟩
  | committed x isOpen =>
    have hmap := applyWrites_map hf db x
    obtain ⟨-, hi, -⟩ := applyWrites_frame db x
    simp only [Db.dropTx, hmap, List.mem_append] at column
    rcases column with column | column
    · obtain ⟨t₀, ht₀, heq⟩ := List.mem_map.mp column
      exact ⟨t₀, heq, .inl ht₀⟩
    · obtain ⟨t₀, ht₀, heq⟩ := List.mem_map.mp column
      exact ⟨t₀, heq, .inr ⟨x, rfl, isOpen, ht₀, hi⟩⟩
  | _ => exact ⟨t, rfl, .inl ht⟩

/-- Only the purge takes a row away. -/
theorem column_kept {β : Type} {f : FileTransfer → β} (hf : Kept f) {op : DbOp}
    (e : Effect now pid db op db') {v : β} (h : ∃ t ∈ db.transfers, f t = v) :
    (∃ t ∈ db'.transfers, f t = v) ∨ ∃ cutoff, op = .deleteTerminalOlderThan cutoff ∧
      ∃ t ∈ db.transfers, f t = v ∧ Db.purgeable cutoff t = true := by
  obtain ⟨t, ht, hv⟩ := h
  have column := List.mem_map_of_mem (f := f) ht
  cases e with
  | updated _ p names free =>
    rw [← patchRow_map hf none now _ p] at column
    obtain ⟨t', ht', heq⟩ := List.mem_map.mp column
    exact .inl ⟨t', ht', heq.trans hv⟩
  | purged cutoff free =>
    by_cases hp : Db.purgeable cutoff t = true
    · exact .inr ⟨cutoff, rfl, t, ht, hv, hp⟩
    · exact .inl ⟨t, List.mem_filter.mpr ⟨ht, by simpa using hp⟩, hv⟩
  | committed x isOpen =>
    have := List.mem_append_left (x.rows.map f) column
    rw [← applyWrites_map hf] at this
    obtain ⟨t', ht', heq⟩ := List.mem_map.mp this
    exact .inl ⟨t', ht', heq.trans hv⟩
  | _ => exact .inl ⟨t, ht, hv⟩

/-- Usage changes by metering, and a row is completed by an update of it. -/
theorem effect_books {op : DbOp} (e : Effect now pid db op db') :
    (db'.usage = db.usage ∧ db'.completions = db.completions) ∨
    (∃ tenantId bytes, op = .recordUsage tenantId bytes ∧
      db'.usage = Db.addUsage tenantId bytes db.usage ∧ db'.completions = db.completions) ∨
    ∃ id p, poolUpdate op = some (id, p) ∧ db'.usage = db.usage ∧
      db'.completions = completed id p db.transfers ++ db.completions := by
  cases e with
  | updated id p names free => exact .inr (.inr ⟨id, p, names, rfl, rfl⟩)
  | committed x isOpen =>
    obtain ⟨-, -, -, -, hu, -, hc⟩ := applyWrites_frame db x
    exact .inl ⟨hu, hc⟩
  | metered tenantId bytes => exact .inr (.inl ⟨tenantId, bytes, rfl, rfl, rfl⟩)
  | _ => exact .inl ⟨rfl, rfl⟩

/-- A read sees a committed row unchanged unless its own transaction has reset it. -/
theorem rows_committed (h : Consistent db) (ht : t ∈ db.transfers)
    (reset : ∀ x, db.tx pid = some x → t.id ∉ x.resets) {mgr : Manager} {t' : FileTransfer}
    (ht' : t' ∈ db.rows pid mgr) (same : t'.id = t.id) : t' = t := by
  cases mgr with
  | pool => exact row_unique h ht' ht same
  | tx =>
    rw [Db.rows] at ht'
    split at ht'
    · cases ht'
    · rename_i x isOpen
      have hm := (List.mem_filter.mp ht').1
      have ids : ((db.applyWrites x).transfers.map (·.id)).Nodup := by
        have hp : (db.transfers ++ x.rows ++ otherRows db pid).Perm (allRows db) := by
          rw [List.append_assoc]
          exact (buffered_perm h isOpen).symm.append_left db.transfers
        have := (hp.map (·.id)).nodup_iff.mpr h.rowIds
        rw [List.map_append, List.map_append] at this
        rw [applyWrites_map kept_id]
        exact this.of_append_left
      exact List.inj_on_of_nodup_map ids hm (mem_applyWrites x ht (reset x isOpen)) same

/-- A transaction resets only what it was asked to reset. -/
theorem resets_origin {op : DbOp} (e : Effect now pid db op db') {x : Nat × Tx}
    (hx : x ∈ db'.openTxs) {r : Nat} (hr : r ∈ x.2.resets) :
    (∃ y ∈ db.openTxs, y.1 = x.1 ∧ r ∈ y.2.resets) ∨ op = .resetForRetry .tx r := by
  have replaced : ∀ {u v : Tx}, db.tx pid = some u → v.resets = u.resets →
      x ∈ (db.setTx pid v).openTxs → ∃ y ∈ db.openTxs, y.1 = x.1 ∧ r ∈ y.2.resets := by
    intro u v isOpen heq hx
    rcases List.mem_cons.mp hx with rfl | hx
    · exact ⟨(pid, u), tx_eq_some isOpen, rfl, heq ▸ hr⟩
    · exact ⟨x, (List.mem_filter.mp hx).1, rfl, hr⟩
  cases e with
  | began =>
    rcases List.mem_cons.mp hx with rfl | hx
    · cases hr
    · exact .inl ⟨x, (List.mem_filter.mp hx).1, rfl, hr⟩
  | tenantSet tenantId u isOpen =>
    exact .inl (replaced (v := { u with currentTenant := some tenantId }) isOpen rfl hx)
  | reset id u isOpen free =>
    rcases List.mem_cons.mp hx with rfl | hx
    · have : r ∈ u.resets ∨ r = id := by simpa [Tx.resets, Write.reset?] using hr
      rcases this with hr | rfl
      · exact .inl ⟨(pid, u), tx_eq_some isOpen, rfl, hr⟩
      · exact .inr rfl
    · exact .inl ⟨x, (List.mem_filter.mp hx).1, rfl, hr⟩
  | inserted input u isOpen newKey ownKey otherKey =>
    exact .inl (replaced isOpen (by simp [Tx.resets, Write.reset?, List.filterMap_cons]) hx)
  | recorded aggregateId payload u isOpen =>
    exact .inl (replaced isOpen (by simp [Tx.resets, Write.reset?, List.filterMap_cons]) hx)
  | committed u isOpen =>
    obtain ⟨-, -, hopen, -⟩ := applyWrites_frame db u
    simp only [Db.dropTx, hopen] at hx
    exact .inl ⟨x, (List.mem_filter.mp hx).1, rfl, hr⟩
  | rolledBack => exact .inl ⟨x, (List.mem_filter.mp hx).1, rfl, hr⟩
  | _ => exact .inl ⟨x, hx, rfl, hr⟩

theorem not_locked {r : Nat} (free : db.locked Db.anyone r = false) {x : Nat × Tx}
    (hx : x ∈ db.openTxs) : r ∉ x.2.resets := by
  intro hr
  have : db.locked Db.anyone r = true :=
    List.any_eq_true.mpr ⟨x, hx, by simpa [Db.anyone] using hr⟩
  rw [this] at free
  cases free

/-- A statement leaves the other connections' transactions alone. -/
theorem effect_tx_other {op : DbOp} (e : Effect now pid db op db') {other : Nat}
    (hne : other ≠ pid) : db'.tx other = db.tx other := by
  cases e with
  | began => exact tx_setTx_ne db _ hne
  | tenantSet tenantId u isOpen => exact tx_setTx_ne db _ hne
  | reset id u isOpen free => exact tx_setTx_ne db _ hne
  | inserted input u isOpen newKey ownKey otherKey => exact tx_setTx_ne db _ hne
  | recorded aggregateId payload u isOpen => exact tx_setTx_ne db _ hne
  | committed u isOpen =>
    obtain ⟨-, -, hopen, -⟩ := applyWrites_frame db u
    have hdrop := tx_dropTx_ne (db.applyWrites u) hne
    rw [hdrop, Db.tx, Db.tx, hopen]
  | rolledBack => exact tx_dropTx_ne db hne
  | _ => rfl

end Rows

section RowProperties
variable {now pid : Nat} {db db' : Db} {P : FileTransfer → Prop}

theorem patchRow_all {tenant : Option String} {id : Nat} {p : Patch} {rows : List FileTransfer}
    (h : ∀ t ∈ rows, P t) (keeps : ∀ t, t.id = id → P t → P (p.apply now t)) :
    ∀ t ∈ patchRow tenant now id p rows, P t := by
  intro t ht
  rcases mem_patchRow ht with ht | ⟨t₀, ht₀, hid, rfl⟩
  · exact h t ht
  · exact keeps t₀ hid (h t₀ ht₀)

theorem applyWrites_all (x : Tx) (rows : ∀ t ∈ db.transfers, P t) (new : ∀ t ∈ x.rows, P t)
    (resets : ∀ now t, P t → P (Patch.resetForRetry.apply now t)) :
    ∀ t ∈ (db.applyWrites x).transfers, P t := by
  rw [Db.applyWrites]
  rw [Tx.rows] at new
  generalize x.writes = ws at new
  induction ws generalizing db with
  | nil => exact rows
  | cons w ws ih =>
    rw [List.foldl_cons]
    cases w with
    | transfer row =>
      simp only [List.filterMap_cons, Write.row?, List.mem_cons, forall_eq_or_imp] at new
      refine ih (fun t ht => ?_) new.2
      rcases List.mem_append.mp ht with ht | ht
      · exact rows t ht
      · exact List.mem_singleton.mp ht ▸ new.1
    | event e => exact ih rows (by simpa [List.filterMap_cons, Write.row?] using new)
    | reset id =>
      exact ih (patchRow_all rows fun t _ => resets _ t)
        (by simpa [List.filterMap_cons, Write.row?] using new)

theorem buffered_of_tx {x : Tx} (isOpen : db.tx pid = some x) {t : FileTransfer} (ht : t ∈ x.rows) :
    t ∈ allRows db :=
  List.mem_append_right _ (List.mem_flatMap.mpr ⟨(pid, x), tx_eq_some isOpen, ht⟩)

/-- What a transaction keeps of its rows is all that changes of the buffered ones. -/
theorem setTx_all {x : Tx} (h : ∀ t ∈ allRows db, P t) (new : ∀ t ∈ x.rows, P t) :
    ∀ t ∈ allRows (db.setTx pid x), P t := by
  intro t ht
  rcases List.mem_append.mp ht with ht | ht
  · exact h t (List.mem_append_left _ ht)
  · obtain ⟨e, he, ht⟩ := List.mem_flatMap.mp ht
    rcases List.mem_cons.mp he with rfl | he
    · exact new t ht
    · exact h t (List.mem_append_right _ (List.mem_flatMap.mpr ⟨e, (List.mem_filter.mp he).1, ht⟩))

theorem dropTx_all (h : ∀ t ∈ allRows db, P t) : ∀ t ∈ allRows (db.dropTx pid), P t := by
  intro t ht
  rcases List.mem_append.mp ht with ht | ht
  · exact h t (List.mem_append_left _ ht)
  · obtain ⟨e, he, ht⟩ := List.mem_flatMap.mp ht
    exact h t (List.mem_append_right _ (List.mem_flatMap.mpr ⟨e, (List.mem_filter.mp he).1, ht⟩))

/-- A property that inserts establish and updates keep holds of all rows, committed or
not. -/
theorem effect_all {op : DbOp} (e : Effect now pid db op db')
    (inserts : ∀ input id startedAt, op = .insertTransfer input → P (input.row id startedAt))
    (updates : ∀ id p t, poolUpdate op = some (id, p) → t.id = id → P t → P (p.apply now t))
    (resets : ∀ now t, P t → P (Patch.resetForRetry.apply now t)) (h : ∀ t ∈ allRows db, P t) :
    ∀ t ∈ allRows db', P t := by
  have own : ∀ x, db.tx pid = some x → ∀ t ∈ x.rows, P t :=
    fun x isOpen t ht => h t (buffered_of_tx isOpen ht)
  cases e with
  | updated id p names free =>
    intro t ht
    rcases List.mem_append.mp ht with ht | ht
    · exact patchRow_all (fun t ht => h t (List.mem_append_left _ ht))
        (fun t => updates id p t names) t ht
    · exact h t (List.mem_append_right _ ht)
  | purged cutoff free =>
    intro t ht
    rcases List.mem_append.mp ht with ht | ht
    · exact h t (List.mem_append_left _ (List.mem_filter.mp ht).1)
    · exact h t (List.mem_append_right _ ht)
  | began => exact setTx_all h fun t ht => nomatch ht
  | tenantSet tenantId x isOpen => exact setTx_all h (own x isOpen)
  | reset id x isOpen free =>
    refine setTx_all h fun t ht => own x isOpen t ?_
    simpa [Tx.rows, Write.row?, List.filterMap_cons] using ht
  | inserted input x isOpen newKey ownKey otherKey =>
    refine setTx_all h fun t ht => ?_
    have : t ∈ x.rows ∨ t = input.row db.nextId x.startedAt := by
      simpa [Tx.rows, Write.row?, List.filterMap_cons] using ht
    rcases this with ht | rfl
    · exact own x isOpen t ht
    · exact inserts input _ _ rfl
  | recorded aggregateId payload x isOpen =>
    refine setTx_all h fun t ht => own x isOpen t ?_
    simpa [Tx.rows, Write.row?, List.filterMap_cons] using ht
  | committed x isOpen =>
    refine dropTx_all fun t ht => ?_
    rcases List.mem_append.mp ht with ht | ht
    · exact applyWrites_all x (fun t ht => h t (List.mem_append_left _ ht))
        (own x isOpen) resets t ht
    · obtain ⟨-, -, hopen, -⟩ := applyWrites_frame db x
      rw [buffered, hopen] at ht
      exact h t (List.mem_append_right _ ht)
  | rolledBack => exact dropTx_all h
  | _ => exact h

/-- The rows a manager sees have the properties of all rows. -/
theorem rows_all (resets : ∀ now t, P t → P (Patch.resetForRetry.apply now t))
    (h : ∀ t ∈ allRows db, P t) (mgr : Manager) : ∀ t ∈ db.rows pid mgr, P t := by
  intro t ht
  cases mgr with
  | pool => exact h t (List.mem_append_left _ ht)
  | tx =>
    rw [Db.rows] at ht
    split at ht
    · cases ht
    · rename_i x isOpen
      refine applyWrites_all x (fun t ht => h t (List.mem_append_left _ ht)) ?_ resets t
        (List.mem_filter.mp ht).1
      exact fun t ht => h t (buffered_of_tx isOpen ht)

end RowProperties

end TableInvariants
