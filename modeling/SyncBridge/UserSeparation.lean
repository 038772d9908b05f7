import SyncBridge.Orchestrator

/-!
# Keys of different users

The object key is a rule's prefix, the username and the virtual path, one after the
other. Under one prefix the username is read back from the key, so different users
never meet. Two rules may meet when the prefix of one extends the prefix of the
other: the extension then takes the place of a username, or of its beginning. The
result says exactly which transfers of different users meet.
-/

namespace UserSeparation

open Entities PosixPaths Routing Ingestion Orchestrator

/-- A username as the file server gives them. -/
structure Username (name : String) : Prop where
  nonempty : name ≠ ""
  unseparated : '/' ∉ name.toList

section Lists
variable {p p' u u' r r' : List Char}

/-- The text before the first separator is read back. -/
theorem split_separator {α : Type} {sep : α} {u u' r r' : List α} (hu : sep ∉ u) (hu' : sep ∉ u')
    (h : u ++ sep :: r = u' ++ sep :: r') : u = u' ∧ r = r' := by
  rcases List.append_eq_append_iff.mp h with ⟨e, rfl, he⟩ | ⟨e, rfl, he⟩
  · cases e with
    | nil => exact ⟨(List.append_nil u).symm, (List.cons.inj he).2⟩
    | cons c e =>
      obtain ⟨rfl, -⟩ := List.cons.inj he
      exact absurd (List.mem_append_right u List.mem_cons_self) hu'
  · cases e with
    | nil => exact ⟨List.append_nil u', (List.cons.inj he).2.symm⟩
    | cons c e =>
      obtain ⟨rfl, -⟩ := List.cons.inj he
      exact absurd (List.mem_append_right u' List.mem_cons_self) hu

/-- The second prefix extends the first by some text that either begins the first
username, the second one following, or is the first username with the start of its
path. -/
def Overlap (p u r p' u' r' : List Char) : Prop :=
  ∃ d, p' = p ++ d ∧ d ≠ [] ∧ d.head? ≠ some '/' ∧
    (u = d ++ u' ∧ r = r' ∨ ∃ y, d = u ++ '/' :: y ∧ r = y ++ u' ++ '/' :: r')

theorem overlap_meets (h : Overlap p u r p' u' r') :
    p ++ u ++ '/' :: r = p' ++ u' ++ '/' :: r' := by
  obtain ⟨d, rfl, -, -, ⟨rfl, rfl⟩ | ⟨y, rfl, rfl⟩⟩ := h
  · simp
  · simp

/-- One prefix is the start of the other, so the two keys differ in where it ends. -/
theorem overlap_of_extends {d : List Char} (hn : u ≠ []) (hn' : u' ≠ []) (hu : '/' ∉ u)
    (hu' : '/' ∉ u') (different : u ≠ u') (h : u ++ '/' :: r = d ++ (u' ++ '/' :: r')) :
    Overlap p u r (p ++ d) u' r' := by
  rcases List.append_eq_append_iff.mp h with ⟨e, rfl, he⟩ | ⟨e, rfl, he⟩
  · cases e with
    | nil =>
      obtain ⟨c, cs, rfl⟩ := List.exists_cons_of_ne_nil hn'
      obtain ⟨rfl, -⟩ := List.cons.inj he
      exact absurd List.mem_cons_self hu'
    | cons c y =>
      obtain ⟨rfl, hr⟩ := List.cons.inj he
      obtain ⟨c, cs, rfl⟩ := List.exists_cons_of_ne_nil hn
      refine ⟨(c :: cs) ++ '/' :: y, rfl, by simp, ?_, .inr ⟨y, rfl, by simpa using hr⟩⟩
      rintro hc
      cases hc
      exact hu List.mem_cons_self
  · simp only [List.mem_append, not_or] at hu
    obtain ⟨rfl, rfl⟩ := split_separator hu.2 hu' he.symm
    cases d with
    | nil => exact absurd rfl different
    | cons c cs =>
      refine ⟨c :: cs, rfl, by simp, ?_, .inl ⟨rfl, rfl⟩⟩
      rintro hc
      cases hc
      exact hu.1 List.mem_cons_self

theorem meets_iff (p p' r r' : List Char) (hn : u ≠ []) (hn' : u' ≠ []) (hu : '/' ∉ u)
    (hu' : '/' ∉ u') (different : u ≠ u') : p ++ u ++ '/' :: r = p' ++ u' ++ '/' :: r' ↔
      Overlap p u r p' u' r' ∨ Overlap p' u' r' p u r := by
  constructor
  · intro h
    rw [List.append_assoc, List.append_assoc] at h
    rcases List.append_eq_append_iff.mp h with ⟨d, rfl, hd⟩ | ⟨d, rfl, hd⟩
    · exact .inl (overlap_of_extends hn hn' hu hu' different hd)
    · exact .inr (overlap_of_extends hn' hn hu' hu different.symm hd)
  · rintro (h | h)
    · exact overlap_meets h
    · exact (overlap_meets h).symm

end Lists

section Rules
variable (toLowerCase : String → String) (defaultBucket : String) (rules : List RoutingRule)

/-- The first rule that matches the transfer. -/
def ruleFor (t : FileTransfer) : Option RoutingRule :=
  rules.find? fun r => matchesRule toLowerCase r t

/-- The key prefix of a rule; without a rule, or without a prefix in it, nothing. -/
def keyPrefixOf (rule : Option RoutingRule) : String := (rule.bind (·.keyPrefix)).getD ""

/-- The bucket of a rule; without one, the configured bucket. -/
def bucketOf (rule : Option RoutingRule) : String :=
  ((rule.bind (·.bucket)).bind fun b => present (some b)).getD defaultBucket

/-- Two transfers whose rules share the bucket, the prefix of the one extending that of
the other over a username. -/
def Meet (t t' : FileTransfer) : Prop :=
  bucketOf defaultBucket (ruleFor toLowerCase rules t) =
      bucketOf defaultBucket (ruleFor toLowerCase rules t') ∧
    Overlap (keyPrefixOf (ruleFor toLowerCase rules t)).toList t.username.toList
      (relativePath t.virtualPath).toList (keyPrefixOf (ruleFor toLowerCase rules t')).toList
      t'.username.toList (relativePath t'.virtualPath).toList

theorem resolve_toList (t : FileTransfer) :
    (resolve toLowerCase defaultBucket rules t).key.toList =
      (keyPrefixOf (ruleFor toLowerCase rules t)).toList ++ t.username.toList ++
        '/' :: (relativePath t.virtualPath).toList := by
  have key : (resolve toLowerCase defaultBucket rules t).key =
      keyPrefixOf (ruleFor toLowerCase rules t) ++ t.username ++ "/" ++
        relativePath t.virtualPath := rfl
  rw [key, String.toList_append, String.toList_append, String.toList_append, List.append_assoc]
  rfl

theorem resolve_eq_iff {t t' : FileTransfer} (name : Username t.username)
    (name' : Username t'.username) (different : t.username ≠ t'.username) :
    resolve toLowerCase defaultBucket rules t = resolve toLowerCase defaultBucket rules t' ↔
      Meet toLowerCase defaultBucket rules t t' ∨ Meet toLowerCase defaultBucket rules t' t := by
  have nonempty : ∀ {s : String}, s ≠ "" → s.toList ≠ [] :=
    fun h hs => h (String.toList_eq_nil_iff.mp hs)
  have bucket : ∀ t, (resolve toLowerCase defaultBucket rules t).bucket =
      bucketOf defaultBucket (ruleFor toLowerCase rules t) := fun _ => rfl
  have keys := meets_iff (keyPrefixOf (ruleFor toLowerCase rules t)).toList
    (keyPrefixOf (ruleFor toLowerCase rules t')).toList (relativePath t.virtualPath).toList
    (relativePath t'.virtualPath).toList
    (nonempty name.nonempty) (nonempty name'.nonempty) name.unseparated name'.unseparated
    fun h => different (String.toList_inj.mp h)
  rw [← resolve_toList toLowerCase defaultBucket, ← resolve_toList toLowerCase defaultBucket,
    String.toList_inj] at keys
  constructor
  · intro h
    have hb := congrArg RouteTarget.bucket h
    rw [bucket, bucket] at hb
    rcases keys.mp (congrArg RouteTarget.key h) with ho | ho
    · exact .inl ⟨hb, ho⟩
    · exact .inr ⟨hb.symm, ho⟩
  · intro h
    have hb : (resolve toLowerCase defaultBucket rules t).bucket =
        (resolve toLowerCase defaultBucket rules t').bucket := by
      rw [bucket, bucket]
      rcases h with h | h
      · exact h.1
      · exact h.1.symm
    have hk := keys.mpr (h.imp And.right And.right)
    cases hr : resolve toLowerCase defaultBucket rules t
    cases hr' : resolve toLowerCase defaultBucket rules t'
    rw [hr, hr'] at hb hk
    exact RouteTarget.mk.injEq .. ▸ ⟨hb, hk⟩

/-- Transfers of different users go to different places exactly when their rules use
different buckets or neither prefix extends the other over a username. -/
theorem users_apart_iff (t t' : FileTransfer) (name : Username t.username)
    (name' : Username t'.username) (different : t.username ≠ t'.username) :
    resolve toLowerCase defaultBucket rules t ≠ resolve toLowerCase defaultBucket rules t' ↔
      ¬ Meet toLowerCase defaultBucket rules t t' ∧
      ¬ Meet toLowerCase defaultBucket rules t' t := by
  rw [ne_eq, resolve_eq_iff toLowerCase defaultBucket rules name name' different, not_or]

end Rules

/-- Rule lists whose prefixes, the empty one of unmatched transfers included, extend each
other only at a separator keep all users apart. -/
theorem separated_prefixes (toLowerCase : String → String) (defaultBucket : String)
    (rules : List RoutingRule)
    (separated : ∀ p ∈ "" :: rules.filterMap (·.keyPrefix),
      ∀ q ∈ "" :: rules.filterMap (·.keyPrefix),
      ∀ d, q.toList = p.toList ++ d → d = [] ∨ d.head? = some '/') (t t' : FileTransfer)
    (name : Username t.username) (name' : Username t'.username)
    (different : t.username ≠ t'.username) :
    resolve toLowerCase defaultBucket rules t ≠ resolve toLowerCase defaultBucket rules t' := by
  have listed : ∀ t, keyPrefixOf (ruleFor toLowerCase rules t) ∈ "" ::
      rules.filterMap (·.keyPrefix) := by
    intro t
    unfold keyPrefixOf
    cases hrule : ruleFor toLowerCase rules t with
    | none => exact List.mem_cons_self
    | some rule => cases hp : rule.keyPrefix with
      | none => simp [hp]
      | some p =>
        simp only [Option.bind_some, hp, Option.getD_some]
        exact List.mem_cons_of_mem _
          (List.mem_filterMap.mpr ⟨rule, List.mem_of_find?_eq_some hrule, hp⟩)
  have apart : ∀ t t', ¬ Meet toLowerCase defaultBucket rules t t' := by
    rintro t t' ⟨-, d, hd, nonempty, unseparated, -⟩
    rcases separated _ (listed t) _ (listed t') d hd with h | h
    · exact nonempty h
    · exact unseparated h
  intro meets
  rcases (resolve_eq_iff toLowerCase defaultBucket rules name name' different).mp meets with h | h
  · exact apart t t' h
  · exact apart t' t h

/-- A transfer of the sample installation by another user and path. -/
def transferOf (username virtualPath : String) : FileTransfer :=
  { sampleRow with
    username := username
    virtualPath := virtualPath
    filename := basename virtualPath }

/-- Two users with prefixes of their own, one of which extends the other over the name
of a user. -/
def teamRules : List RoutingRule :=
  [⟨some "alice", none, none, none, some "teams/red/"⟩,
    ⟨some "red", none, none, none, some "teams/"⟩]

/-- The user `red` stays out of the place of `alice` with every file that does not lie
in a directory of that name. -/
theorem users_apart_sample : Username "alice" ∧ Username "red" ∧
    resolve sampleEnv.toLowerCase "syncbridge" teamRules (transferOf "alice" "/a.txt") ≠
      resolve sampleEnv.toLowerCase "syncbridge" teamRules (transferOf "red" "/bob/a.txt") := by
  have alice : Username "alice" := ⟨by decide, by decide⟩
  have red : Username "red" := ⟨by decide, by decide⟩
  have longer : (keyPrefixOf <|
      ruleFor sampleEnv.toLowerCase teamRules (transferOf "alice" "/a.txt")).toList =
      "teams/".toList ++ "red/".toList := by decide +kernel
  have shorter : (keyPrefixOf <|
      ruleFor sampleEnv.toLowerCase teamRules (transferOf "red" "/bob/a.txt")).toList =
      "teams/".toList := by decide +kernel
  refine ⟨alice, red, (users_apart_iff _ _ _ _ _ alice red (by decide)).mpr ⟨?_, ?_⟩⟩
  · rintro ⟨-, d, hd, -⟩
    rw [longer, shorter, List.append_assoc] at hd
    exact absurd (List.append_eq_nil_iff.mp (List.append_right_eq_self.mp hd.symm)).1
      (by decide +kernel)
  · rintro ⟨-, d, hd, -, -, ⟨name, -⟩ | ⟨y, between, path⟩⟩
    · rw [longer, shorter] at hd
      rw [← List.append_cancel_left hd] at name
      exact absurd name (by decide +kernel)
    · rw [longer, shorter] at hd
      rw [← List.append_cancel_left hd] at between
      have rest : "red/".toList ++ y = "red/".toList ++ [] := between.symm
      obtain rfl : y = [] := List.append_cancel_left rest
      exact absurd path (by decide +kernel)

/-- One rule that puts a user's files under `incoming/`. -/
def incomingRule : RoutingRule := ⟨some "alice", none, none, none, some "incoming/"⟩

/-- The user `incoming` writes to the key of the user that the rule is about. -/
theorem users_not_apart : ¬ ∀ (toLowerCase : String → String) (defaultBucket : String)
    (rules : List RoutingRule) (t t' : FileTransfer), Username t.username → Username t'.username →
    t.username ≠ t'.username →
    resolve toLowerCase defaultBucket rules t ≠ resolve toLowerCase defaultBucket rules t' := by
  intro always
  have meets :
      resolve sampleEnv.toLowerCase "syncbridge" [incomingRule] (transferOf "alice" "/a.txt") =
      resolve sampleEnv.toLowerCase "syncbridge" [incomingRule]
        (transferOf "incoming" "/alice/a.txt") := by
    decide +kernel
  exact always _ _ _ _ _ ⟨by decide, by decide⟩ ⟨by decide, by decide⟩ (by decide) meets

end UserSeparation
