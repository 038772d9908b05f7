import Mathlib.Algebra.Order.Ring.Int
import Mathlib.Init
import Mathlib.Data.List.Basic

/-!
# POSIX paths as strings

The lexical functions of the runtime's `path` module: `isAbsolute`, `resolve`,
`relative` and `extname`. Paths are character lists. `relative` works on
characters, not on segments: it looks for the last separator of the longest
common start. Symbolic links play no part.
-/

namespace PosixPaths

abbrev Path := List Char

def isAbsolute (p : Path) : Bool := p.head? == some '/'

/-- The parts between separators, empty ones included. -/
def segments : Path → List Path
  | [] => [[]]
  | c :: cs =>
    if c = '/' then [] :: segments cs
    else match segments cs with
      | [] => [[c]]
      | s :: ss => (c :: s) :: ss

/-- One segment against the segments kept so far, newest first. -/
def normalStep (kept : List Path) (s : Path) : List Path :=
  if s = [] ∨ s = ['.'] then kept
  else if s = ['.', '.'] then kept.tail
  else s :: kept

/-- Segments left after resolving dots, dot-dots and repeated separators. -/
def normalSegments (p : Path) : List Path := ((segments p).foldl normalStep []).reverse

def join : List Path → Path
  | [] => []
  | [s] => s
  | s :: ss => s ++ '/' :: join ss

/-- `resolve` of one argument; a relative one starts from the working directory. -/
def resolve (cwd p : Path) : Path :=
  '/' :: join (normalSegments (if isAbsolute p then p else cwd ++ '/' :: p))

/-- Length of the common start of two lists, and the last separator in it. -/
def commonStart : Path → Path → Nat → Option Nat → Nat × Option Nat
  | a :: as, b :: bs, i, sep =>
    if a = b then commonStart as bs (i + 1) (if a = '/' then some i else sep) else (i, sep)
  | _, _, i, sep => (i, sep)

/-- As many `..` as there are segments in the rest of the source path. -/
def climb (rest : Path) : Path :=
  join (List.replicate (rest.count '/' + 1) ['.', '.'])

/-- `relative` of two resolved paths. -/
def relativeResolved (src dst : Path) : Path :=
  if src = dst then []
  else
    let f := src.drop 1
    let t := dst.drop 1
    let (i, sep) := commonStart f t 0 none
    if i = min f.length t.length ∧ i < t.length ∧ (t.drop i).head? = some '/' then t.drop (i + 1)
    else if i = min f.length t.length ∧ i < t.length ∧ i = 0 then t
    else
      let sep :=
        if i = min f.length t.length ∧ ¬ i < t.length ∧ i < f.length then
          if (f.drop i).head? = some '/' then some i else if i = 0 then some 0 else sep
        else sep
      match sep with
      | none => climb f ++ dst
      | some k => climb (f.drop (k + 1)) ++ t.drop k

def relative (cwd src dst : Path) : Path :=
  if src = dst then [] else relativeResolved (resolve cwd src) (resolve cwd dst)

/-- The last non-empty segment. -/
def lastSegment (p : Path) : Option Path := ((segments p).filter (· ≠ [])).getLast?

/-- The extension with its dot; a leading dot does not start one. -/
def extname (p : Path) : Path :=
  let base := (lastSegment p).getD []
  let tail := base.reverse.takeWhile (· ≠ '.')
  if base = ['.', '.'] then []
  else if tail.length + 1 < base.length then '.' :: tail.reverse else []

/-! ## Normal forms -/

/-- A segment that resolving leaves as it is. -/
structure Plain (s : Path) : Prop where
  nonempty : s ≠ []
  unseparated : '/' ∉ s
  notDot : s ≠ ['.']
  notDotDot : s ≠ ['.', '.']

theorem segments_cons (p : Path) : ∃ s ss, segments p = s :: ss := by
  cases p with
  | nil => exact ⟨[], [], rfl⟩
  | cons c cs =>
    unfold segments
    split
    · exact ⟨_, _, rfl⟩
    · split <;> exact ⟨_, _, rfl⟩

theorem segments_unseparated (p : Path) : ∀ s ∈ segments p, '/' ∉ s := by
  induction p with
  | nil => simp [segments]
  | cons c cs ih =>
    unfold segments
    split
    · intro s hs
      rcases List.mem_cons.mp hs with rfl | hs
      · exact List.not_mem_nil
      · exact ih s hs
    · rename_i hc
      obtain ⟨s, ss, hcs⟩ := segments_cons cs
      rw [hcs] at ih ⊢
      intro s' hs'
      rcases List.mem_cons.mp hs' with rfl | hs'
      · intro hmem
        rcases List.mem_cons.mp hmem with h | h
        · exact hc h.symm
        · exact ih s List.mem_cons_self h
      · exact ih s' (List.mem_cons_of_mem s hs')

theorem segments_separator (p : Path) : segments ('/' :: p) = [] :: segments p := by
  simp [segments]

/-- A separator ends the segments before it. -/
theorem segments_append (p q : Path) : segments (p ++ '/' :: q) = segments p ++ segments q := by
  induction p with
  | nil => exact segments_separator q
  | cons c cs ih =>
    by_cases hc : c = '/'
    · rw [hc, List.cons_append, segments_separator, ih, segments_separator]
      rfl
    · obtain ⟨s, ss, hcs⟩ := segments_cons cs
      have first : segments (c :: cs) = (c :: s) :: ss := by simp [segments, hc, hcs]
      have whole : segments (c :: (cs ++ '/' :: q)) = (c :: s) :: (ss ++ segments q) := by
        simp [segments, hc, ih, hcs]
      rw [List.cons_append, whole, first]
      rfl

theorem segments_of_unseparated {s : Path} (h : '/' ∉ s) : segments s = [s] := by
  induction s with
  | nil => rfl
  | cons c cs ih =>
    simp only [List.mem_cons, not_or] at h
    unfold segments
    rw [if_neg (fun hc => h.1 hc.symm), ih h.2]

theorem join_cons {s : Path} {ss : List Path} (h : ss ≠ []) :
    join (s :: ss) = s ++ '/' :: join ss := by
  cases ss with
  | nil => exact absurd rfl h
  | cons s' ss' => rfl

/-- Segments are read back from their join. -/
theorem segments_join {ss : List Path} (h : ss ≠ []) (hs : ∀ s ∈ ss, '/' ∉ s) :
    segments (join ss) = ss := by
  induction ss with
  | nil => exact absurd rfl h
  | cons s ss ih =>
    have first := segments_of_unseparated (hs s List.mem_cons_self)
    by_cases hss : ss = []
    · subst hss
      exact first
    · rw [join_cons hss, segments_append, first, ih hss
        fun s' h' => hs s' (List.mem_cons_of_mem s h')]
      rfl

theorem join_append {ss ts : List Path} (hs : ss ≠ []) (ht : ts ≠ []) :
    join (ss ++ ts) = join ss ++ '/' :: join ts := by
  induction ss with
  | nil => exact absurd rfl hs
  | cons s ss ih =>
    by_cases hss : ss = []
    · subst hss
      exact join_cons ht
    · rw [List.cons_append, join_cons (by simp [hss]), ih hss, join_cons hss, List.append_assoc]
      rfl

theorem foldl_normalStep_plain (ss kept : List Path) (h : ∀ s ∈ ss, '/' ∉ s)
    (hk : ∀ s ∈ kept, Plain s) : ∀ s ∈ ss.foldl normalStep kept, Plain s := by
  induction ss generalizing kept with
  | nil => exact hk
  | cons s ss ih =>
    refine ih _ (fun s' h' => h s' (List.mem_cons_of_mem s h')) ?_
    unfold normalStep
    split
    · exact hk
    · rename_i named
      split
      · exact fun s' h' => hk s' (List.mem_of_mem_tail h')
      · rename_i up
        intro s' h'
        rcases List.mem_cons.mp h' with rfl | h'
        · exact ⟨fun h => named (.inl h), h s' List.mem_cons_self, fun h => named (.inr h), up⟩
        · exact hk s' h'

theorem normalSegments_plain (p : Path) : ∀ s ∈ normalSegments p, Plain s := by
  intro s hs
  refine foldl_normalStep_plain (segments p) [] (segments_unseparated p) ?_ s
    (List.mem_reverse.mp hs)
  exact fun s h => nomatch h

/-- Plain segments are kept in their order. -/
theorem foldl_normalStep_of_plain (ss kept : List Path) (h : ∀ s ∈ ss, Plain s) :
    ss.foldl normalStep kept = ss.reverse ++ kept := by
  induction ss generalizing kept with
  | nil => rfl
  | cons s ss ih =>
    have hs := h s List.mem_cons_self
    have step : normalStep kept s = s :: kept := by
      unfold normalStep
      rw [if_neg (by rintro (h | h); exacts [hs.nonempty h, hs.notDot h]), if_neg hs.notDotDot]
    rw [List.foldl_cons, step, ih _ fun s' h' => h s' (List.mem_cons_of_mem s h')]
    simp

theorem normalSegments_join {ss : List Path} (h : ∀ s ∈ ss, Plain s) :
    normalSegments ('/' :: join ss) = ss := by
  unfold normalSegments
  rw [segments_separator, List.foldl_cons]
  have skip : normalStep [] [] = [] := by simp [normalStep]
  rw [skip]
  by_cases hss : ss = []
  · subst hss
    rfl
  · rw [segments_join hss fun s hs => (h s hs).unseparated, foldl_normalStep_of_plain ss [] h]
    simp

/-- The argument of `resolve`, made absolute. -/
def fromCwd (cwd p : Path) : Path := if isAbsolute p then p else cwd ++ '/' :: p

/-- Resolving a normal form changes nothing. -/
theorem resolve_join (cwd : Path) {ss : List Path} (h : ∀ s ∈ ss, Plain s) :
    resolve cwd ('/' :: join ss) = '/' :: join ss := by
  have absolute : isAbsolute ('/' :: join ss) = true := rfl
  rw [resolve, if_pos absolute, normalSegments_join h]

/-! ## Relative paths -/

theorem commonStart_fst (p q : Path) (i : Nat) (sep : Option Nat) :
    (commonStart p q i sep).1 = i + p.length ↔ p <+: q := by
  induction p generalizing q i sep with
  | nil => simp [commonStart]
  | cons a as ih =>
    cases q with
    | nil => simp [commonStart]
    | cons b bs =>
      unfold commonStart
      split
      · rename_i hab
        subst hab
        rw [List.prefix_cons_inj, ← ih bs (i + 1) (if a = '/' then some i else sep),
          List.length_cons]
        omega
      · rename_i hab
        constructor
        · intro h
          simp only [List.length_cons] at h
          omega
        · intro h
          exact absurd (List.cons_prefix_cons.mp h).1 hab

/-- The characters of the whole source are common when it is the shorter one. -/
theorem commonStart_min {p q : Path} (h : (commonStart p q 0 none).1 = min p.length q.length)
    (longer : (commonStart p q 0 none).1 < q.length) : p <+: q := by
  refine (commonStart_fst p q 0 none).mp ?_
  omega

theorem dotdot_climb (rest more : Path) : ['.', '.'] <+: climb rest ++ more := by
  unfold climb
  rw [List.replicate_succ]
  by_cases h : List.replicate (rest.count '/') ['.', '.'] = []
  · rw [h]
    exact ⟨more, rfl⟩
  · rw [join_cons h, List.append_assoc]
    exact List.prefix_append _ _

section Below
variable {root below : List Path}

theorem join_head {ss : List Path} {s : Path} (h : ss.head? = some s) : s <+: join ss := by
  cases ss with
  | nil => cases h
  | cons s' ss =>
    cases h
    by_cases hss : ss = []
    · subst hss
      exact List.prefix_rfl
    · rw [join_cons hss]
      exact List.prefix_append _ _

/-- Two dots at the start of a path are two dots at the start of its first segment. -/
theorem dotdot_join {s : Path} {ss : List Path} (plain : Plain s) :
    ['.', '.'] <+: join (s :: ss) ↔ ['.', '.'] <+: s := by
  constructor
  · intro h
    by_cases hss : ss = []
    · subst hss
      exact h
    · rw [join_cons hss] at h
      match s, plain with
      | [], plain => exact absurd rfl plain.nonempty
      | [c], _ =>
        have := (List.cons_prefix_cons.mp (List.cons_prefix_cons.mp h).2).1
        exact absurd this (by decide)
      | c :: d :: rest, _ =>
        obtain ⟨hc, h⟩ := List.cons_prefix_cons.mp h
        obtain ⟨hd, -⟩ := List.cons_prefix_cons.mp h
        subst hc hd
        exact ⟨rest, rfl⟩
  · exact fun h => h.trans (join_head rfl)

theorem join_relative {s : Path} {ss : List Path} (plain : Plain s) :
    isAbsolute (join (s :: ss)) = false := by
  match s, plain with
  | [], plain => exact absurd rfl plain.nonempty
  | c :: rest, plain =>
    have hc : c ≠ '/' := fun h => plain.unseparated (h ▸ List.mem_cons_self)
    have head : (join ((c :: rest) :: ss)).head? = some c := by
      by_cases hss : ss = []
      · subst hss
        rfl
      · rw [join_cons hss]
        rfl
    simp [isAbsolute, head, hc]

theorem join_ne_nil {ss : List Path} (h : ss ≠ []) (plain : ∀ s ∈ ss, Plain s) : join ss ≠ [] := by
  cases ss with
  | nil => exact absurd rfl h
  | cons s ss =>
    intro hj
    have : s <+: join (s :: ss) := join_head rfl
    rw [hj] at this
    exact (plain s List.mem_cons_self).nonempty (List.prefix_nil.mp this)

/-- The way down from a directory to what lies below it. -/
theorem relativeResolved_below (plain : ∀ s ∈ root ++ below, Plain s) :
    relativeResolved ('/' :: join root) ('/' :: join (root ++ below)) = join below := by
  by_cases hb : below = []
  · subst hb
    simp [relativeResolved, join]
  have plainRoot : ∀ s ∈ root, Plain s := fun s hs => plain s (List.mem_append_left _ hs)
  have plainBelow : ∀ s ∈ below, Plain s := fun s hs => plain s (List.mem_append_right _ hs)
  have nonempty := join_ne_nil hb plainBelow
  by_cases hr : root = []
  · subst hr
    obtain ⟨s, ss, rfl⟩ := List.exists_cons_of_ne_nil hb
    have hne : '/' :: join [] ≠ '/' :: join ([] ++ s :: ss) :=
      fun h => nonempty (List.cons.inj h).2.symm
    have start : commonStart (join []) (join ([] ++ s :: ss)) 0 none = (0, none) := by
      simp [commonStart, join]
    have head : (join (s :: ss)).head? ≠ some '/' := by
      have relative : isAbsolute (join (s :: ss)) = false :=
        join_relative (plainBelow s List.mem_cons_self)
      simpa [isAbsolute] using relative
    have long : 0 < (join (s :: ss)).length := List.length_pos_iff.mpr nonempty
    unfold relativeResolved
    rw [if_neg hne]
    simp only [List.drop_succ_cons, List.drop_zero, start]
    rw [if_neg (by rintro ⟨-, -, h⟩; exact head h), if_pos ⟨by simp [join], long, trivial⟩]
    rfl
  · have split := join_append hr hb
    have hne : ('/' :: join root) ≠ '/' :: join (root ++ below) := by
      intro h
      have := congrArg List.length (List.cons.inj h).2
      rw [split, List.length_append, List.length_cons] at this
      omega
    have whole : (commonStart (join root) (join (root ++ below)) 0 none).1 =
        (join root).length := by
      have := (commonStart_fst (join root) (join (root ++ below)) 0 none).mpr
        (by rw [split]; exact List.prefix_append _ _)
      simpa using this
    have rest : (join (root ++ below)).drop (join root).length = '/' :: join below := by
      rw [split, List.drop_left]
    have after : (join (root ++ below)).drop ((join root).length + 1) = join below := by
      rw [← List.drop_drop, rest]
      rfl
    have longer : (join root).length < (join (root ++ below)).length := by
      rw [split, List.length_append, List.length_cons]
      omega
    unfold relativeResolved
    rw [if_neg hne]
    simp only [List.drop_succ_cons, List.drop_zero]
    generalize commonStart (join root) (join (root ++ below)) 0 none = found at whole
    obtain ⟨i, sep⟩ := found
    simp only at whole
    subst whole
    dsimp only
    rw [if_pos ⟨by omega, longer, by rw [rest]; rfl⟩]
    exact after

/-- A path that is not below the directory is reached by going up first. -/
theorem relativeResolved_outside {target : List Path} (plainRoot : ∀ s ∈ root, Plain s)
    (plainTarget : ∀ s ∈ target, Plain s) (outside : ¬ root <+: target) :
    ['.', '.'] <+: relativeResolved ('/' :: join root) ('/' :: join target) := by
  have hr : root ≠ [] := fun h => outside (h ▸ List.nil_prefix)
  unfold relativeResolved
  split
  · rename_i same
    have eq : root = target := by
      rw [← normalSegments_join plainRoot, ← normalSegments_join plainTarget, same]
    exact absurd (eq ▸ List.prefix_rfl) outside
  simp only [List.drop_succ_cons, List.drop_zero]
  have low := commonStart_min (p := join root) (q := join target)
  generalize commonStart (join root) (join target) 0 none = found at low
  obtain ⟨i, sep⟩ := found
  dsimp only at low ⊢
  split
  · rename_i h
    obtain ⟨h₁, h₂, h₃⟩ := h
    obtain ⟨rest, hrest⟩ := low h₁ h₂
    have hi : i = (join root).length := by
      have := congrArg List.length hrest
      rw [List.length_append] at this
      omega
    rw [hi, ← hrest, List.drop_left] at h₃
    have eq : join root ++ '/' :: rest.tail = join target := by
      rw [← hrest]
      congr 1
      exact List.cons_head?_tail h₃
    have ht : target ≠ [] := by
      rintro rfl
      simp [join] at eq
    have segs := congrArg segments eq
    rw [segments_append, segments_join hr fun s hs => (plainRoot s hs).unseparated,
      segments_join ht fun s hs => (plainTarget s hs).unseparated] at segs
    exact absurd ⟨_, segs⟩ outside
  split
  · rename_i h
    obtain ⟨h₁, h₂, h₃⟩ := h
    have : (join root).length = 0 := by omega
    exact absurd (List.length_eq_zero_iff.mp this) (join_ne_nil hr plainRoot)
  · split
    · exact dotdot_climb _ _
    · exact dotdot_climb _ _

end Below

end PosixPaths
