import Mathlib.Algebra.Order.Ring.Int
import Mathlib.Data.List.Basic

/-!
# Header values and the disposition grammar

The characters a header value may hold, and the grammar of a content disposition: a
type, then parameters whose values are tokens or quoted strings, with a backslash
quoting the character after it. Types and parameter names are read without case.
-/

namespace HttpHeaders

/-- Tab, the visible characters and the space, and the upper half of Latin-1. -/
def headerChar (c : Char) : Bool :=
  c = '\t' || (0x20 ≤ c.toNat && c.toNat ≤ 0x7e) || (0x80 ≤ c.toNat && c.toNat ≤ 0xff)

def checkInvalidHeaderChar (value : List Char) : Bool := value.any fun c => !headerChar c

def tokenChar (c : Char) : Bool := c.isAlphanum || "!#$%&'*+-.^_`|~".toList.contains c

/-- A token in lower case, and what follows it. -/
def token (s : List Char) : Option (List Char × List Char) :=
  if s.takeWhile tokenChar = [] then none
  else some ((s.takeWhile tokenChar).map Char.toLower, s.dropWhile tokenChar)

/-- The text of a quoted string after its opening quote, and what follows the closing one. -/
def quotedText : List Char → Option (List Char × List Char)
  | [] => none
  | '"' :: rest => some ([], rest)
  | '\\' :: [] => none
  | '\\' :: c :: rest =>
    if headerChar c then (quotedText rest).map fun (text, rest) => (c :: text, rest) else none
  | c :: rest =>
    if headerChar c then (quotedText rest).map fun (text, rest) => (c :: text, rest) else none

def skipSpace (s : List Char) : List Char := s.dropWhile fun c => c = ' ' || c = '\t'

def parameterValue (s : List Char) : Option (List Char × List Char) :=
  match s with
  | '"' :: rest => quotedText rest
  | s => (token s).map fun (_, rest) => (s.takeWhile tokenChar, rest)

/-- At most `n` parameters, each after its semicolon, to the end of the value. -/
def parameters : Nat → List Char → Option (List (List Char × List Char))
  | 0, _ => none
  | n + 1, s => match skipSpace s with
    | [] => some []
    | ';' :: s => do
      let (name, s) ← token (skipSpace s)
      match skipSpace s with
      | '=' :: s => do
        let (value, s) ← parameterValue (skipSpace s)
        let more ← parameters n s
        return (name, value) :: more
      | _ => none
    | _ => none

structure Disposition where
  kind : List Char
  parms : List (List Char × List Char)
  deriving DecidableEq, Repr

def parseDisposition (s : List Char) : Option Disposition := do
  let (kind, rest) ← token (skipSpace s)
  let parms ← parameters (rest.length + 1) rest
  return ⟨kind, parms⟩

theorem quotedText_escape (c : Char) (rest : List Char) :
    quotedText ('\\' :: c :: rest) =
      if headerChar c then (quotedText rest).map fun (text, rest) =>
        (c :: text, rest) else none := by
  rw [quotedText]

theorem quotedText_plain {c : Char} (rest : List Char) (quote : c ≠ '"') (escape : c ≠ '\\') :
    quotedText (c :: rest) =
      if headerChar c then (quotedText rest).map fun (text, rest) =>
        (c :: text, rest) else none := by
  rw [quotedText]
  · exact quote
  · rintro rfl
    exact absurd rfl escape
  · rintro _ _ rfl
    exact absurd rfl escape

/-- The text and what follows it are shorter than what was read. -/
theorem quotedText_length {s text rest : List Char} (h : quotedText s = some (text, rest)) :
    text.length + rest.length < s.length := by
  fun_induction quotedText s generalizing text rest with
  | case1 => cases h
  | case2 => cases h; simp
  | case3 => cases h
  | case4 c s hc ih =>
    obtain ⟨⟨t, r⟩, ht, he⟩ := Option.map_eq_some_iff.mp h
    cases he
    have := ih ht
    simp only [List.length_cons]
    omega
  | case5 => cases h
  | case6 c s _ _ hc _ ih =>
    obtain ⟨⟨t, r⟩, ht, he⟩ := Option.map_eq_some_iff.mp h
    cases he
    have := ih ht
    simp only [List.length_cons]
    omega
  | case7 => cases h

/-- Text without quotes and backslashes is read as it stands. -/
theorem quotedText_reads {s : List Char} (rest : List Char)
    (plain : ∀ c ∈ s, headerChar c = true ∧ c ≠ '"' ∧ c ≠ '\\') :
    quotedText (s ++ '"' :: rest) = some (s, rest) := by
  induction s with
  | nil => rfl
  | cons c s ih =>
    obtain ⟨valid, quote, escape⟩ := plain c List.mem_cons_self
    rw [List.cons_append, quotedText_plain _ quote escape, if_pos valid,
      ih fun d hd => plain d (List.mem_cons_of_mem c hd)]
    rfl

/-- Text that is read as it stands holds no backslash: an escape loses a character. -/
theorem quotedText_exact {s rest : List Char} (quotes : '"' ∉ s)
    (h : quotedText (s ++ ['"']) = some (s, rest)) :
    rest = [] ∧ ∀ c ∈ s, headerChar c = true ∧ c ≠ '\\' := by
  induction s with
  | nil =>
    cases h
    exact ⟨rfl, by simp⟩
  | cons c s ih =>
    have quote : c ≠ '"' := fun hc => quotes (hc ▸ List.mem_cons_self)
    by_cases escape : c = '\\'
    · subst escape
      exfalso
      cases s with
      | nil => cases h
      | cons d s =>
        simp only [List.cons_append, quotedText_escape] at h
        split at h
        · obtain ⟨⟨t, r⟩, ht, he⟩ := Option.map_eq_some_iff.mp h
          have shorter := quotedText_length ht
          simp only [Prod.mk.injEq, List.cons.injEq] at he
          obtain ⟨⟨-, rfl⟩, -⟩ := he
          simp only [List.length_cons, List.length_append, List.length_nil] at shorter
          omega
        · cases h
    · rw [List.cons_append, quotedText_plain _ quote escape] at h
      split at h
      · next valid =>
        obtain ⟨⟨t, r⟩, ht, he⟩ := Option.map_eq_some_iff.mp h
        simp only [Prod.mk.injEq, List.cons.injEq, true_and] at he
        obtain ⟨rfl, rfl⟩ := he
        obtain ⟨done, rest⟩ := ih (fun hm => quotes (List.mem_cons_of_mem c hm)) ht
        refine ⟨done, fun d hd => ?_⟩
        rcases List.mem_cons.mp hd with rfl | hd
        · exact ⟨valid, escape⟩
        · exact rest d hd
      · cases h

end HttpHeaders
