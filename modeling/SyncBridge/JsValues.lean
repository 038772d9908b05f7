import Mathlib.Data.Int.Log
import Mathlib.Data.Rat.Floor
import Mathlib.Data.List.Infix
import Mathlib.Data.List.TakeWhile
import Mathlib.Tactic.Linarith
import Mathlib.Tactic.NormNum

/-!
# Texts and numbers of JavaScript

White space and trimming, and the number a text stands for: a decimal literal with a
fraction and an exponent, a hexadecimal, octal or binary literal, or an infinity, rounded to
the nearest double. A double is the rational it stands for, so the two zeros are one.
-/

namespace JsValues

/-! ## Texts -/

/-- The white space that trimming and `\s` stand for. -/
def isSpace (c : Char) : Bool :=
  [0x09, 0x0A, 0x0B, 0x0C, 0x0D, 0x20, 0xA0, 0x1680, 0x2028, 0x2029, 0x202F, 0x205F, 0x3000,
    0xFEFF].contains c.toNat || (0x2000 ≤ c.toNat && c.toNat ≤ 0x200A)

def trimEnd (s : List Char) : List Char := (s.reverse.dropWhile isSpace).reverse

def trim (s : List Char) : List Char := trimEnd (s.dropWhile isSpace)

def includes (text word : List Char) : Bool := decide (word <:+: text)

/-- Lower case of the ASCII letters. Beyond them only the Kelvin sign and the dotted capital I
have an ASCII letter in their lower case, a `k` and an `i`. -/
def toLowerCase (s : List Char) : List Char := s.map Char.toLower

/-! ## Numbers -/

inductive JsNumber where
  | nan
  | infinite (negative : Bool)
  | finite (value : ℚ)
deriving DecidableEq

def roundHalfEven (q : ℚ) : ℤ :=
  let below := ⌊q⌋
  if q - below < 1 / 2 then below
  else if 1 / 2 < q - below then below + 1
  else if below % 2 = 0 then below else below + 1

/-- The nearest double: 53 bits of significand, and no unit below `2 ^ (-1074)`. -/
def toDouble (q : ℚ) : JsNumber :=
  let exponent := max (Int.log 2 |q| - 52) (-1074)
  let rounded := (roundHalfEven (q / 2 ^ exponent) : ℚ) * 2 ^ exponent
  if |rounded| < 2 ^ 1024 then .finite rounded else .infinite (decide (rounded < 0))

namespace JsNumber

def isFinite : JsNumber → Bool
  | finite _ => true
  | _ => false

def isInteger : JsNumber → Bool
  | finite q => q.den = 1
  | _ => false

/-- The product with a positive whole number. -/
def times : JsNumber → ℕ → JsNumber
  | nan, _ => nan
  | infinite negative, _ => infinite negative
  | finite q, n => toDouble (q * n)

/-- `n <= x`. -/
def atLeast (n : ℕ) : JsNumber → Bool
  | nan => false
  | infinite negative => !negative
  | finite q => (n : ℚ) ≤ q

/-- `x <= n`. -/
def atMost (n : ℕ) : JsNumber → Bool
  | nan => false
  | infinite negative => negative
  | finite q => q ≤ (n : ℚ)

end JsNumber

def decimalDigits (text : List Char) : Option ℕ :=
  if text ≠ [] ∧ text.all Char.isDigit then some (Nat.ofDigitChars 10 text 0) else none

def exponentPart : List Char → Option ℤ
  | [] => some 0
  | mark :: rest =>
    if mark = 'e' ∨ mark = 'E' then
      match rest with
      | '+' :: digits => (decimalDigits digits).map fun n => (n : ℤ)
      | '-' :: digits => (decimalDigits digits).map fun n => -(n : ℤ)
      | digits => (decimalDigits digits).map fun n => (n : ℤ)
    else none

/-- The digits after a decimal point, where there is one, and what follows. -/
def fractionPart : List Char → List Char × List Char
  | '.' :: rest => (rest.takeWhile Char.isDigit, rest.dropWhile Char.isDigit)
  | rest => ([], rest)

def unsignedDecimal (text : List Char) : Option ℚ :=
  let whole := text.takeWhile Char.isDigit
  let (fraction, rest) := fractionPart (text.dropWhile Char.isDigit)
  if whole = [] ∧ fraction = [] then none
  else (exponentPart rest).map fun e =>
    (Nat.ofDigitChars 10 (whole ++ fraction) 0 : ℚ) * 10 ^ (e - (fraction.length : ℤ))

def hexDigit (c : Char) : Option ℕ :=
  if c.isDigit then some (c.toNat - '0'.toNat)
  else if 'a' ≤ c ∧ c ≤ 'f' then some (c.toNat - 'a'.toNat + 10)
  else if 'A' ≤ c ∧ c ≤ 'F' then some (c.toNat - 'A'.toNat + 10)
  else none

/-- The number the digits write in the radix. -/
def digitsIn (radix : ℕ) (text : List Char) : Option ℕ := do
  let digits ← text.mapM hexDigit
  if digits ≠ [] ∧ digits.all (· < radix) then
    return digits.foldl (fun n d => n * radix + d) 0
  else none

def radixMark (c : Char) : Option ℕ :=
  if c = 'x' ∨ c = 'X' then some 16
  else if c = 'o' ∨ c = 'O' then some 8
  else if c = 'b' ∨ c = 'B' then some 2
  else none

def decimalLiteral (negative : Bool) (text : List Char) : JsNumber :=
  if text = "Infinity".toList then .infinite negative
  else match unsignedDecimal text with
    | none => .nan
    | some q => toDouble (if negative then -q else q)

/-- The radix of a literal that is not decimal, and its digits. -/
def otherRadix : List Char → Option (ℕ × List Char)
  | '0' :: mark :: digits => (radixMark mark).map (·, digits)
  | _ => none

/-- `Number(text)`. -/
def number (text : List Char) : JsNumber :=
  let text := trim text
  if text = [] then .finite 0
  else match otherRadix text with
    | some (radix, digits) => match digitsIn radix digits with
      | none => .nan
      | some n => toDouble n
    | none => match text with
      | '-' :: rest => decimalLiteral true rest
      | '+' :: rest => decimalLiteral false rest
      | text => decimalLiteral false text

/-- `String(x)`, for the whole numbers it writes out in full. -/
def numberToString : JsNumber → Option (List Char)
  | .finite q =>
    if q.den = 1 ∧ 0 ≤ q.num ∧ q.num < 10 ^ 21 then some (Nat.toDigits 10 q.num.toNat) else none
  | _ => none

/-! ## What trimming keeps -/

section Trimming
variable {word text : List Char}

/-- Dropping white space in front loses no word. -/
theorem infix_dropWhile (first : word.head?.any isSpace = false) (nonempty : word ≠ []) :
    word <:+: text.dropWhile isSpace ↔ word <:+: text := by
  induction text with
  | nil => rfl
  | cons c text ih =>
    rw [List.dropWhile_cons]
    split
    · next space =>
      rw [ih, List.infix_cons_iff]
      refine (or_iff_right fun starts => ?_).symm
      obtain ⟨d, word, rfl⟩ := List.exists_cons_of_ne_nil nonempty
      obtain ⟨rfl, -⟩ := List.cons_prefix_cons.mp starts
      rw [List.head?_cons, Option.any_some, space] at first
      cases first
    · rfl

theorem infix_trim (first : word.head?.any isSpace = false)
    (last : word.getLast?.any isSpace = false) (nonempty : word ≠ []) :
    word <:+: trim text ↔ word <:+: text := by
  rw [trim, trimEnd, ← List.reverse_infix, List.reverse_reverse,
    infix_dropWhile (by simpa using last)
    (by simpa using nonempty), List.reverse_infix, infix_dropWhile first nonempty]

theorem dropWhile_eq_self (solid : ∀ c ∈ text, isSpace c = false) :
    text.dropWhile isSpace = text := by
  cases text with
  | nil => rfl
  | cons c text => rw [List.dropWhile_cons_of_neg (by simp [solid c (by simp)])]

theorem trim_eq_self (solid : ∀ c ∈ text, isSpace c = false) : trim text = text := by
  have reversed : ∀ c ∈ text.reverse, isSpace c = false := by simpa using solid
  rw [trim, trimEnd, dropWhile_eq_self solid, dropWhile_eq_self reversed, List.reverse_reverse]

/-- No visible ASCII character is white space. -/
theorem isSpace_visible {c : Char} (low : 0x20 < c.toNat) (high : c.toNat < 0xA0) :
    isSpace c = false := by
  rw [isSpace, Bool.or_eq_false_iff]
  constructor
  · rw [List.contains_eq_mem, decide_eq_false_iff_not]
    simp only [List.mem_cons, List.not_mem_nil, or_false]
    omega
  · rw [Bool.and_eq_false_iff]
    left
    rw [decide_eq_false_iff_not]
    omega

theorem isSpace_toLower (c : Char) : isSpace c.toLower = isSpace c := by
  by_cases upper : c.val ≥ 'A'.val ∧ c.val ≤ 'Z'.val
  · have low : 65 ≤ c.toNat := upper.1
    have high : c.toNat ≤ 90 := upper.2
    have lowered : c.toLower.toNat = c.toNat + 32 := by
      have sum : c.toLower.val = c.val + 32 := congrArg Char.val (dif_pos upper)
      rw [Char.toNat, sum, UInt32.toNat_add]
      exact Nat.mod_eq_of_lt (by change c.toNat + 32 < 2 ^ 32; omega)
    rw [isSpace_visible (c := c) (by omega) (by omega)]
    exact isSpace_visible (by omega) (by omega)
  · have same : c.toLower = c := dif_neg upper
    rw [same]

theorem isSpace_of_mem_toLowerCase (solid : ∀ c ∈ toLowerCase text, isSpace c = false) :
    ∀ c ∈ text, isSpace c = false := by
  intro c member
  rw [← isSpace_toLower]
  exact solid _ (List.mem_map_of_mem member)

end Trimming

/-! ## Whole numbers -/

theorem roundHalfEven_intCast (n : ℤ) : roundHalfEven n = n := by
  simp [roundHalfEven]

/-- A whole number of at most 53 bits is a double. -/
theorem toDouble_natCast {n : ℕ} (small : n < 2 ^ 53) : toDouble n = .finite n := by
  have bits : Nat.log 2 n ≤ 52 := by
    have := Nat.log_lt_of_lt_pow' (by decide : 53 ≠ 0) small
    omega
  obtain ⟨k, hk⟩ : ∃ k : ℕ, max (Int.log 2 |(n : ℚ)| - 52) (-1074) = -(k : ℤ) := by
    rw [Nat.abs_cast, Int.log_natCast]
    exact ⟨(52 - Nat.log 2 n), by omega⟩
  have scaled : (n : ℚ) / 2 ^ (-(k : ℤ)) = ((n * 2 ^ k : ℕ) : ℤ) := by
    push_cast
    rw [zpow_neg, div_inv_eq_mul, zpow_natCast]
  have back : (((n * 2 ^ k : ℕ) : ℤ) : ℚ) * 2 ^ (-(k : ℤ)) = n := by
    push_cast
    rw [zpow_neg, zpow_natCast, mul_assoc, mul_inv_cancel₀ (by positivity), mul_one]
  have bounded : |(n : ℚ)| < 2 ^ 1024 := by
    rw [Nat.abs_cast]
    calc (n : ℚ) < 2 ^ 53 := by exact_mod_cast small
      _ ≤ 2 ^ 1024 := by gcongr <;> norm_num
  simp only [toDouble, hk, scaled, roundHalfEven_intCast, back]
  rw [if_pos bounded]

theorem numberToString_natCast {n : ℕ} (small : n < 10 ^ 21) :
    numberToString (.finite n) = some (Nat.toDigits 10 n) := by
  simp only [numberToString, Rat.den_natCast, Rat.num_natCast, Int.toNat_natCast]
  rw [if_pos ⟨trivial, by omega, by exact_mod_cast small⟩]

section Digits
variable {digits : List Char}

theorem isSpace_of_isDigit {c : Char} (digit : c.isDigit) : isSpace c = false := by
  obtain ⟨low, high⟩ : 48 ≤ c.toNat ∧ c.toNat ≤ 57 := Char.isDigit_iff_toNat.mp digit
  exact isSpace_visible (by omega) (by omega)

theorem radixMark_digit {c : Char} (digit : c.isDigit) : radixMark c = none := by
  have other : ∀ d : Char, d.isDigit = false → c ≠ d := by
    rintro d letter rfl
    rw [digit] at letter
    cases letter
  simp only [radixMark, other 'x' rfl, other 'X' rfl, other 'o' rfl, other 'O' rfl, other 'b' rfl,
    other 'B' rfl, or_self, if_false]

theorem otherRadix_digits (all : ∀ c ∈ digits, c.isDigit) : otherRadix digits = none := by
  fun_cases otherRadix digits
  · next mark digits =>
    rw [radixMark_digit (all mark (by simp)), Option.map_none]
  · rfl

theorem unsignedDecimal_digits (all : ∀ c ∈ digits, c.isDigit) (some : digits ≠ []) :
    unsignedDecimal digits = Option.some (Nat.ofDigitChars 10 digits 0 : ℚ) := by
  have whole : digits.takeWhile Char.isDigit = digits := List.takeWhile_eq_self_iff.mpr all
  have rest : digits.dropWhile Char.isDigit = [] := List.dropWhile_eq_nil_iff.mpr all
  simp [unsignedDecimal, whole, rest, fractionPart, exponentPart, some]

/-- Digits alone are read as the whole number they write. -/
theorem number_digits (all : ∀ c ∈ digits, c.isDigit) (some : digits ≠ [])  :
    number digits = toDouble (Nat.ofDigitChars 10 digits 0) := by
  have trimmed : trim digits = digits :=
    trim_eq_self fun c member => isSpace_of_isDigit (all c member)
  have literal : decimalLiteral false digits = toDouble (Nat.ofDigitChars 10 digits 0) := by
    have finite : digits ≠ "Infinity".toList := by
      rintro rfl
      exact absurd (all 'I' (by decide)) (by decide)
    rw [decimalLiteral, if_neg finite, unsignedDecimal_digits all some]
    rfl
  simp only [number, trimmed, if_neg some, otherRadix_digits all]
  split
  · exact absurd (all '-' (by simp)) (by decide)
  · exact absurd (all '+' (by simp)) (by decide)
  · exact literal

/-- A whole number written out and read again. -/
theorem number_toDigits {n : ℕ} (small : n < 2 ^ 53) : number (Nat.toDigits 10 n) = .finite n := by
  rw [number_digits (fun c member => Nat.isDigit_of_mem_toDigits (by decide) (by decide) member)
    Nat.toDigits_ne_nil, Nat.ofDigitChars_ten_toDigits, toDouble_natCast small]

end Digits

end JsValues
