import SyncBridge.JsValues
import Mathlib.Algebra.Order.Ring.Int

/-!
# JSON texts

A JSON value, the text `JSON.stringify` writes for it, and the grammar by which
`JSON.parse` reads a text. Numbers are kept as the literals they are written with. A
lone surrogate escape is refused, since no text of scalar values stands for it.

The reader takes fuel; more fuel than the text has characters is always enough for a
text that was written here.
-/

namespace JsonText

open JsValues

/-! ## Numbers -/

/-- What follows at least one digit. -/
def afterDigits : List Char → Option (List Char)
  | [] => none
  | c :: cs => if c.isDigit then some (cs.dropWhile Char.isDigit) else none

/-- A whole part starts with a zero only when it is zero. -/
def afterWhole : List Char → Option (List Char)
  | [] => none
  | c :: cs => if c = '0' then some cs else afterDigits (c :: cs)

def afterFraction : List Char → Option (List Char)
  | [] => some []
  | c :: cs => if c = '.' then afterDigits cs else some (c :: cs)

def afterSign : List Char → List Char
  | [] => []
  | c :: cs => if c = '+' ∨ c = '-' then cs else c :: cs

def afterExponent : List Char → Option (List Char)
  | [] => some []
  | c :: cs => if c = 'e' ∨ c = 'E' then afterDigits (afterSign cs) else some (c :: cs)

def afterMinus : List Char → List Char
  | [] => []
  | c :: cs => if c = '-' then cs else c :: cs

/-- The text is a number literal and nothing else. -/
def isNumber (text : List Char) : Bool :=
  ((afterWhole (afterMinus text)).bind afterFraction).bind afterExponent == some []

def numberChar (c : Char) : Bool := c.isDigit || ['+', '-', '.', 'e', 'E'].contains c

structure NumberLiteral where
  text : List Char
  number : isNumber text = true
  solid : text.all numberChar = true
  deriving DecidableEq

/-! ## Values and their texts -/

inductive Json where
  | null
  | bool (b : Bool)
  | number (literal : NumberLiteral)
  | string (s : String)
  | array (items : List Json)
  | object (members : List (String × Json))

/-- One character inside a quoted string. -/
def escape (c : Char) : List Char :=
  if c = '"' then ['\\', '"']
  else if c = '\\' then ['\\', '\\']
  else if c.toNat = 0x08 then ['\\', 'b']
  else if c.toNat = 0x09 then ['\\', 't']
  else if c.toNat = 0x0a then ['\\', 'n']
  else if c.toNat = 0x0c then ['\\', 'f']
  else if c.toNat = 0x0d then ['\\', 'r']
  else if c.toNat < 0x20 then
    ['\\', 'u', '0', '0', Nat.digitChar (c.toNat / 16), Nat.digitChar (c.toNat % 16)]
  else [c]

def quote (s : String) : List Char := '"' :: (s.toList.flatMap escape ++ ['"'])

mutual
def write : Json → List Char
  | .null => "null".toList
  | .bool true => "true".toList
  | .bool false => "false".toList
  | .number literal => literal.text
  | .string s => quote s
  | .array items => '[' :: writeItems items
  | .object members => '\x7b' :: writeMembers members

/-- The items and the closing bracket. -/
def writeItems : List Json → List Char
  | [] => [']']
  | v :: vs => write v ++ writeMoreItems vs

def writeMoreItems : List Json → List Char
  | [] => [']']
  | v :: vs => ',' :: (write v ++ writeMoreItems vs)

def writeMembers : List (String × Json) → List Char
  | [] => ['\x7d']
  | (key, v) :: ms => quote key ++ ':' :: (write v ++ writeMoreMembers ms)

def writeMoreMembers : List (String × Json) → List Char
  | [] => ['\x7d']
  | (key, v) :: ms => ',' :: (quote key ++ ':' :: (write v ++ writeMoreMembers ms))
end

/-- `JSON.stringify` of a value. -/
def stringify (v : Json) : String := String.ofList (write v)

/-! ## Reading -/

def isBlank (c : Char) : Bool := [' ', '\t', '\n', '\r'].contains c

def skipBlanks (text : List Char) : List Char := text.dropWhile isBlank

/-- The character of a one-letter escape. -/
def unescape (c : Char) : Option Char :=
  if c = '"' ∨ c = '\\' ∨ c = '/' then some c
  else if c = 'b' then some '\x08'
  else if c = 't' then some '\t'
  else if c = 'n' then some '\n'
  else if c = 'f' then some '\x0c'
  else if c = 'r' then some '\r'
  else none

/-- The code unit written with four hexadecimal digits, and what follows them. -/
def codeUnit : List Char → Option (ℕ × List Char)
  | a :: b :: c :: d :: rest => do
    let digits ← [a, b, c, d].mapM hexDigit
    return (digits.foldl (fun n d => n * 16 + d) 0, rest)
  | _ => none

/-- The second half of a surrogate pair, after its first half `high`. -/
def lowSurrogate (high : ℕ) : List Char → Option (Char × List Char)
  | '\\' :: 'u' :: rest => do
    let (low, rest) ← codeUnit rest
    if 0xdc00 ≤ low ∧ low < 0xe000 then
      return (Char.ofNat (0x10000 + (high - 0xd800) * 0x400 + (low - 0xdc00)), rest)
    else none
  | _ => none

/-- The character of an escape, after its backslash. -/
def readEscape : List Char → Option (Char × List Char)
  | [] => none
  | c :: rest =>
    if c = 'u' then do
      let (unit, rest) ← codeUnit rest
      if 0xd800 ≤ unit ∧ unit < 0xdc00 then lowSurrogate unit rest
      else if 0xdc00 ≤ unit ∧ unit < 0xe000 then none
      else return (Char.ofNat unit, rest)
    else (unescape c).map fun d => (d, rest)

/-- The characters up to the closing quote, and what follows it. -/
def readString : ℕ → List Char → Option (List Char × List Char)
  | 0, _ => none
  | _ + 1, [] => none
  | fuel + 1, c :: rest =>
    if c = '"' then some ([], rest)
    else if c = '\\' then do
      let (d, rest) ← readEscape rest
      let (s, rest) ← readString fuel rest
      return (d :: s, rest)
    else if c.toNat < 0x20 then none
    else do
      let (s, rest) ← readString fuel rest
      return (c :: s, rest)

/-- A number takes all characters that can stand in one. -/
def readNumber (text : List Char) : Option (Json × List Char) :=
  let literal := text.takeWhile numberChar
  if h : isNumber literal = true ∧ literal.all numberChar = true then
    some (.number ⟨literal, h.1, h.2⟩, text.dropWhile numberChar)
  else none

/-- The rest of the text after a word that must stand here. -/
def readWord (word : List Char) (v : Json) (text : List Char) : Option (Json × List Char) :=
  if word.isPrefixOf text then some (v, text.drop word.length) else none

mutual
def readValue : ℕ → List Char → Option (Json × List Char)
  | 0, _ => none
  | fuel + 1, text => match skipBlanks text with
    | [] => none
    | c :: rest =>
      if c = '"' then do
        let (s, rest) ← readString fuel rest
        return (.string (String.ofList s), rest)
      else if c = '[' then do
        let (items, rest) ← readItems fuel rest
        return (.array items, rest)
      else if c = '\x7b' then do
        let (members, rest) ← readMembers fuel rest
        return (.object members, rest)
      else if c = 'n' then readWord "null".toList .null (c :: rest)
      else if c = 't' then readWord "true".toList (.bool true) (c :: rest)
      else if c = 'f' then readWord "false".toList (.bool false) (c :: rest)
      else readNumber (c :: rest)

/-- The items after an opening bracket. -/
def readItems : ℕ → List Char → Option (List Json × List Char)
  | 0, _ => none
  | fuel + 1, text =>
    if (skipBlanks text).head? = some ']' then some ([], (skipBlanks text).tail)
    else do
      let (v, rest) ← readValue fuel text
      let (vs, rest) ← readMoreItems fuel rest
      return (v :: vs, rest)

def readMoreItems : ℕ → List Char → Option (List Json × List Char)
  | 0, _ => none
  | fuel + 1, text =>
    if (skipBlanks text).head? = some ']' then some ([], (skipBlanks text).tail)
    else if (skipBlanks text).head? = some ',' then do
      let (v, rest) ← readValue fuel (skipBlanks text).tail
      let (vs, rest) ← readMoreItems fuel rest
      return (v :: vs, rest)
    else none

/-- One member: a quoted key, a colon and a value. -/
def readMember : ℕ → List Char → Option ((String × Json) × List Char)
  | 0, _ => none
  | fuel + 1, text =>
    if (skipBlanks text).head? = some '"' then do
      let (key, rest) ← readString fuel (skipBlanks text).tail
      if (skipBlanks rest).head? = some ':' then do
        let (v, rest) ← readValue fuel (skipBlanks rest).tail
        return ((String.ofList key, v), rest)
      else none
    else none

def readMembers : ℕ → List Char → Option (List (String × Json) × List Char)
  | 0, _ => none
  | fuel + 1, text =>
    if (skipBlanks text).head? = some '\x7d' then some ([], (skipBlanks text).tail)
    else do
      let (m, rest) ← readMember fuel text
      let (ms, rest) ← readMoreMembers fuel rest
      return (m :: ms, rest)

def readMoreMembers : ℕ → List Char → Option (List (String × Json) × List Char)
  | 0, _ => none
  | fuel + 1, text =>
    if (skipBlanks text).head? = some '\x7d' then some ([], (skipBlanks text).tail)
    else if (skipBlanks text).head? = some ',' then do
      let (m, rest) ← readMember fuel (skipBlanks text).tail
      let (ms, rest) ← readMoreMembers fuel rest
      return (m :: ms, rest)
    else none
end

/-- `JSON.parse` of a text: one value and nothing but blanks around it. -/
def parse (text : String) : Option Json :=
  match readValue (text.toList.length + 1) text.toList with
  | none => none
  | some (v, rest) => if skipBlanks rest = [] then some v else none

/-! ## What was written is read back -/

section Strings
variable (rest : List Char)

theorem hexDigit_digitChar : ∀ d < 16, hexDigit (Nat.digitChar d) = some d := by decide

theorem codeUnit_low {n : ℕ} (low : n < 0x20) :
    codeUnit ('0' :: '0' :: Nat.digitChar (n / 16) :: Nat.digitChar (n % 16) :: rest) =
      some (n, rest) := by
  have high := hexDigit_digitChar (n / 16) (by omega)
  have units := hexDigit_digitChar (n % 16) (by omega)
  have zero : hexDigit '0' = some 0 := by decide
  simp only [codeUnit, List.mapM_cons, List.mapM_nil, zero, high, units, Option.pure_def,
    Option.bind_eq_bind,
    Option.bind_some, List.foldl_cons, List.foldl_nil]
  congr 2
  omega

/-- One escaped character costs one unit of fuel. -/
theorem readString_escape (fuel : ℕ) (c : Char) :
    readString (fuel + 1) (escape c ++ rest) = (readString fuel rest).map
      fun p => (c :: p.1, p.2) := by
  have named (d : Char) (h : c.toNat = d.toNat) : c = d := Char.toNat_inj.mp h
  have mapped (d : Char) : (readString fuel rest).bind (fun p => some (d :: p.1, p.2)) =
      (readString fuel rest).map fun p => (d :: p.1, p.2) := by
    cases readString fuel rest <;> rfl
  unfold escape
  split_ifs with h₁ h₂ h₃ h₄ h₅ h₆ h₇ h₈
  · subst h₁
    exact mapped '"'
  · subst h₂
    exact mapped '\\'
  · obtain rfl := named '\x08' h₃
    exact mapped '\x08'
  · obtain rfl := named '\t' h₄
    exact mapped '\t'
  · obtain rfl := named '\n' h₅
    exact mapped '\n'
  · obtain rfl := named '\x0c' h₆
    exact mapped '\x0c'
  · obtain rfl := named '\r' h₇
    exact mapped '\r'
  · have unit := codeUnit_low rest h₈
    have scalar : ¬ (0xd800 ≤ c.toNat ∧ c.toNat < 0xdc00) ∧
        ¬ (0xdc00 ≤ c.toNat ∧ c.toNat < 0xe000) := by omega
    have escaped : readEscape ('u' :: '0' :: '0' :: Nat.digitChar (c.toNat / 16) ::
        Nat.digitChar (c.toNat % 16) :: rest) = some (c, rest) := by
      simp only [readEscape, if_true, unit, Option.bind_eq_bind, Option.bind_some, if_neg scalar.1,
        if_neg scalar.2, Char.ofNat_toNat, Option.pure_def]
    rw [← mapped c]
    simp only [List.cons_append, List.nil_append, readString, if_true, escaped, Option.bind_eq_bind,
      Option.bind_some, Option.pure_def]
    rfl
  · rw [← mapped c]
    simp only [List.cons_append, List.nil_append, readString, if_neg h₁, if_neg h₂, if_neg h₈]
    rfl

theorem readString_written (s : List Char) (fuel : ℕ) (enough : s.length < fuel) :
    readString fuel (s.flatMap escape ++ '"' :: rest) = some (s, rest) := by
  induction s generalizing fuel with
  | nil =>
    obtain ⟨fuel, rfl⟩ : ∃ n, fuel = n + 1 := ⟨fuel - 1, by simp at enough; omega⟩
    rfl
  | cons c s ih =>
    obtain ⟨fuel, rfl⟩ : ∃ n, fuel = n + 1 := ⟨fuel - 1, by simp at enough; omega⟩
    rw [List.flatMap_cons, List.append_assoc, readString_escape, ih fuel (by simp at enough; omega)]
    rfl

theorem escape_pos (c : Char) : 1 ≤ (escape c).length := by
  unfold escape
  split_ifs <;> simp

theorem length_quote (s : String) : s.toList.length + 2 ≤ (quote s).length := by
  have grows (cs : List Char) : cs.length ≤ (cs.flatMap escape).length := by
    induction cs with
    | nil => exact Nat.le_refl _
    | cons c cs ih =>
      have one := escape_pos c
      rw [List.flatMap_cons, List.length_append, List.length_cons]
      omega
  have body := grows s.toList
  rw [quote, List.length_cons, List.length_append, List.length_singleton]
  omega

/-- A quoted string is read back, given more fuel than its text is long. -/
theorem readString_quote (s : String) (fuel : ℕ) (enough : (quote s).length ≤ fuel) :
    readString fuel ((quote s).tail ++ rest) = some (s.toList, rest) := by
  have long := length_quote s
  have written := readString_written rest s.toList fuel (by omega)
  simpa [quote] using written

end Strings

/-- The text cannot continue a number. -/
def Stops (rest : List Char) : Prop := rest.head?.any numberChar = false

theorem stops_cons {c : Char} {cs : List Char} (h : numberChar c = false) : Stops (c :: cs) := by
  simpa [Stops] using h

theorem readNumber_written (literal : NumberLiteral) {rest : List Char} (stops : Stops rest) :
    readNumber (literal.text ++ rest) = some (.number literal, rest) := by
  have solid : ∀ c ∈ literal.text, numberChar c = true := by simpa using literal.solid
  have ends : rest.takeWhile numberChar = [] ∧ rest.dropWhile numberChar = rest := by
    cases rest with
    | nil => exact ⟨rfl, rfl⟩
    | cons c cs =>
      have other : numberChar c = false := by simpa [Stops] using stops
      simp [other]
  have taken : (literal.text ++ rest).takeWhile numberChar = literal.text := by
    rw [List.takeWhile_append_of_pos solid, ends.1, List.append_nil]
  have left : (literal.text ++ rest).dropWhile numberChar = rest := by
    rw [List.dropWhile_append_of_pos solid, ends.2]
  simp only [readNumber, taken, left]
  rw [dif_pos ⟨literal.number, literal.solid⟩]

/-- The first character of a literal is a digit or a sign. -/
theorem literal_head (literal : NumberLiteral) :
    ∃ c cs, literal.text = c :: cs ∧ numberChar c = true := by
  obtain ⟨text, number, solid⟩ := literal
  cases text with
  | nil => cases number
  | cons c cs => exact ⟨c, cs, rfl, by simp at solid; exact solid.1⟩

theorem numberChar_ne {c : Char} (h : numberChar c = true) :
    c ≠ '"' ∧ c ≠ '[' ∧ c ≠ '\x7b' ∧ c ≠ 'n' ∧ c ≠ 't' ∧ c ≠ 'f' ∧ isBlank c = false := by
  refine ⟨?_, ?_, ?_, ?_, ?_, ?_, ?_⟩
  iterate 6
    rintro rfl
    exact absurd h (by decide)
  rw [isBlank, List.contains_eq_mem, decide_eq_false_iff_not]
  intro blank
  simp only [List.mem_cons, List.not_mem_nil, or_false] at blank
  rcases blank with rfl | rfl | rfl | rfl <;> exact absurd h (by decide)

theorem skipBlanks_cons {c : Char} {cs : List Char} (h : isBlank c = false) :
    skipBlanks (c :: cs) = c :: cs := by
  rw [skipBlanks, List.dropWhile_cons_of_neg (by simp [h])]

/-- A written value starts with a character that is no blank and closes nothing. -/
theorem write_head (v : Json) :
    ∃ c cs, write v = c :: cs ∧ isBlank c = false ∧ c ≠ ']' := by
  cases v with
  | null => exact ⟨_, _, rfl, by decide, by decide⟩
  | bool b => cases b <;> exact ⟨_, _, rfl, by decide, by decide⟩
  | number literal =>
    obtain ⟨c, cs, text, digit⟩ := literal_head literal
    refine ⟨c, cs, text, (numberChar_ne digit).2.2.2.2.2.2, ?_⟩
    rintro rfl
    exact absurd digit (by decide)
  | string s => exact ⟨_, _, rfl, by decide, by decide⟩
  | array items => exact ⟨_, _, rfl, by decide, by decide⟩
  | object members => exact ⟨_, _, rfl, by decide, by decide⟩

theorem writeMoreItems_stops (vs : List Json) (rest : List Char) :
    Stops (writeMoreItems vs ++ rest) := by
  cases vs <;> exact stops_cons (by decide)

theorem writeMoreMembers_stops (ms : List (String × Json)) (rest : List Char) :
    Stops (writeMoreMembers ms ++ rest) := by
  cases ms <;> exact stops_cons (by decide)

/-- A member is read back when its value is. -/
theorem readMember_written (key : String) {v : Json} {fuel : ℕ} {rest : List Char}
    (enough : (quote key).length ≤ fuel)
    (value : readValue fuel (write v ++ rest) = some (v, rest)) :
    readMember (fuel + 1) (quote key ++ ':' :: (write v ++ rest)) = some ((key, v), rest) := by
  have name := readString_quote (':' :: (write v ++ rest)) key fuel enough
  have opened : skipBlanks (quote key ++ ':' :: (write v ++ rest)) =
      '"' :: ((quote key).tail ++ ':' :: (write v ++ rest)) := rfl
  have colon (cs : List Char) : skipBlanks (':' :: cs) = ':' :: cs := rfl
  simp only [readMember, opened, List.head?_cons, List.tail_cons, if_true, name, colon, value,
    String.ofList_toList, Option.bind_eq_bind, Option.bind_some, Option.pure_def]

mutual
theorem readValue_written (v : Json) (fuel : ℕ) (enough : (write v).length < fuel)
    (rest : List Char) (stops : Stops rest) :
    readValue fuel (write v ++ rest) = some (v, rest) := by
  obtain ⟨fuel, rfl⟩ : ∃ n, fuel = n + 1 := ⟨fuel - 1, by omega⟩
  match v with
  | .null => rfl
  | .bool true => rfl
  | .bool false => rfl
  | .number literal =>
    obtain ⟨c, cs, text, digit⟩ := literal_head literal
    obtain ⟨h₁, h₂, h₃, h₄, h₅, h₆, h₇⟩ := numberChar_ne digit
    have read := readNumber_written literal stops
    rw [text, List.cons_append] at read
    simp only [write, text, List.cons_append, readValue, skipBlanks_cons h₇, if_neg h₁,
      if_neg h₂, if_neg h₃,
      if_neg h₄, if_neg h₅, if_neg h₆, read]
  | .string s =>
    rw [write] at enough
    have read := readString_quote rest s fuel (by omega)
    have opened : skipBlanks (quote s ++ rest) = '"' :: ((quote s).tail ++ rest) := rfl
    simp only [write, readValue, opened, if_true, read, String.ofList_toList, Option.bind_eq_bind,
      Option.bind_some, Option.pure_def]
  | .array items =>
    rw [write, List.length_cons] at enough
    have read := readItems_written items fuel (by omega) rest
    have opened : skipBlanks ('[' :: (writeItems items ++ rest)) = '[' ::
        (writeItems items ++ rest) := rfl
    simp only [write, List.cons_append, readValue, opened]
    rw [if_neg (by decide), if_pos trivial, read]
    rfl
  | .object members =>
    rw [write, List.length_cons] at enough
    have read := readMembers_written members fuel (by omega) rest
    have opened : skipBlanks ('\x7b' :: (writeMembers members ++ rest)) =
        '\x7b' :: (writeMembers members ++ rest) := rfl
    simp only [write, List.cons_append, readValue, opened]
    rw [if_neg (by decide), if_neg (by decide), if_pos trivial, read]
    rfl

theorem readItems_written (items : List Json) (fuel : ℕ) (enough : (writeItems items).length < fuel)
    (rest : List Char) : readItems fuel (writeItems items ++ rest) = some (items, rest) := by
  match items with
  | [] =>
    rw [writeItems, List.length_singleton] at enough
    obtain ⟨fuel, rfl⟩ : ∃ n, fuel = n + 1 := ⟨fuel - 1, by omega⟩
    rfl
  | v :: vs =>
    obtain ⟨c, cs, text, solid, other⟩ := write_head v
    have long : 1 ≤ (writeMoreItems vs).length := by cases vs <;> simp [writeMoreItems]
    rw [writeItems, List.length_append] at enough
    have some : 1 ≤ (write v).length := by rw [text, List.length_cons]; omega
    obtain ⟨fuel, rfl⟩ : ∃ n, fuel = n + 1 := ⟨fuel - 1, by omega⟩
    have first := readValue_written v fuel (by omega) _ (writeMoreItems_stops vs rest)
    have more := readMoreItems_written vs fuel (by omega) rest
    have shown : skipBlanks (write v ++ (writeMoreItems vs ++ rest)) = write v ++
        (writeMoreItems vs ++ rest) := by
      rw [text, List.cons_append, skipBlanks_cons solid]
    have open_ : (write v ++ (writeMoreItems vs ++ rest)).head? ≠ .some ']' := by
      rw [text]
      simpa using other
    rw [writeItems, List.append_assoc, readItems, shown, if_neg open_, first]
    simp only [Option.bind_eq_bind, Option.bind_some, more, Option.pure_def]

theorem readMoreItems_written (vs : List Json) (fuel : ℕ)
    (enough : (writeMoreItems vs).length < fuel) (rest : List Char) :
    readMoreItems fuel (writeMoreItems vs ++ rest) = some (vs, rest) := by
  match vs with
  | [] =>
    rw [writeMoreItems, List.length_singleton] at enough
    obtain ⟨fuel, rfl⟩ : ∃ n, fuel = n + 1 := ⟨fuel - 1, by omega⟩
    rfl
  | v :: vs =>
    have long : 1 ≤ (writeMoreItems vs).length := by cases vs <;> simp [writeMoreItems]
    rw [writeMoreItems, List.length_cons, List.length_append] at enough
    obtain ⟨fuel, rfl⟩ : ∃ n, fuel = n + 1 := ⟨fuel - 1, by omega⟩
    have first := readValue_written v fuel (by omega) _ (writeMoreItems_stops vs rest)
    have more := readMoreItems_written vs fuel (by omega) rest
    have comma (cs : List Char) : skipBlanks (',' :: cs) = ',' :: cs := rfl
    simp only [writeMoreItems, List.cons_append, List.append_assoc, readMoreItems, comma,
      List.head?_cons,
      List.tail_cons, Option.some.injEq, Char.reduceEq, if_false, if_true, first, more,
      Option.bind_eq_bind,
      Option.bind_some, Option.pure_def]

theorem readMembers_written (members : List (String × Json)) (fuel : ℕ)
    (enough : (writeMembers members).length < fuel) (rest : List Char) :
    readMembers fuel (writeMembers members ++ rest) = some (members, rest) := by
  match members with
  | [] =>
    rw [writeMembers, List.length_singleton] at enough
    obtain ⟨fuel, rfl⟩ : ∃ n, fuel = n + 1 := ⟨fuel - 1, by omega⟩
    rfl
  | (key, v) :: ms =>
    have long : 1 ≤ (writeMoreMembers ms).length := by
      cases ms with
      | nil => simp [writeMoreMembers]
      | cons m ms => simp [writeMoreMembers]
    rw [writeMembers, List.length_append, List.length_cons, List.length_append] at enough
    obtain ⟨fuel, rfl⟩ : ∃ n, fuel = n + 2 := ⟨fuel - 2, by omega⟩
    have value := readValue_written v fuel (by omega) _ (writeMoreMembers_stops ms rest)
    have first := readMember_written key (by omega) value
    have more := readMoreMembers_written ms (fuel + 1) (by omega) rest
    have opened (cs : List Char) : skipBlanks (quote key ++ cs) = quote key ++ cs := rfl
    have head (cs : List Char) : (quote key ++ cs).head? = some '"' := rfl
    simp only [writeMembers, List.append_assoc, List.cons_append, readMembers, opened, head,
      Option.some.injEq, Char.reduceEq, if_false, first, more, Option.bind_eq_bind,
      Option.bind_some,
      Option.pure_def]

theorem readMoreMembers_written (ms : List (String × Json)) (fuel : ℕ)
    (enough : (writeMoreMembers ms).length < fuel) (rest : List Char) :
    readMoreMembers fuel (writeMoreMembers ms ++ rest) = some (ms, rest) := by
  match ms with
  | [] =>
    rw [writeMoreMembers, List.length_singleton] at enough
    obtain ⟨fuel, rfl⟩ : ∃ n, fuel = n + 1 := ⟨fuel - 1, by omega⟩
    rfl
  | (key, v) :: ms =>
    have long : 1 ≤ (writeMoreMembers ms).length := by
      cases ms with
      | nil => simp [writeMoreMembers]
      | cons m ms => simp [writeMoreMembers]
    rw [writeMoreMembers, List.length_cons, List.length_append, List.length_cons,
      List.length_append] at enough
    obtain ⟨fuel, rfl⟩ : ∃ n, fuel = n + 2 := ⟨fuel - 2, by omega⟩
    have value := readValue_written v fuel (by omega) _ (writeMoreMembers_stops ms rest)
    have first := readMember_written key (by omega) value
    have more := readMoreMembers_written ms (fuel + 1) (by omega) rest
    have comma (cs : List Char) : skipBlanks (',' :: cs) = ',' :: cs := rfl
    rw [writeMoreMembers, List.cons_append, List.append_assoc, List.cons_append, List.append_assoc,
      readMoreMembers, comma]
    simp only [List.head?_cons, List.tail_cons, Option.some.injEq, Char.reduceEq, if_false,
      if_true, first, more,
      Option.bind_eq_bind, Option.bind_some, Option.pure_def]
end

/-- The round trip. -/
theorem parse_stringify (v : Json) : parse (stringify v) = some v := by
  have read := readValue_written v ((write v).length + 1) (by omega) [] rfl
  rw [List.append_nil] at read
  rw [parse, stringify, String.toList_ofList, read]
  rfl

/-! ## Whole numbers -/

theorem toDigits_leading {n : ℕ} (positive : 0 < n) : (Nat.toDigits 10 n).head? ≠ some '0' := by
  induction n using Nat.strong_induction_on with
  | _ n ih =>
    by_cases small : n < 10
    · have digit : ∀ d < 10, 0 < d → Nat.digitChar d ≠ '0' := by decide
      rw [Nat.toDigits_of_lt_base small, List.head?_cons]
      exact fun h => digit n small positive (Option.some.inj h)
    · have rest := ih (n / 10) (by omega) (by omega)
      rw [Nat.toDigits_of_base_le (by decide) (by omega),
        List.head?_append_of_ne_nil _ Nat.toDigits_ne_nil]
      exact rest

theorem isNumber_toDigits (n : ℕ) : isNumber (Nat.toDigits 10 n) = true := by
  by_cases zero : n = 0
  · subst zero
    rfl
  · have leading := toDigits_leading (Nat.pos_of_ne_zero zero)
    have digits : ∀ c ∈ Nat.toDigits 10 n, c.isDigit = true :=
      fun c hc => Nat.isDigit_of_mem_toDigits (by decide) (by decide) hc
    cases text : Nat.toDigits 10 n with
    | nil => exact absurd text Nat.toDigits_ne_nil
    | cons c cs =>
      rw [text] at digits leading
      have first : c.isDigit = true := digits c List.mem_cons_self
      have others : cs.dropWhile Char.isDigit = [] :=
        List.dropWhile_eq_nil_iff.mpr fun d hd => digits d (List.mem_cons_of_mem c hd)
      have unsigned : c ≠ '-' := by
        rintro rfl
        exact absurd first (by decide)
      have nonzero : c ≠ '0' := by simpa using leading
      simp only [isNumber, afterMinus, if_neg unsigned, afterWhole, if_neg nonzero, afterDigits,
        first, if_true,
        others, Option.bind_some, afterFraction, afterExponent]
      rfl

theorem toDigits_solid (n : ℕ) : (Nat.toDigits 10 n).all numberChar = true := by
  rw [List.all_eq_true]
  intro c hc
  rw [numberChar, Nat.isDigit_of_mem_toDigits (by decide) (by decide) hc, Bool.true_or]

/-- A whole number as it is written. -/
def whole (n : ℕ) : NumberLiteral := ⟨Nat.toDigits 10 n, isNumber_toDigits n, toDigits_solid n⟩

end JsonText
