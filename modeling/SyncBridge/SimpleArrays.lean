import Mathlib.Algebra.Order.Ring.Int
import Mathlib.Data.List.SplitBy

/-!
# Columns of comma-separated values

A list of named values is stored as its names joined by commas, and read by cutting
the text at its commas. Names without a comma, and not empty, come back as they were.
-/

namespace SimpleArrays

/-- The `simple-array` column: items joined by commas. -/
def toSimpleArray (items : List String) : List Char := [','].intercalate (items.map String.toList)

def ofSimpleArray (text : List Char) : List String :=
  if text = [] then [] else (text.splitOn ',').map String.ofList

variable {α : Type} (name : α → String) (named : String → Option α)

/-- What a saved column gives back. -/
def stored (items : List α) : List α :=
  (ofSimpleArray (toSimpleArray (items.map name))).filterMap named

variable {name named}

theorem toSimpleArray_ne_nil (solid : ∀ a, (name a).toList ≠ []) (a : α) (items : List α) :
    toSimpleArray ((a :: items).map name) ≠ [] := by
  intro empty
  rw [toSimpleArray, List.map_cons, List.map_cons] at empty
  cases items with
  | nil => exact solid a (by simpa [List.intercalate] using empty)
  | cons b items => simp [List.intercalate] at empty

theorem stored_eq (back : ∀ a, named (name a) = some a) (plain : ∀ a, ',' ∉ (name a).toList)
    (solid : ∀ a, (name a).toList ≠ []) (items : List α) : stored name named items = items := by
  have readBack : (items.map name).filterMap named = items := by
    rw [List.filterMap_map]
    induction items with
    | nil => rfl
    | cons a items ih => rw [List.filterMap_cons, Function.comp, back, ih]
  cases items with
  | nil => rfl
  | cons a items =>
    have uncut : ∀ l ∈ ((a :: items).map name).map String.toList, ',' ∉ l := by
      intro l hl
      obtain ⟨text, htext, rfl⟩ := List.mem_map.mp hl
      obtain ⟨b, -, rfl⟩ := List.mem_map.mp htext
      exact plain b
    have split := List.splitOn_intercalate ',' uncut (by simp)
    rw [stored, ofSimpleArray, if_neg (toSimpleArray_ne_nil solid a items), toSimpleArray,
      split, List.map_map]
    simpa [Function.comp_def] using readBack

end SimpleArrays
