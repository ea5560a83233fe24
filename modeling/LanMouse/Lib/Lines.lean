import Mathlib.Data.List.Basic
import Mathlib.Data.List.Flatten

/-!
# Items that are written one after another, each with a terminator

`terminated sep items` puts `sep` behind every item. When an item may hold `sep` itself, the text
tells the lines of the items, but not which of them belong together: two lists of items give the
same text exactly when they have the same lines, and they are the same list exactly when each item
also has as many of them.
-/
namespace Lines

variable {α : Type}

def terminated (sep : α) (items : List (List α)) : List α := items.flatMap (· ++ [sep])

theorem terminated_cons (sep : α) (item : List α) (items : List (List α)) :
    terminated sep (item :: items) = item ++ sep :: terminated sep items := by
  simp [terminated]

theorem terminated_append (sep : α) (items items' : List (List α)) :
    terminated sep (items ++ items') = terminated sep items ++ terminated sep items' :=
  List.flatMap_append

variable [DecidableEq α] {sep : α} {items items' : List (List α)}

/-- The pieces of an item between its separators. -/
def lines (sep : α) (item : List α) : List (List α) := item.splitOn sep

theorem splitOn_terminated (sep : α) (items : List (List α)) :
    (terminated sep items).splitOn sep = items.flatMap (lines sep) ++ [[]] := by
  induction items with
  | nil => rfl
  | cons item items ih =>
    rw [terminated_cons, List.splitOn_append_cons_self, ih, List.flatMap_cons, List.append_assoc,
      lines]

theorem splitOn_injective (sep : α) : Function.Injective (List.splitOn sep) := by
  intro text text' same
  calc
    text = [sep].intercalate (text.splitOn sep) := (List.intercalate_splitOn sep).symm
    _ = [sep].intercalate (text'.splitOn sep) := by rw [same]
    _ = text' := List.intercalate_splitOn sep

theorem terminated_eq_iff :
    terminated sep items = terminated sep items' ↔
      items.flatMap (lines sep) = items'.flatMap (lines sep) := by
  rw [← (splitOn_injective sep).eq_iff, splitOn_terminated, splitOn_terminated,
    List.append_left_inj]

theorem eq_iff_lines :
    items = items' ↔ items.flatMap (lines sep) = items'.flatMap (lines sep) ∧
      items.map (fun item => (lines sep item).length) =
        items'.map fun item => (lines sep item).length := by
  have cut : items.map (lines sep) = items'.map (lines sep) ↔ items = items' :=
    (List.map_injective_iff.mpr (splitOn_injective sep)).eq_iff
  rw [← cut, List.eq_iff_flatten_eq, List.map_map, List.map_map]
  rfl

theorem lines_of_not_mem {item : List α} (free : sep ∉ item) : lines sep item = [item] :=
  List.splitOn_eq_singleton free

theorem flatMap_lines_of_not_mem (free : ∀ item ∈ items, sep ∉ item) :
    items.flatMap (lines sep) = items := by
  induction items with
  | nil => rfl
  | cons item items ih =>
    rw [List.forall_mem_cons] at free
    rw [List.flatMap_cons, lines_of_not_mem free.1, ih free.2]
    rfl

/-- A text whose items hold no separator gives its items back. -/
theorem splitOn_terminated_of_not_mem (free : ∀ item ∈ items, sep ∉ item) :
    (terminated sep items).splitOn sep = items ++ [[]] := by
  rw [splitOn_terminated, flatMap_lines_of_not_mem free]

end Lines
