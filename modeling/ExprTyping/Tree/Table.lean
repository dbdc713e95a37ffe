/-!
# Tables with a default

A table gives every position a value. Positions that were never written have the default value, so
that a table has no size: `Table.get_set` holds for all positions alike.
-/

namespace ExprTyping

/-- A value for every position, the default one from some position on. -/
structure Table (α : Type) where
  entries : Array α := #[]
  deriving Repr

namespace Table

variable {α : Type} [Inhabited α]

/-- The value at a position. -/
def get (t : Table α) (i : Nat) : α := t.entries[i]?.getD default

/-- The entries with enough default ones behind them to have at least the given number. -/
def padded (t : Table α) (size : Nat) : Array α :=
  t.entries ++ Array.replicate (size - t.entries.size) default

/-- The table with another value at one position. -/
def set (t : Table α) (i : Nat) (value : α) : Table α :=
  ⟨(t.padded (i + 1)).setIfInBounds i value⟩

theorem getD_padded (t : Table α) (size i : Nat) : (t.padded size)[i]?.getD default = t.get i := by
  simp only [padded, get, Array.getElem?_append, Array.getElem?_replicate]
  split
  · rfl
  · split <;> simp_all

/-- A write changes the value at its position and no other. -/
@[simp] theorem get_set (t : Table α) (i j : Nat) (value : α) :
    (t.set i value).get j = if i = j then value else t.get j := by
  unfold set
  rw [get, Array.getElem?_setIfInBounds]
  by_cases h : i = j
  · have : i < (t.padded (i + 1)).size := by simp [padded]; omega
    simp [h] at this ⊢
    simp [this]
  · simp [h, getD_padded]

@[simp] theorem get_empty (i : Nat) : (⟨#[]⟩ : Table α).get i = default := by simp [get]

end Table

end ExprTyping
