import Mathlib.Data.List.Basic

/-! Topic filters: `one` stands for any single level and `rest`, at the end,
for any number of them, also for none. -/

namespace TopicFilter

inductive Level (α : Type*) where
  | name (a : α)
  | one
  | rest
  deriving DecidableEq

variable {α : Type*}

/-- Anything else after `rest` makes the filter match nothing. -/
def Matches : List (Level α) → List α → Prop
  | [.rest], _ => True
  | .one :: fs, _ :: ts => Matches fs ts
  | .name a :: fs, t :: ts => a = t ∧ Matches fs ts
  | [], [] => True
  | _, _ => False

end TopicFilter
