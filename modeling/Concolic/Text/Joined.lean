/-! # Joined text

Items with a comma and a space between them. The items are taken when they are shown, so a second
showing is empty. -/

namespace Concolic

/-- Texts with a comma and a space between them. -/
def joinComma : List String → String
  | [] => ""
  | [s] => s
  | s :: t :: rest => s ++ ", " ++ joinComma (t :: rest)

/-- Items that are shown once. -/
structure Joined (α : Type) where
  /-- The items, until they are shown. -/
  pending : Option (List α)

namespace Joined

/-- Items that have not been shown. -/
def ofList {α : Type} (items : List α) : Joined α := ⟨some items⟩

/-- Shows the items, and what is left to show. -/
def render {α : Type} (text : α → String) (j : Joined α) : String × Joined α :=
  (joinComma ((j.pending.getD []).map text), ⟨none⟩)

end Joined
end Concolic
