import Concolic.Config.Setting
import Concolic.Text.Lowercase

/-! # Settings in the environment

Variables of the environment whose names start with a group and an underscore are settings of that
group, in any case. The rest of the name in lower case is the key, in which two underscores stand
for the point of a path. The values are texts. -/

namespace Concolic

/-- The variables of an environment: names with values. -/
abbrev Environment := List (String × String)

namespace Environment

/-- The value of a variable. -/
def value? (env : Environment) (name : String) : Option String := env.lookup name

/-- `cs` with a point for each two underscores. -/
def pointed : List Char → List Char
  | '_' :: '_' :: cs => '.' :: pointed cs
  | c :: cs => c :: pointed cs
  | [] => []

/-- The text behind `front`, if it is at the front. -/
def behind? : (front : List Char) → List Char → Option (List Char)
  | [], cs => some cs
  | _ :: _, [] => none
  | d :: front, c :: cs => if d = c then behind? front cs else none

/-- `behind? front cs = some rest` iff `cs = front ++ rest`. -/
theorem behind?_eq_some_iff {front cs rest : List Char} :
    behind? front cs = some rest ↔ cs = front ++ rest := by
  induction front generalizing cs with
  | nil => simp [behind?]
  | cons d front ih =>
    cases cs with
    | nil => simp [behind?]
    | cons c cs =>
      by_cases h : d = c
      · simp [behind?, h, ih]
      · simp [behind?, h, Ne.symm h]

/-- The key that the variable `name` gives in `group`: the rest of its name behind `group` and an
underscore, in lower case and `pointed`. -/
def key? (group name : String) : Option String :=
  (behind? (lowercase (group.toList ++ ['_'])) (lowercase name.toList)).map fun rest =>
    String.ofList (pointed rest)

/-- The settings of `group`. Of the variables with one key the last one counts. -/
def settings (env : Environment) (group : String) : Settings :=
  match env with
  | [] => []
  | (name, value) :: rest =>
    match key? group name with
    | none => settings rest group
    | some key =>
      if key ∈ (settings rest group).map Prod.fst then settings rest group
      else (key, .text value) :: settings rest group

end Environment
end Concolic
