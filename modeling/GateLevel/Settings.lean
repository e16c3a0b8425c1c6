import GateLevel.Command.Program
import GateLevel.Toml.Document

/-! How a TOML document gives the settings of the command. -/

namespace GateLevel

namespace Settings

inductive Given
  | not
  | dotted
  | header
  | value
  deriving DecidableEq, Repr

structure Draft where
  given : Given
  vectors : Option String
  output : Option String
  deriving DecidableEq, Repr

namespace Draft

def start : Draft := ⟨.not, none, none⟩

def set (key : String) (value : Toml.Value) (draft : Draft) : Option Draft :=
  match key, value, draft.vectors, draft.output with
  | "vectors", .text path, none, _ => some { draft with vectors := some path }
  | "output", .text path, _, none => some { draft with output := some path }
  | _, _, _, _ => none

def setAll : List (List String × Toml.Value) → Draft → Option Draft
  | [], draft => some draft
  | ([key], value) :: rest, draft => do setAll rest (← draft.set key value)
  | _, _ => none

def ofList : List Toml.Value → Option Draft
  | [] => some ⟨.value, none, none⟩
  | [.text vectors] => some ⟨.value, some vectors, none⟩
  | .text vectors :: .text output :: _ => some ⟨.value, some vectors, some output⟩
  | _ => none

def apply (draft : Draft) : Toml.Statement → Option Draft
  | .header ["simulate"] =>
    if draft.given = .not then some { draft with given := .header } else none
  | .header _ => none
  | .entry path value =>
    match draft.given, path, value with
    | .header, [key], value => draft.set key value
    | .header, _, _ => none
    | .value, _, _ => none
    | _, ["simulate", key], value => { draft with given := .dotted }.set key value
    | .not, ["simulate"], .table entries => setAll entries ⟨.value, none, none⟩
    | .not, ["simulate"], .list elements => ofList elements
    | _, _, _ => none

end Draft

def read? (text : String) : Option Partial := do
  let draft ← (← Toml.readDocument text).foldlM Draft.apply .start
  return ⟨draft.vectors, draft.output⟩

def ofDocument? (text : String) : Option Settings := (read? text).map Partial.complete

end Settings

end GateLevel
