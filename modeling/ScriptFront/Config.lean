import ScriptFront.Config.Json
import ScriptFront.Diagnostic
import ScriptFront.Path
import ScriptFront.Text.Blank
import ScriptFront.Text.Lines

/-!
# Project configuration

A config file tells the directories that imports are searched in: the list under `*` in
`compilerOptions.paths`. It may hold comments on lines of their own. The directory of the file becomes
the base path of the project.
-/

namespace ScriptFront

/-- Where imports are searched for. -/
structure Config where
  /-- The directory that search paths are relative to. -/
  basePath : String
  /-- Directories, each of which may end in a star. -/
  searchPaths : List String
deriving DecidableEq, Repr

namespace Config

def fileName : String := "tsconfig.json"

/-- The configuration of a project without a config file. -/
def ofBasePath (basePath : String) : Config := ⟨basePath, ["*"]⟩

/-- Whether a line is a comment. -/
def isCommentLine (line : List Char) : Bool := "//".toList.isPrefixOf (Text.trimStart line)

/-- Drops the lines that are comments. -/
def stripLineComments (cs : List Char) : List Char :=
  Text.unlines ((Text.lines cs).filter (!isCommentLine ·))

/-! ## The shape of a config file -/

/-- The member of a record with a single known field. All keys need a text, and the known one stands
once at most. The field may also be given alone in an array. A missing field counts as null. -/
def field? (name : String) : Json.Value → Option Json.Value
  | .array [v] => some v
  | .object members => do
    let named ← members.mapM fun m => m.1.map (·, m.2)
    match named.filter (·.1 = name.toList) with
    | [] => some .null
    | [m] => some m.2
    | _ => none
  | _ => none

/-- The entries of `paths` with the last value of a repeated key, in some order. -/
def entries (members : List (Option (List Char) × Json.Value)) :
    List (List Char × Json.Value) :=
  members.foldl (fun entries m =>
    match m.1 with
    | some key => (key, m.2) :: entries.filter (·.1 ≠ key)
    | none => entries) []

/-- The `paths` of a config file, if it has any. Nothing comes out when the file is not of its
shape. -/
def paths? (v : Json.Value) : Option (Option (List (List Char × Json.Value))) := do
  match ← field? "compilerOptions" v with
  | .null => some none
  | options =>
    match ← field? "paths" options with
    | .null => some none
    | .object members =>
      if Json.areStrictMembers 3 members then some (some (entries members)) else none
    | _ => none

/-- The directories that `paths` lists under its only key. -/
def searchPaths? (entries : List (List Char × Json.Value)) : Option (List String) :=
  match entries with
  | [(key, .array items)] =>
    if key = ['*'] then
      items.mapM fun v =>
        match v with
        | .string (some s) => some (String.ofList s)
        | _ => none
    else none
  | _ => none

/-- The reason that is given for a text that is no JSON or not of the shape of a config file. -/
def malformedReason : String := "<json error>"

/-- The configuration that the config file at `path` holds. -/
def ofText (content path : String) : Except Error Config :=
  let base := ofBasePath (Path.directory path)
  match (Json.ofChars (stripLineComments content.toList)).bind paths? with
  | none => .error ⟨.malformedConfig path malformedReason, .start⟩
  | some none => .ok base
  | some (some entries) =>
    match searchPaths? entries with
    | none => .error ⟨.invalidConfigPaths path, .start⟩
    | some [] => .ok base
    | some dirs => .ok { base with searchPaths := dirs }

end Config

end ScriptFront
