/-!
# Paths

Paths are text with `/` between their segments; a backslash counts as `/`. `Path.ofString` reads a path
and resolves what can be resolved in it: empty and `.` segments go, and `..` takes the segment before
it away. A rooted path does not climb above its root.
-/

namespace ScriptFront

/-- Where a path starts. -/
inductive Root where
  | relative
  | slash
  /-- The root of a drive, which a letter names. -/
  | drive (letter : Char)
deriving DecidableEq, Repr

namespace Root

def text : Root → List Char
  | relative => []
  | slash => ['/']
  | drive letter => [letter, ':', '/']

end Root

/-- A path in normal form: its root and its segments. -/
structure Path where
  root : Root
  segments : List (List Char)
deriving DecidableEq, Repr

namespace Path

/-! ## Reading -/

def unifySlashes (cs : List Char) : List Char := cs.map fun c => if c = '\\' then '/' else c

/-- The root that a path starts with, and the rest of the path. -/
def splitRoot (cs : List Char) : Root × List Char :=
  match cs with
  | '/' :: rest => (.slash, rest)
  | c :: ':' :: '/' :: rest => if c.isAlpha then (.drive c, rest) else (.relative, cs)
  | _ => (.relative, cs)

/-- The pieces between slashes, the first of which continues `piece`, kept backwards. -/
def splitFrom : List Char → List Char → List (List Char)
  | piece, [] => [piece.reverse]
  | piece, c :: cs =>
    if c = '/' then piece.reverse :: splitFrom [] cs else splitFrom (c :: piece) cs

/-- Goes on with one piece from the segments before it, kept backwards. -/
def resolve (rooted : Bool) (before : List (List Char)) (piece : List Char) : List (List Char) :=
  if piece = [] ∨ piece = ['.'] then before
  else if piece = ['.', '.'] then
    match before with
    | [] => if rooted then [] else [piece]
    | last :: rest =>
      if last ≠ ['.', '.'] then rest else if rooted then before else piece :: before
  else piece :: before

def ofChars (cs : List Char) : Path :=
  let (root, rest) := splitRoot (unifySlashes cs)
  ⟨root, ((splitFrom [] rest).foldl (resolve (root != .relative)) []).reverse⟩

def ofString (s : String) : Path := ofChars s.toList

/-! ## Writing -/

/-- Segments with slashes between them. -/
def joinSegments : List (List Char) → List Char
  | [] => []
  | [s] => s
  | s :: rest => s ++ '/' :: joinSegments rest

/-- The empty path is written as a point. -/
def toChars (p : Path) : List Char :=
  match p.root.text ++ joinSegments p.segments with
  | [] => ['.']
  | cs => cs

def toString (p : Path) : String := String.ofList p.toChars

/-! ## Operations on path texts -/

/-- The text with slashes only. -/
def withSlashes (s : String) : String := String.ofList (unifySlashes s.toList)

def normalize (s : String) : String := (ofString s).toString

def isRooted (s : String) : Bool := (splitRoot (unifySlashes s.toList)).1 != .relative

/-- The path `s` as seen from `base`. A rooted path is the same from everywhere. -/
def combine (base s : String) : String :=
  if isRooted s || base.isEmpty then normalize s else normalize (base ++ "/" ++ s)

/-- Combines paths from left to right, empty ones left out. -/
def join (paths : List String) : String :=
  (paths.filter (!·.isEmpty)).foldl combine ""

/-- The directory that holds a path: the path without its last segment, or what it starts with when
there is only one. -/
def directory (s : String) : String :=
  let p := ofString (normalize s)
  match p.segments.dropLast with
  | [] => String.ofList (if p.root = .relative then ['.'] else p.root.text)
  | segments => toString ⟨p.root, segments⟩

/-! ## Endings -/

/-- The text without `ending`, if it ends so. -/
def withoutEnding (ending s : String) : String :=
  if ending.toList.isSuffixOf s.toList then
    String.ofList (s.toList.take (s.toList.length - ending.toList.length))
  else s

/-- The ending of source files. -/
def sourceExtension : String := ".ts"

/-- The ending of files that hold nothing but types. -/
def definitionExtension : String := ".d.ts"

/-- A search path without the star that may end it. -/
def trimWildcard (s : String) : String := withoutEnding "*" s

end Path

end ScriptFront
