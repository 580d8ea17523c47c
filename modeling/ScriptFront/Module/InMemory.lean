import ScriptFront.Files.Memory
import ScriptFront.Module.Digest

/-!
# Modules of files in memory

The entry points for a finite set of files. Each answers with the questions it asked as well.
-/

namespace ScriptFront.MemoryFiles

/-- The number of files that a load has to read at most: each file once for its effects and once for
its key. -/
def loadLimit (m : MemoryFiles) : Nat := 2 * m.files.length

def parse (m : MemoryFiles) (path : String) (options : Options) :
    Except Error Module × List Question :=
  m.run (Module.parse m.loadLimit m.cwd path options).run

def parseSource (m : MemoryFiles) (source fileName : String) (options : Options) :
    Except Error Module × List Question :=
  m.run (Module.parseSource m.loadLimit m.cwd source fileName options).run

/-- Reads the file at an absolute path and loads the module around it. -/
def load (m : MemoryFiles) (config : Config) (path : String) (options : Options) :
    Except Error Module × List Question :=
  let project : Module.Project := ⟨m.cwd, config, options⟩
  m.run (do Module.load project m.loadLimit (← Module.parseFile project path) :
    Inspection Module).run

def digest (m : MemoryFiles) (path : String) : Except Error (List UInt8) × List Question :=
  m.run (Module.digest m.loadLimit m.cwd path).run

end ScriptFront.MemoryFiles
