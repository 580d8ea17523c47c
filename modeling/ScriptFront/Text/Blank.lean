/-!
# White space

The characters with the Unicode property White_Space, and trimming by it. The lexical grammar has a
blank set of its own; this one serves comments that hold attributes and lines of a config file.
-/

namespace ScriptFront.Text

/-- The property White_Space. -/
def isSpace (c : Char) : Bool :=
  let n := c.toNat
  (9 ≤ n && n ≤ 13) || n == 0x20 || n == 0x85 || n == 0xA0 || n == 0x1680
    || (0x2000 ≤ n && n ≤ 0x200A) || n == 0x2028 || n == 0x2029 || n == 0x202F || n == 0x205F
    || n == 0x3000

def trimStart (cs : List Char) : List Char := cs.dropWhile isSpace

def trimEnd (cs : List Char) : List Char := (cs.reverse.dropWhile isSpace).reverse

def trim (cs : List Char) : List Char := trimEnd (trimStart cs)

example : trim " \t[a]\u3000".toList = "[a]".toList := by decide

end ScriptFront.Text
