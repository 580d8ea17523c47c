/-!
# Message templates

A template holds numbered placeholders. They are filled one after the other, so what an argument
brings in is searched for the placeholders of the arguments after it.
-/

namespace ScriptFront.Text

/-- Replaces every occurrence of `pattern`, from left to right and without overlap. The number counts
the characters that still belong to the last occurrence. -/
def replaceFrom (pattern replacement : List Char) : Nat → List Char → List Char
  | _, [] => []
  | k + 1, _ :: cs => replaceFrom pattern replacement k cs
  | 0, c :: cs =>
    if pattern.isPrefixOf (c :: cs) then
      replacement ++ replaceFrom pattern replacement (pattern.length - 1) cs
    else
      c :: replaceFrom pattern replacement 0 cs

def replaceAll (pattern replacement cs : List Char) : List Char :=
  replaceFrom pattern replacement 0 cs

/-- The placeholder of the argument with number `i`: the number in braces. -/
def placeholder (i : Nat) : List Char := '\x7b' :: (Nat.toDigits 10 i ++ ['\x7d'])

/-- Fills the placeholders from number `i` on. -/
def fillFrom : Nat → List Char → List String → List Char
  | _, template, [] => template
  | i, template, a :: args => fillFrom (i + 1) (replaceAll (placeholder i) a.toList template) args

def fill (template : String) (args : List String) : String :=
  String.ofList (fillFrom 0 template.toList args)

example : fill "Expecting '\x7b0\x7d' got '\x7b1\x7d'" [")", "\x7b0\x7d"]
    = "Expecting ')' got '\x7b0\x7d'" := by decide

end ScriptFront.Text
