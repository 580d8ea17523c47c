import ScriptFront.Text.Integer

/-!
# JSON

A reader for JSON texts in two steps: the text is split into tokens, and the tokens make a value. What
the grammar of JSON allows and a stricter reader refuses is kept in the value: a string that escapes a
lone surrogate has no text, and a number out of the range of doubles is marked.
-/

namespace ScriptFront.Json

inductive Token where
  | openBrace | closeBrace | openBracket | closeBracket | comma | colon
  | null | true | false
  /-- Whether the number is within the range of doubles. -/
  | number (inRange : Bool)
  /-- There is no value if a surrogate stands alone in it. -/
  | string (value : Option (List Char))
deriving DecidableEq, Repr

inductive Value where
  | null
  | bool (b : Bool)
  | number (inRange : Bool)
  | string (value : Option (List Char))
  | array (items : List Value)
  | object (members : List (Option (List Char) × Value))

/-! ## Numbers -/

/-- A natural number rounded to 53 significant bits, a half to the even neighbour. -/
def roundTo53 (n : Nat) : Nat :=
  let shift := n.log2 + 1 - 53
  let unit := Nat.pow 2 shift
  let low := n / unit
  let rest := n % unit
  if 2 * rest > unit ∨ (2 * rest = unit ∧ low % 2 = 1) then (low + 1) * unit else low * unit

/-- Whether `significand · 10 ^ exponent` has a finite double. Both factors are rounded before they are
multiplied, and an exponent above 308 is refused whatever the result would be. -/
def isFinite (significand : Nat) (exponent : Int) : Bool :=
  significand == 0 || exponent < 0 ||
    (exponent ≤ 308 &&
      roundTo53 significand * roundTo53 (Nat.pow 10 exponent.toNat) <
        Nat.pow 2 1024 - Nat.pow 2 970)

/-- The first digits of a number as far as they fit 64 bits, and how many more there are before the
point. -/
def significandOf (n : Nat) : List Char → Nat × Nat
  | [] => (n, 0)
  | c :: cs =>
    let m := n * 10 + (c.toNat - '0'.toNat)
    if m < 18446744073709551616 then significandOf m cs else (n, (c :: cs).length)

/-- Goes on behind the point: the digits as far as they fit 64 bits, and how many those are. -/
def fractionOf (n k : Nat) : List Char → Nat × Nat
  | [] => (n, k)
  | c :: cs =>
    let m := n * 10 + (c.toNat - '0'.toNat)
    if m < 18446744073709551616 then fractionOf m (k + 1) cs else (n, k)

/-- Whether a number is in range, from its digits before and behind the point and its exponent. An
exponent that does not fit 32 bits makes the number infinite or zero. -/
def numberInRange (digits fraction : List Char) (exponent : Option (Bool × List Char)) : Bool :=
  let (n, more) := significandOf 0 digits
  let (n, less) := fractionOf n 0 fraction
  let start : Int := more - less
  match exponent with
  | none => if fraction.isEmpty && more == 0 then true else isFinite n start
  | some (negative, digits) =>
    let e := digits.foldl (fun e c => e * 10 + (c.toNat - '0'.toNat)) 0
    if e < 2147483648 then isFinite n (if negative then start - e else start + e)
    else negative || n == 0

/-- One digit or more. -/
def digits1 (cs : List Char) : Option (List Char × List Char) :=
  let run := cs.takeWhile Char.isDigit
  if run.isEmpty then none else some (run, cs.drop run.length)

/-- An exponent with its letter, if there is one. -/
def exponentPart (cs : List Char) : Option (Option (Bool × List Char) × List Char) :=
  let signed (cs : List Char) : Option (Option (Bool × List Char) × List Char) :=
    match cs with
    | '+' :: cs => (digits1 cs).map fun (ds, rest) => (some (Bool.false, ds), rest)
    | '-' :: cs => (digits1 cs).map fun (ds, rest) => (some (Bool.true, ds), rest)
    | cs => (digits1 cs).map fun (ds, rest) => (some (Bool.false, ds), rest)
  match cs with
  | 'e' :: cs | 'E' :: cs => signed cs
  | cs => some (none, cs)

/-- A number without its sign. No zero stands in front of other digits. -/
def numberToken (cs : List Char) : Option (Token × List Char) := do
  let (digits, rest) ← digits1 cs
  if digits.head? = some '0' ∧ digits.length ≠ 1 then none
  let (fraction, rest) ←
    match rest with
    | '.' :: rest => digits1 rest
    | rest => some ([], rest)
  let (exponent, rest) ← exponentPart rest
  return (.number (numberInRange digits fraction exponent), rest)

/-! ## Strings -/

/-- Four hexadecimal digits. -/
def hex4 (cs : List Char) : Option (Nat × List Char) := do
  let digits := cs.take 4
  if digits.length ≠ 4 then none
  let n ← Text.readDigits 16 digits
  return (n, cs.drop 4)

/-- A UTF-16 unit, or an escape of one character. -/
inductive Piece where
  | char (c : Char)
  | unit (n : Nat)

/-- What the characters behind a backslash stand for. -/
def escapePiece : List Char → Option (Piece × List Char)
  | '\x22' :: cs => some (.char '\x22', cs)
  | '\\' :: cs => some (.char '\\', cs)
  | '/' :: cs => some (.char '/', cs)
  | 'b' :: cs => some (.char '\x08', cs)
  | 'f' :: cs => some (.char '\x0c', cs)
  | 'n' :: cs => some (.char '\n', cs)
  | 'r' :: cs => some (.char '\r', cs)
  | 't' :: cs => some (.char '\t', cs)
  | 'u' :: cs => (hex4 cs).map fun (n, cs) => (.unit n, cs)
  | _ => none

/-- The pieces of a string up to its closing quote, kept backwards. The number bounds them. -/
def piecesFrom : Nat → List Char → List Piece → Option (List Piece × List Char)
  | 0, _, _ => none
  | _ + 1, [], _ => none
  | fuel + 1, c :: cs, pieces =>
    if c = '\x22' then some (pieces.reverse, cs)
    else if c = '\\' then
      match escapePiece cs with
      | none => none
      | some (p, cs) => piecesFrom fuel cs (p :: pieces)
    else if c.toNat < 0x20 then none
    else piecesFrom fuel cs (.char c :: pieces)

/-- The text of the pieces: a high surrogate needs a low one behind it, and no other surrogate may
stand in it. -/
def textOf : List Piece → Option (List Char)
  | [] => some []
  | .char c :: rest => (textOf rest).map (c :: ·)
  | .unit h :: .unit l :: rest =>
    if 0xD800 ≤ h ∧ h < 0xDC00 then
      if 0xDC00 ≤ l ∧ l < 0xE000 then
        (textOf rest).map (Char.ofNat (0x10000 + (h - 0xD800) * 0x400 + (l - 0xDC00)) :: ·)
      else none
    else if 0xDC00 ≤ h ∧ h < 0xE000 then none
    else (textOf (.unit l :: rest)).map (Char.ofNat h :: ·)
  | .unit h :: rest => if 0xD800 ≤ h ∧ h < 0xE000 then none else (textOf rest).map (Char.ofNat h :: ·)

/-- A string behind its opening quote. -/
def stringToken (cs : List Char) : Option (Token × List Char) :=
  (piecesFrom cs.length cs []).map fun (pieces, rest) => (.string (textOf pieces), rest)

/-! ## Tokens -/

def isBlank (c : Char) : Bool := c == ' ' || c == '\t' || c == '\n' || c == '\r'

/-- The token that starts with `c`, which is no blank. -/
def tokenAt (c : Char) (cs : List Char) : Option (Token × List Char) :=
  match c with
  | '\x7b' => some (.openBrace, cs)
  | '\x7d' => some (.closeBrace, cs)
  | '[' => some (.openBracket, cs)
  | ']' => some (.closeBracket, cs)
  | ',' => some (.comma, cs)
  | ':' => some (.colon, cs)
  | '\x22' => stringToken cs
  | '-' => numberToken cs
  | 'n' => if "ull".toList.isPrefixOf cs then some (.null, cs.drop 3) else none
  | 't' => if "rue".toList.isPrefixOf cs then some (.true, cs.drop 3) else none
  | 'f' => if "alse".toList.isPrefixOf cs then some (.false, cs.drop 4) else none
  | c => if c.isDigit then numberToken (c :: cs) else none

/-- The tokens of a text, behind those that are kept backwards. The number bounds the characters. -/
def tokensFrom : Nat → List Char → List Token → Option (List Token)
  | _, [], tokens => some tokens.reverse
  | 0, _ :: _, _ => none
  | fuel + 1, c :: cs, tokens =>
    if isBlank c then tokensFrom fuel cs tokens
    else
      match tokenAt c cs with
      | none => none
      | some (t, rest) => tokensFrom fuel rest (t :: tokens)

def tokenize (cs : List Char) : Option (List Token) := tokensFrom cs.length cs []

/-! ## Values -/

mutual

/-- A value. The number bounds the tokens that it is made of, here and below. -/
def valueFrom : Nat → List Token → Option (Value × List Token)
  | 0, _ => none
  | fuel + 1, tokens =>
    match tokens with
    | .null :: rest => some (.null, rest)
    | .true :: rest => some (.bool Bool.true, rest)
    | .false :: rest => some (.bool Bool.false, rest)
    | .number inRange :: rest => some (.number inRange, rest)
    | .string value :: rest => some (.string value, rest)
    | .openBracket :: .closeBracket :: rest => some (.array [], rest)
    | .openBracket :: rest => itemsFrom fuel rest []
    | .openBrace :: .closeBrace :: rest => some (.object [], rest)
    | .openBrace :: rest => membersFrom fuel rest []
    | _ => none

/-- The items of an array, behind those that are kept backwards. -/
def itemsFrom : Nat → List Token → List Value → Option (Value × List Token)
  | 0, _, _ => none
  | fuel + 1, tokens, items =>
    match valueFrom fuel tokens with
    | some (v, .comma :: rest) => itemsFrom fuel rest (v :: items)
    | some (v, .closeBracket :: rest) => some (.array (v :: items).reverse, rest)
    | _ => none

/-- The members of an object, behind those that are kept backwards. -/
def membersFrom : Nat → List Token → List (Option (List Char) × Value) →
    Option (Value × List Token)
  | 0, _, _ => none
  | fuel + 1, tokens, members =>
    match tokens with
    | .string key :: .colon :: rest =>
      match valueFrom fuel rest with
      | some (v, .comma :: rest) => membersFrom fuel rest ((key, v) :: members)
      | some (v, .closeBrace :: rest) => some (.object ((key, v) :: members).reverse, rest)
      | _ => none
    | _ => none

end

/-- The value that a whole text holds. -/
def ofChars (cs : List Char) : Option Value := do
  let tokens ← tokenize cs
  match ← valueFrom (tokens.length + 1) tokens with
  | (v, []) => some v
  | _ => none

/-! ## Stricter reading -/

/-- How deep arrays and objects may nest where values are kept. -/
def nestingLimit : Nat := 127

mutual

/-- Whether the value can be kept when it stands inside `level` arrays and objects: its strings have
texts, its numbers are in range, and it does not nest too deep. -/
def Value.isStrict (level : Nat) : Value → Bool
  | .null => Bool.true
  | .bool _ => Bool.true
  | .number inRange => inRange
  | .string value => value.isSome
  | .array items => level < nestingLimit && areStrict (level + 1) items
  | .object members => level < nestingLimit && areStrictMembers (level + 1) members

def areStrict (level : Nat) : List Value → Bool
  | [] => Bool.true
  | v :: rest => v.isStrict level && areStrict level rest

def areStrictMembers (level : Nat) : List (Option (List Char) × Value) → Bool
  | [] => Bool.true
  | (key, v) :: rest => key.isSome && v.isStrict level && areStrictMembers level rest

end

end ScriptFront.Json
