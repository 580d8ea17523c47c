import ScriptFront.Proofs.Token.Writing
import ScriptFront.Proofs.Tree.Rewriting

/-!
# Expressions as token sequences

`Expr.spelled` writes an expression with every operand of an operator in parentheses, and every receiver
of a link that is no chain itself. What can be read back from it is `Expr.Writable n`: expressions that
nest at most `n` deep and contain no function.
-/

namespace ScriptFront

/-! ## Single tokens -/

def Mark.shape (m : Mark) : Kind × String := (.mark m, m.text)

def Keyword.shape (k : Keyword) : Kind × String := (.keyword k, k.text)

/-- The kind of the token that a constant is written with. -/
def ConstantKind.tokenKind : ConstantKind → Kind
  | int => .int
  | float => .float
  | string => .string
  | rune => .rune
  | .true => .keyword .trueWord
  | .false => .keyword .falseWord
  | null => .keyword .nullWord
  | undefined => .keyword .undefinedWord

/-- The marks that a binary operator is written with. -/
def BinaryOperator.marks : BinaryOperator → List Mark
  | add => [.plus]
  | sub => [.minus]
  | mul => [.star]
  | div => [.slash]
  | mod => [.percent]
  | exp => [.starStar]
  | shiftLeft => [.shiftLeft]
  | shiftRight => [.greater, .greater]
  | bitAnd => [.ampersand]
  | bitOr => [.bar]
  | bitXor => [.caret]
  | logicalAnd => [.andAnd]
  | logicalOr => [.barBar]
  | nullish => [.questionQuestion]
  | eq => [.equalsEquals]
  | notEq => [.exclamationEquals]
  | strictEq => [.equalsEqualsEquals]
  | strictNotEq => [.exclamationEqualsEquals]
  | less => [.less]
  | lessEq => [.lessEquals]
  | greater => [.greater]
  | greaterEq => [.greaterEquals]

/-- All but the right shift are written with a mark of their own. -/
theorem BinaryOperator.marks_eq (op : BinaryOperator) :
    op = .shiftRight ∨ ∃ m, op.marks = [m] ∧ ofMark? m = some op := by
  cases op <;> first | exact Or.inl rfl | exact Or.inr ⟨_, rfl, rfl⟩

theorem BinaryOperator.join_marks (op : BinaryOperator) : String.join (op.marks.map Mark.text) = op.text := by
  cases op <;> rfl

def UnaryOperator.mark : UnaryOperator → Mark
  | plus => .plus
  | minus => .minus
  | bitNot => .tilde
  | not => .exclamation

/-- Two `>` stand next to each other only where they are a shift. -/
def Token.ShiftsTogether (t t' : Token) : Prop :=
  t.kind = .mark .greater → t'.kind = .mark .greater → t.position.isAdjacentTo t'.position = true

/-! ## Parts of expressions -/

/-- Kinds and texts of tokens. -/
abbrev Spelling := List (Kind × String)

namespace Spelling

/-- Something in round brackets. -/
def inParens (s : Spelling) : Spelling := Mark.openParen.shape :: s ++ [Mark.closeParen.shape]

/-- Something in square brackets. -/
def inBrackets (s : Spelling) : Spelling :=
  Mark.openBracket.shape :: s ++ [Mark.closeBracket.shape]

/-- Items with commas between them. -/
def separated (items : List Spelling) : Spelling := List.intercalate [Mark.comma.shape] items

/-- Items the last of which is spread. -/
def spreadLast : List Spelling → List Spelling
  | [] => []
  | [item] => [Mark.ellipsis.shape :: item]
  | item :: rest => item :: spreadLast rest

/-- Arguments with commas between them. -/
def argumentList (items : List Spelling) (spread : Bool) : Spelling :=
  separated (if spread then spreadLast items else items)

/-- Arguments in round brackets. -/
def arguments (items : List Spelling) (spread : Bool) : Spelling :=
  inParens (argumentList items spread)

/-- What stands in front of the brackets of a link that may be optional. -/
def optionalMark (optional : Bool) : Spelling :=
  if optional then [Mark.questionDot.shape] else []

end Spelling

namespace Expr

open Spelling

/-- Whether an expression is primary or a postfix chain: it may stand in front of a link as it is. -/
def isPostfix : Expr → Bool
  | binary .. | unary .. | ternary .. => false
  | _ => true

/-- An expression, spelled as `s`, in front of a link. -/
def inFront (e : Expr) (s : Spelling) : Spelling :=
  if e.isPostfix then s else inParens s

mutual

/-- The tokens of an expression. Functions have none here. -/
def spelled : Expr → Spelling
  | constant _ kind value => [(kind.tokenKind, value)]
  | identifier i => [(.identifier, i.name)]
  | selector x member optional _ =>
    x.inFront (spelled x) ++
      [if optional then Mark.questionDot.shape else Mark.dot.shape, (.identifier, member.name)]
  | index x _ key optional _ =>
    x.inFront (spelled x) ++ (optionalMark optional ++ inBrackets (spelled key))
  | call ⟨x, _, args, spread, optional, _⟩ =>
    x.inFront (spelled x) ++ (optionalMark optional ++ arguments (allSpelled args) spread)
  | newInstance _ typeName args spread =>
    Keyword.newWord.shape :: spelled typeName ++ arguments (allSpelled args) spread
  | binary op left right =>
    inParens (spelled left) ++ op.marks.map Mark.shape ++ inParens (spelled right)
  | unary _ op x => op.mark.shape :: inParens (spelled x)
  | ternary condition whenTrue whenFalse =>
    inParens (spelled condition) ++ Mark.question.shape :: inParens (spelled whenTrue) ++
      Mark.colon.shape :: inParens (spelled whenFalse)
  | mapLiteral _ entries =>
    Mark.openBrace.shape :: separated (entriesSpelled entries) ++ [Mark.closeBrace.shape]
  | arrayLiteral _ es => inBrackets (separated (allSpelled es))
  | function .. => []

def allSpelled : List Expr → List Spelling
  | [] => []
  | e :: es => spelled e :: allSpelled es

/-- The entries of a map, with their keys as strings. -/
def entriesSpelled : List MapEntry → List Spelling
  | [] => []
  | ⟨_, key, value⟩ :: es =>
    ((.string, key) :: Mark.colon.shape :: spelled value) :: entriesSpelled es

end

/-! ## Which expressions are written -/

/-- Whether the mark of a link, if the expression is one, is `b`. -/
def MarkedAs (b : Bool) : Expr → Prop
  | selector _ _ _ outermost => outermost = b
  | index _ _ _ _ outermost => outermost = b
  | call c => c.outermost = b
  | _ => True

/-- The type of a `new`: a name or a member of a name. -/
inductive IsTypeName : Expr → Prop
  | name (i : Ident) : IsTypeName (identifier i)
  | member (i m : Ident) : IsTypeName (selector (identifier i) m false false)

/-- Whether an expression nests at most `n` deep, contains no function, spreads only where there is an
argument, and has exactly those links marked that are followed by no other link. -/
inductive Writable : Nat → Expr → Prop
  | constant {n p kind value} : Writable n (constant p kind value)
  | identifier {n i} : Writable n (identifier i)
  | selector {n x member optional outermost} (hx : x.MarkedAs false) (hw : Writable n x) :
    Writable (n + 1) (selector x member optional outermost)
  | index {n x p key optional outermost} (hx : x.MarkedAs false) (hw : Writable n x)
    (hkey : key.MarkedAs true) (hw' : Writable n key) :
    Writable (n + 1) (index x p key optional outermost)
  | call {n x p args spread optional outermost} (hx : x.MarkedAs false) (hw : Writable n x)
    (hargs : ∀ a ∈ args, a.MarkedAs true) (hw' : ∀ a ∈ args, Writable n a)
    (hspread : spread = true → args ≠ []) :
    Writable (n + 1) (call ⟨x, p, args, spread, optional, outermost⟩)
  | newInstance {n p typeName args spread} (htype : typeName.IsTypeName)
    (hargs : ∀ a ∈ args, a.MarkedAs true) (hw : ∀ a ∈ args, Writable n a)
    (hspread : spread = true → args ≠ []) :
    Writable (n + 1) (newInstance p typeName args spread)
  | binary {n op left right} (hleft : left.MarkedAs true) (hw : Writable n left)
    (hright : right.MarkedAs true) (hw' : Writable n right) :
    Writable (n + 1) (binary op left right)
  | unary {n p op x} (hx : x.MarkedAs true) (hw : Writable n x) : Writable (n + 1) (unary p op x)
  | ternary {n condition whenTrue whenFalse} (hcondition : condition.MarkedAs true)
    (hw : Writable n condition) (htrue : whenTrue.MarkedAs true) (hw' : Writable n whenTrue)
    (hfalse : whenFalse.MarkedAs true) (hw'' : Writable n whenFalse) :
    Writable (n + 1) (ternary condition whenTrue whenFalse)
  | mapLiteral {n p entries} (hentries : ∀ m ∈ entries, m.value.MarkedAs true)
    (hw : ∀ m ∈ entries, Writable n m.value) : Writable (n + 1) (mapLiteral p entries)
  | arrayLiteral {n p es} (hes : ∀ e ∈ es, e.MarkedAs true) (hw : ∀ e ∈ es, Writable n e) :
    Writable (n + 1) (arrayLiteral p es)

/-! ## Up to positions -/

/-- Whether two trees are the same up to positions. -/
def Alike (e e' : Expr) : Prop := Rewriting.unplaced.expr e' = Rewriting.unplaced.expr e

section

variable {x x' key key' : Expr} {args args' : List Expr}

theorem Alike.selector (hx : x.Alike x') (member : Ident) (p : Position) (optional outermost : Bool) :
    (selector x member optional outermost).Alike
      (.selector x' ⟨p, member.name⟩ optional outermost) := by
  unfold Alike at hx ⊢
  simp only [Rewriting.expr, Rewriting.ident, Rewriting.unplaced] at hx ⊢
  rw [hx]

theorem Alike.index (hx : x.Alike x') (hkey : key.Alike key') (p p' : Position)
    (optional outermost : Bool) :
    (index x p key optional outermost).Alike (.index x' p' key' optional outermost) := by
  unfold Alike at hx hkey ⊢
  simp only [Rewriting.expr, hx, hkey]
  rfl

theorem Alike.call (hx : x.Alike x')
    (hargs : args'.map Rewriting.unplaced.expr = args.map Rewriting.unplaced.expr) (p p' : Position)
    (spread optional outermost : Bool) :
    (call ⟨x, p, args, spread, optional, outermost⟩).Alike
      (.call ⟨x', p', args', spread, optional, outermost⟩) := by
  unfold Alike at hx ⊢
  simp only [Rewriting.expr, Rewriting.callOf, Rewriting.exprs_eq_map, hx, hargs]
  rfl

end

/-! ## The marks of links -/

def isLink : Expr → Bool
  | selector .. | index .. | call .. => true
  | _ => false

/-- The expression with its own link, if it is one, not marked. -/
def unmarked : Expr → Expr
  | selector x member optional _ => selector x member optional false
  | index x p key optional _ => index x p key optional false
  | call c => call { c with outermost := false }
  | e => e

variable {e e' : Expr}

theorem unmarked_of_markedAs (h : e.MarkedAs false) : e.unmarked = e := by
  cases e with
  | selector x member optional outermost => cases h; rfl
  | index x p key optional outermost => cases h; rfl
  | call c =>
    obtain ⟨callee, p, args, spread, optional, outermost⟩ := c
    cases h
    rfl
  | _ => rfl

theorem unmarked_of_not_isLink (h : e.isLink = false) : e.unmarked = e := by
  cases e <;> first | rfl | cases h

theorem markOutermost_unmarked (h : e.MarkedAs true) : e.unmarked.markOutermost = e := by
  cases e with
  | selector x member optional outermost => cases h; rfl
  | index x p key optional outermost => cases h; rfl
  | call c =>
    obtain ⟨callee, p, args, spread, optional, outermost⟩ := c
    cases h
    rfl
  | _ => rfl

theorem Alike.markOutermost (h : e.Alike e') : e.markOutermost.Alike e'.markOutermost := by
  unfold Alike at h ⊢
  rw [Rewriting.expr_markOutermost, Rewriting.expr_markOutermost, h]

/-! ## Lists -/

theorem allSpelled_eq_map (es : List Expr) : allSpelled es = es.map spelled := by
  induction es with
  | nil => rw [allSpelled, List.map_nil]
  | cons e es ih => rw [allSpelled, ih, List.map_cons]

theorem entriesSpelled_eq_map (es : List MapEntry) :
    entriesSpelled es =
      es.map fun m => (.string, m.key) :: Mark.colon.shape :: spelled m.value := by
  induction es with
  | nil => rw [entriesSpelled, List.map_nil]
  | cons e es ih =>
    obtain ⟨p, key, value⟩ := e
    rw [entriesSpelled, ih, List.map_cons]

end Expr

end ScriptFront
