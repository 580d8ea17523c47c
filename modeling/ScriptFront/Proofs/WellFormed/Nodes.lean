import ScriptFront.Production.SourceFile
import ScriptFront.Proofs.Production.Reads
import ScriptFront.Proofs.TailCall.Marked
import ScriptFront.Proofs.Tree.Nodes

/-!
# Well-formed trees

The types of a tree allow more than the grammar writes: any statement behind a label, an exported variable
in the header of a loop, a class in a block. `Node.Formed` says of one node that its parts are of the kind
that the stages behind the parser expect there, and `Node.WellFormed` says it of every node of a tree.
-/

namespace ScriptFront

/-- What a tree was read from, and whether its tail calls were to be marked. -/
structure Reading where
  file : Cursor
  optimize : Bool

/-! ## Kinds of nodes -/

namespace Expr

/-- What may stand behind `new`: a name, or a member of one. -/
def NamesType : Expr → Prop
  | identifier _ => True
  | selector (identifier _) _ optional _ => optional = false
  | _ => False

end Expr

namespace Stmt

/-- Whether a statement may stand below the statements of a file. Classes are declared for a whole file
only, as is everything that is exported or has attributes; tail calls have a place of their own. -/
def Inner : Stmt → Prop
  | varDecl d => d.exported = false
  | funcDecl f => f.exported = false ∧ f.attributes = []
  | enumDecl d => d.exported = false
  | classDecl _ => False
  | tailCall _ => False
  | _ => True

/-- A call, an assignment or a step. -/
def Simple : Stmt → Prop
  | call _ | assign _ _ | step _ _ => True
  | _ => False

/-- What a label may name. -/
def Jumpable : Stmt → Prop
  | forLoop .. | whileLoop .. | switch .. => True
  | _ => False

/-- A variable that is declared with this keyword, and not exported. -/
def Declares (isConst : Bool) (s : Stmt) : Prop :=
  ∃ d : VarDecl, s = .varDecl d ∧ d.isConst = isConst ∧ d.exported = false

theorem Simple.inner {s : Stmt} (h : s.Simple) : s.Inner := by
  cases s <;> first | exact h | trivial

end Stmt

/-! ## The parts of a node -/

/-- A last argument that is spread is there. -/
def Call.Formed (c : Call) : Prop := c.spread = true → c.arguments ≠ []

def Block.Formed (b : Block) : Prop := ∀ s ∈ b.statements, s.Inner

namespace ForHeader

/-- How a loop that counts may start: with declarations behind one keyword, or with one simple statement
at most. -/
def Starts (declarations : List Stmt) : Prop :=
  (∃ isConst, ∀ s ∈ declarations, s.Declares isConst) ∨
    declarations.length ≤ 1 ∧ ∀ s ∈ declarations, s.Simple

def Formed : ForHeader → Prop
  | classic declarations _ step => Starts declarations ∧ ∀ s ∈ step, s.Simple
  | keys .. | values .. => True

end ForHeader

/-- What is expected of a function: where it is a method of a prototype it is written as one, and a tail
call stands at its end only. -/
structure FuncDecl.Formed (r : Reading) (f : FuncDecl) : Prop where
  receiver : ∀ type ∈ f.receiver, f.exported = false ∧ ∃ c, r.file.Reaches 0 c ∧
    c.startsPrototypeMethod = true ∧ c.peek.text = type ∧ (c.peekNth 2).position = f.position ∧
    (c.peekNth 4).text = f.name
  before : ∀ s ∈ f.body.statements.dropLast, s.Inner
  last : ∀ s ∈ f.body.statements.getLast?, s.Inner ∨ ∃ c, s = .tailCall c ∧ r.optimize = true ∧
    f.receiver = none ∧ c.names f.name = true

/-- The members of a class are plain functions. -/
def ClassDecl.Formed (c : ClassDecl) : Prop :=
  ∀ f ∈ c.methods ++ c.getters ++ c.setters, f.receiver = none ∧ f.attributes = []

namespace Node

/-- Whether the parts of a node are of the kind that is expected there. -/
def Formed (r : Reading) : Node → Prop
  | expr (.call c) => c.Formed
  | expr (.newInstance _ typeName arguments spread) =>
    typeName.NamesType ∧ (spread = true → arguments ≠ [])
  | expr (.function _ _ body) => body.Formed
  | expr _ => True
  | stmt (.funcDecl f) => f.Formed r
  | stmt (.classDecl c) => c.Formed
  | stmt (.ifElse _ branches otherwise) =>
    branches ≠ [] ∧ (∀ b ∈ branches, b.body.Formed) ∧ ∀ b ∈ otherwise, b.Formed
  | stmt (.whileLoop _ _ body) => body.Formed
  | stmt (.forLoop _ header body) => header.Formed ∧ body.Formed
  | stmt (.switch _ _ cases otherwise) =>
    ∀ b ∈ cases ++ otherwise.toList, ∀ s ∈ b.statements, s.Inner
  | stmt (.tryCatch _ body handler finalizer) =>
    body.Formed ∧ (∀ c ∈ handler, c.body.Formed) ∧ ∀ b ∈ finalizer, b.Formed
  | stmt (.call c) => c.Formed
  | stmt (.tailCall c) => c.Formed
  | stmt (.block b) => b.Formed
  | stmt (.label _ _ body) => body.Jumpable
  | stmt _ => True

/-- Whether every node of a tree is formed as expected. -/
def WellFormed (r : Reading) (n : Node) : Prop := n.Everywhere (Formed r)

abbrev AllWellFormed (r : Reading) (ns : List Node) : Prop := ∀ n ∈ ns, n.WellFormed r

variable {r : Reading} {n : Node}

theorem WellFormed.mk (hself : n.Formed r) (hparts : AllWellFormed r n.parts) : n.WellFormed r :=
  everywhere_iff.2 ⟨hself, hparts⟩

theorem WellFormed.self (h : n.WellFormed r) : n.Formed r := Everywhere.self h

theorem WellFormed.parts (h : n.WellFormed r) : AllWellFormed r n.parts := Everywhere.parts h

theorem allWellFormed_exprs {es : List Expr} :
    AllWellFormed r (es.map .expr) ↔ ∀ e ∈ es, (expr e).WellFormed r := List.forall_mem_map

theorem allWellFormed_stmts {ss : List Stmt} :
    AllWellFormed r (ss.map .stmt) ↔ ∀ s ∈ ss, (stmt s).WellFormed r := List.forall_mem_map

end Node

/-- Whether every node of an expression is formed as expected. -/
abbrev Expr.WellFormed (r : Reading) (e : Expr) : Prop := (Node.expr e).WellFormed r

/-- Whether every node of a statement is formed as expected. -/
abbrev Stmt.WellFormed (r : Reading) (s : Stmt) : Prop := (Node.stmt s).WellFormed r

/-- A statement that may stand in a block, well formed itself. -/
def Stmt.Fits (r : Reading) (s : Stmt) : Prop := s.Inner ∧ s.WellFormed r

/-- A block of statements that may stand there. -/
def Block.Fits (r : Reading) (b : Block) : Prop := ∀ s ∈ b.statements, s.Fits r

variable {r : Reading} {b : Block}

theorem Block.Fits.formed (h : b.Fits r) : b.Formed := fun s hs => (h s hs).1

theorem Block.Fits.parts (h : b.Fits r) : Node.AllWellFormed r b.parts :=
  Node.allWellFormed_stmts.2 fun s hs => (h s hs).2

/-! ## Classes in a tree -/

theorem Stmt.Inner.not_classDecl {s : Stmt} (h : s.Inner) (c : ClassDecl) : s ≠ .classDecl c := by
  rintro rfl
  exact h

theorem Stmt.Simple.not_classDecl {s : Stmt} (h : s.Simple) (c : ClassDecl) : s ≠ .classDecl c :=
  h.inner.not_classDecl c

theorem ForHeader.Formed.not_classDecl {header : ForHeader} (h : header.Formed) (c : ClassDecl) :
    .stmt (.classDecl c) ∉ header.parts := by
  cases header with
  | classic declarations condition step =>
    obtain ⟨hdecls, hstep⟩ := h
    simp only [ForHeader.parts, List.mem_append, List.mem_map, Option.mem_toList, not_or]
    refine ⟨⟨?_, by simp⟩, ?_⟩
    · rintro ⟨s, hs, heq⟩
      cases heq
      obtain ⟨isConst, hvars⟩ | ⟨-, hsimple⟩ := hdecls
      · obtain ⟨d, hd, -⟩ := hvars _ hs
        cases hd
      · exact (hsimple _ hs).not_classDecl c rfl
    · rintro ⟨s, hs, heq⟩
      cases heq
      exact (hstep _ hs).not_classDecl c rfl
  | keys binding subject => simp [ForHeader.parts]
  | values binding subject => simp [ForHeader.parts]

theorem FuncDecl.Formed.not_classDecl {f : FuncDecl} (h : f.Formed r) (c : ClassDecl) :
    .classDecl c ∉ f.body.statements := by
  intro hc
  obtain hnil | ⟨front, s, hbody⟩ := f.body.statements.eq_nil_or_concat
  · rw [hnil] at hc
    cases hc
  · have hbefore := h.before
    have hlast := h.last
    rw [hbody, List.concat_eq_append] at hc hbefore hlast
    obtain hc | hc := List.mem_append.1 hc
    · exact (hbefore _ (by simpa using hc)).not_classDecl c rfl
    · cases List.mem_singleton.1 hc
      obtain hinner | ⟨call, hcall, -⟩ := hlast (.classDecl c) (by simp)
      · exact hinner.not_classDecl c rfl
      · cases hcall

theorem Block.Formed.not_classDecl (h : b.Formed) (c : ClassDecl) : .stmt (.classDecl c) ∉ b.parts := by
  intro hc
  obtain ⟨s, hs, heq⟩ := List.mem_map.1 hc
  cases heq
  exact (h _ hs).not_classDecl c rfl

namespace Node

variable {n : Node}

/-- No class is declared right below a node. -/
theorem Formed.not_classDecl (h : n.Formed r) (c : ClassDecl) : .stmt (.classDecl c) ∉ n.parts := by
  intro hc
  cases n with
  | expr e =>
    cases e with
    | function p parameters body => exact Block.Formed.not_classDecl h c hc
    | _ => simp [parts, Expr.parts, Call.parts] at hc
  | stmt s =>
    cases s with
    | funcDecl f =>
      obtain ⟨s, hs, heq⟩ := List.mem_map.1 hc
      cases heq
      exact FuncDecl.Formed.not_classDecl h c hs
    | ifElse p branches otherwise =>
      obtain ⟨-, hbranches, hotherwise⟩ := h
      simp only [parts, Stmt.parts, Branch.parts, List.mem_append, List.mem_flatMap, List.mem_cons,
        reduceCtorEq, false_or, Option.mem_toList] at hc
      obtain ⟨b, hb, hc⟩ | ⟨b, hb, hc⟩ := hc
      · exact (hbranches b hb).not_classDecl c hc
      · exact (hotherwise b hb).not_classDecl c hc
    | whileLoop p condition body =>
      obtain heq | hc := List.mem_cons.1 hc
      · cases heq
      · exact Block.Formed.not_classDecl h c hc
    | forLoop p header body =>
      obtain hc | hc := List.mem_append.1 hc
      · exact h.1.not_classDecl c hc
      · exact h.2.not_classDecl c hc
    | switch p subject cases otherwise =>
      simp only [parts, Stmt.parts, CaseBlock.parts, List.mem_cons, List.mem_flatMap, List.mem_append,
        List.mem_map, reduceCtorEq, false_or, and_false, exists_false] at hc
      obtain ⟨b, hb, s, hs, heq⟩ := hc
      cases heq
      exact (h b (List.mem_append.2 hb) _ hs).not_classDecl c rfl
    | tryCatch p body handler finalizer =>
      obtain ⟨hbody, hhandler, hfinalizer⟩ := h
      simp only [parts, Stmt.parts, CatchClause.parts, List.mem_append, List.mem_flatMap,
        Option.mem_toList] at hc
      obtain (hc | ⟨k, hk, hc⟩) | ⟨b, hb, hc⟩ := hc
      · exact hbody.not_classDecl c hc
      · exact (hhandler k hk).not_classDecl c hc
      · exact (hfinalizer b hb).not_classDecl c hc
    | block b => exact Block.Formed.not_classDecl h c hc
    | label p name body =>
      cases List.mem_singleton.1 hc
      exact h
    | _ => simp [parts, Stmt.parts, Call.parts, ClassDecl.parts] at hc

/-- A class in a well-formed tree is the whole tree. -/
theorem WellFormed.eq_of_classDecl {c : ClassDecl} (h : n.WellFormed r)
    (hc : n.Holds (.stmt (.classDecl c))) : n = .stmt (.classDecl c) := by
  generalize hm : Node.stmt (.classDecl c) = m at hc
  induction hc with
  | self => rfl
  | inside hpart hc ih =>
    obtain rfl := ih (h.parts _ hpart) hm
    exact absurd (hm ▸ hpart) (h.self.not_classDecl c)

end Node

end ScriptFront
