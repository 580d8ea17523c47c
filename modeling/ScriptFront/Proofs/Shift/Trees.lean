import Mathlib.Data.List.Forall2
import Mathlib.Data.Option.Basic
import ScriptFront.Proofs.Tree.Positions
import ScriptFront.Proofs.Tree.Rewriting
import ScriptFront.Tree.TailCall

/-!
# Trees in different places

A `Shift` relates the places of one text to those of another and keeps lines apart as they are. Two trees
are related if they are the same without their places and their places are related one by one. There is one
lemma for each way to make a node of related parts, and one for each way in which the grammar looks at a
tree that it has made.
-/

namespace ScriptFront

@[simp] theorem Rewriting.unplaced_position (p : Position) : unplaced.position p = .start := rfl

@[simp] theorem Rewriting.unplaced_function (f : FuncDecl) : unplaced.function f = f := rfl

attribute [simp] Rewriting.expr Rewriting.callOf Rewriting.entry Rewriting.stmt Rewriting.block
  Rewriting.varDecl Rewriting.funcDecl Rewriting.classDecl Rewriting.branch Rewriting.header
  Rewriting.caseBlock Rewriting.catchClause Positions.expr Positions.callOf Positions.entry Positions.stmt
  Positions.block Positions.varDecl Positions.funcDecl Positions.classDecl Positions.branch
  Positions.header Positions.caseBlock Positions.catchClause

/-- A relation between the places of two texts. What stands on one line stands on the same line in the
other text. -/
structure Shift where
  moves : Position → Position → Prop
  line : ∀ {p q}, moves p q → p.line = q.line

namespace Shift

open Rewriting (unplaced)

variable {α : Type} {r : Shift} {p q : Position}

/-- Whether two things are the same without their places, and their places are related one by one. -/
structure Same (r : Shift) (without : α → α) (places : α → List Position) (a b : α) : Prop where
  shape : without a = without b
  places : List.Forall₂ r.moves (places a) (places b)

variable {without : α → α} {places : α → List Position}

theorem Same.list {as bs : List α} (h : List.Forall₂ (Same r without places) as bs) :
    Same r (List.map without) (List.flatMap places) as bs := by
  induction h with
  | nil => exact ⟨rfl, .nil⟩
  | cons hab _ ih =>
    constructor
    · rw [List.map_cons, List.map_cons, hab.shape, ih.shape]
    · rw [List.flatMap_cons, List.flatMap_cons]
      exact List.rel_append hab.places ih.places

theorem Same.option {a b : Option α} (h : Option.Rel (Same r without places) a b) :
    Same r (Option.map without) (fun a => a.toList.flatMap places) a b := by
  cases h with
  | none => exact ⟨rfl, .nil⟩
  | some h => exact ⟨congrArg some h.shape, by simpa using h.places⟩

variable (r)

/-! ## The relations -/

abbrev ident : Ident → Ident → Prop := Same r unplaced.ident Positions.ident

abbrev parameters : Parameters → Parameters → Prop := Same r unplaced.parameters Positions.parameters

abbrev enumDecl : EnumDecl → EnumDecl → Prop := Same r unplaced.enumDecl Positions.enumDecl

abbrev expr : Expr → Expr → Prop := Same r unplaced.expr Positions.expr

abbrev call : Call → Call → Prop := Same r unplaced.callOf Positions.callOf

abbrev entry : MapEntry → MapEntry → Prop := Same r unplaced.entry Positions.entry

abbrev stmt : Stmt → Stmt → Prop := Same r unplaced.stmt Positions.stmt

abbrev varDecl : VarDecl → VarDecl → Prop := Same r unplaced.varDecl Positions.varDecl

abbrev funcDecl : FuncDecl → FuncDecl → Prop := Same r unplaced.funcDecl Positions.funcDecl

abbrev classDecl : ClassDecl → ClassDecl → Prop := Same r unplaced.classDecl Positions.classDecl

abbrev branch : Branch → Branch → Prop := Same r unplaced.branch Positions.branch

abbrev header : ForHeader → ForHeader → Prop := Same r unplaced.header Positions.header

abbrev caseBlock : CaseBlock → CaseBlock → Prop := Same r unplaced.caseBlock Positions.caseBlock

abbrev catchClause : CatchClause → CatchClause → Prop :=
  Same r unplaced.catchClause Positions.catchClause

/-- The statements of a block are looked at once more, when the last one is marked. -/
structure block (a b : Block) : Prop where
  openBrace : r.moves a.openBrace b.openBrace
  statements : List.Forall₂ r.stmt a.statements b.statements
  closeBrace : r.moves a.closeBrace b.closeBrace

variable {r}

theorem block.same {a b : Block} (h : r.block a b) : Same r unplaced.block Positions.block a b := by
  obtain ⟨hopen, hstatements, hclose⟩ := h
  obtain ⟨openBrace, statements, closeBrace⟩ := a
  obtain ⟨openBrace', statements', closeBrace'⟩ := b
  have hs := Same.list hstatements
  constructor
  · simp [hs.shape]
  · simp only [Positions.block, Positions.stmts_eq_flatMap]
    exact .cons hopen (List.rel_append hs.places (.cons hclose .nil))

/-! ## Parts without expressions -/

theorem ident_mk (h : r.moves p q) (name : String) : r.ident ⟨p, name⟩ ⟨q, name⟩ :=
  ⟨rfl, .cons h .nil⟩

/-- A parameter at another place. -/
structure parameter (r : Shift) (a b : Parameter) : Prop where
  place : r.moves a.position b.position
  name : a.name = b.name
  optional : a.optional = b.optional

theorem parameters_mk (h : r.moves p q) {as bs : List Parameter} (hs : List.Forall₂ r.parameter as bs)
    (variadic : Bool) : r.parameters ⟨p, as, variadic⟩ ⟨q, bs, variadic⟩ := by
  have hfields : as.map unplaced.parameter = bs.map unplaced.parameter := by
    induction hs with
    | nil => rfl
    | cons hab _ ih => simp [Rewriting.parameter, hab.name, hab.optional, ih]
  have hplaces : List.Forall₂ r.moves (as.map (·.position)) (bs.map (·.position)) := by
    simpa [List.forall₂_map_left_iff, List.forall₂_map_right_iff] using hs.imp fun _ _ h => h.place
  exact ⟨by simp [Rewriting.parameters, hfields], .cons h hplaces⟩

/-- A member of an enum at another place. -/
structure enumMember (r : Shift) (a b : EnumMember) : Prop where
  place : r.moves a.position b.position
  name : a.name = b.name
  kind : a.kind = b.kind
  value : a.value = b.value

theorem enumDecl_mk (h : r.moves p q) (name : String) (exported : Bool) {as bs : List EnumMember}
    (hs : List.Forall₂ r.enumMember as bs) :
    r.enumDecl ⟨p, name, exported, as⟩ ⟨q, name, exported, bs⟩ := by
  have hmembers : as.map unplaced.enumMember = bs.map unplaced.enumMember := by
    induction hs with
    | nil => rfl
    | cons hab _ ih => simp [Rewriting.enumMember, hab.name, hab.kind, hab.value, ih]
  have hplaces : List.Forall₂ r.moves (as.map (·.position)) (bs.map (·.position)) := by
    simpa [List.forall₂_map_left_iff, List.forall₂_map_right_iff] using hs.imp fun _ _ h => h.place
  exact ⟨by simp [Rewriting.enumDecl, hmembers], .cons h hplaces⟩

/-! ## Expressions -/

section Expressions

variable {e e' x x' y y' z z' : Expr} {m m' : Ident} {c c' : Call} {es es' : List Expr}

/-- Related expressions start at related places. -/
theorem position_expr (h : r.expr e e') : r.moves e.position e'.position := by
  have hplaces := h.places
  obtain ⟨rest, hrest⟩ := List.head?_eq_some_iff.1 (Positions.head?_expr e)
  obtain ⟨rest', hrest'⟩ := List.head?_eq_some_iff.1 (Positions.head?_expr e')
  rw [hrest, hrest'] at hplaces
  exact (List.forall₂_cons.1 hplaces).1

theorem constant (h : r.moves p q) (kind : ConstantKind) (value : String) :
    r.expr (.constant p kind value) (.constant q kind value) :=
  ⟨by simp, by simpa using h⟩

theorem identifier (h : r.ident m m') : r.expr (.identifier m) (.identifier m') :=
  ⟨by simp [h.shape], by simpa using h.places⟩

theorem selector (hx : r.expr x x') (hm : r.ident m m') (optional outermost : Bool) :
    r.expr (.selector x m optional outermost) (.selector x' m' optional outermost) :=
  ⟨by simp [hx.shape, hm.shape], by simpa using List.rel_append hx.places hm.places⟩

theorem index (hx : r.expr x x') (h : r.moves p q) (hy : r.expr y y') (optional outermost : Bool) :
    r.expr (.index x p y optional outermost) (.index x' q y' optional outermost) :=
  ⟨by simp [hx.shape, hy.shape], by simpa using List.rel_append hx.places (.cons h hy.places)⟩

theorem call_mk (hx : r.expr x x') (h : r.moves p q) (hes : List.Forall₂ r.expr es es')
    (spread optional outermost : Bool) :
    r.call ⟨x, p, es, spread, optional, outermost⟩ ⟨x', q, es', spread, optional, outermost⟩ := by
  have hes := Same.list hes
  exact ⟨by simp [hx.shape, hes.shape], by simpa using List.rel_append hx.places (.cons h hes.places)⟩

theorem expr_call : r.expr (.call c) (.call c') ↔ r.call c c' := by
  constructor
  · intro h
    have hshape := h.shape
    have hplaces := h.places
    simp only [Rewriting.expr, Expr.call.injEq] at hshape
    simp only [Positions.expr] at hplaces
    exact ⟨hshape, hplaces⟩
  · intro h
    exact ⟨by simp [h.shape], by simpa using h.places⟩

theorem newInstance (h : r.moves p q) (hx : r.expr x x') (hes : List.Forall₂ r.expr es es')
    (spread : Bool) : r.expr (.newInstance p x es spread) (.newInstance q x' es' spread) := by
  have hes := Same.list hes
  exact ⟨by simp [hx.shape, hes.shape], by simpa using ⟨h, List.rel_append hx.places hes.places⟩⟩

theorem binary (op : BinaryOperator) (hx : r.expr x x') (hy : r.expr y y') :
    r.expr (.binary op x y) (.binary op x' y') :=
  ⟨by simp [hx.shape, hy.shape], by simpa using List.rel_append hx.places hy.places⟩

theorem unary (h : r.moves p q) (op : UnaryOperator) (hx : r.expr x x') :
    r.expr (.unary p op x) (.unary q op x') :=
  ⟨by simp [hx.shape], by simpa using ⟨h, hx.places⟩⟩

theorem ternary (hx : r.expr x x') (hy : r.expr y y') (hz : r.expr z z') :
    r.expr (.ternary x y z) (.ternary x' y' z') :=
  ⟨by simp [hx.shape, hy.shape, hz.shape],
    by simpa using List.rel_append hx.places (List.rel_append hy.places hz.places)⟩

theorem entry_mk (h : r.moves p q) (key : String) (hx : r.expr x x') :
    r.entry ⟨p, key, x⟩ ⟨q, key, x'⟩ :=
  ⟨by simp [hx.shape], by simpa using ⟨h, hx.places⟩⟩

theorem mapLiteral (h : r.moves p q) {es es' : List MapEntry} (hes : List.Forall₂ r.entry es es') :
    r.expr (.mapLiteral p es) (.mapLiteral q es') := by
  have hes := Same.list hes
  exact ⟨by simp [hes.shape], by simpa using ⟨h, hes.places⟩⟩

theorem arrayLiteral (h : r.moves p q) (hes : List.Forall₂ r.expr es es') :
    r.expr (.arrayLiteral p es) (.arrayLiteral q es') := by
  have hes := Same.list hes
  exact ⟨by simp [hes.shape], by simpa using ⟨h, hes.places⟩⟩

theorem function (h : r.moves p q) {ps ps' : Parameters} (hps : r.parameters ps ps') {b b' : Block}
    (hb : r.block b b') : r.expr (.function p ps b) (.function q ps' b') := by
  have hb := hb.same
  exact ⟨by simp [hps.shape, hb.shape], by simpa using ⟨h, List.rel_append hps.places hb.places⟩⟩

/-- The mark of the last link is no place. -/
theorem markOutermost (h : r.expr e e') : r.expr e.markOutermost e'.markOutermost := by
  have hplaces : ∀ e : Expr, Positions.expr e.markOutermost = Positions.expr e := by
    intro e
    cases e with
    | call c => cases c; simp [Expr.markOutermost]
    | _ => simp [Expr.markOutermost]
  constructor
  · rw [Rewriting.expr_markOutermost, Rewriting.expr_markOutermost, h.shape]
  · rw [hplaces, hplaces]
    exact h.places

end Expressions

/-! ## Statements -/

section Statements

variable {x x' y y' : Expr} {c c' : Call} {s s' : Stmt} {ss ss' : List Stmt} {b b' : Block}

theorem varDecl_mk (h : r.moves p q) (name : String) (hx : r.expr x x') (exported isConst : Bool) :
    r.varDecl ⟨p, name, x, exported, isConst⟩ ⟨q, name, x', exported, isConst⟩ :=
  ⟨by simp [hx.shape], by simpa using ⟨h, hx.places⟩⟩

/-- Variables at other places are constants alike. -/
theorem varDecl_isConst {d d' : VarDecl} (h : r.varDecl d d') : d.isConst = d'.isConst := by
  have hshape := h.shape
  cases d
  cases d'
  simp only [Rewriting.varDecl, VarDecl.mk.injEq] at hshape
  exact hshape.2.2.2.2

theorem varDecl_exported {d d' : VarDecl} (h : r.varDecl d d') (exported : Bool) :
    r.varDecl { d with exported := exported } { d' with exported := exported } := by
  obtain ⟨hshape, hplaces⟩ := h
  cases d
  cases d'
  simp only [Rewriting.varDecl, VarDecl.mk.injEq] at hshape
  simp only [Positions.varDecl] at hplaces
  constructor
  · simp [hshape]
  · simpa only [Positions.varDecl] using hplaces

theorem funcDecl_mk (h : r.moves p q) (name : String) {ps ps' : Parameters}
    (hps : r.parameters ps ps') (exported : Bool) (attributes : List String) (hb : r.block b b')
    (receiver : Option String) :
    r.funcDecl ⟨p, name, ps, exported, attributes, b, receiver⟩
      ⟨q, name, ps', exported, attributes, b', receiver⟩ := by
  have hb := hb.same
  exact ⟨by simp [hps.shape, hb.shape], by simpa using ⟨h, List.rel_append hps.places hb.places⟩⟩

theorem classDecl_mk (h : r.moves p q) (name : String) (exported : Bool) (attributes : List String)
    {fields fields' : List VarDecl} (hfields : List.Forall₂ r.varDecl fields fields')
    {methods methods' getters getters' setters setters' : List FuncDecl}
    (hmethods : List.Forall₂ r.funcDecl methods methods')
    (hgetters : List.Forall₂ r.funcDecl getters getters')
    (hsetters : List.Forall₂ r.funcDecl setters setters') :
    r.classDecl ⟨p, name, exported, attributes, fields, methods, getters, setters⟩
      ⟨q, name, exported, attributes, fields', methods', getters', setters'⟩ := by
  have hfields := Same.list hfields
  have hmethods := Same.list hmethods
  have hgetters := Same.list hgetters
  have hsetters := Same.list hsetters
  exact ⟨by simp [hfields.shape, hmethods.shape, hgetters.shape, hsetters.shape],
    by simpa using ⟨h, List.rel_append hfields.places (List.rel_append hmethods.places
      (List.rel_append hgetters.places hsetters.places))⟩⟩

theorem stmt_varDecl {d d' : VarDecl} (h : r.varDecl d d') : r.stmt (.varDecl d) (.varDecl d') :=
  ⟨by simp [h.shape], by simpa using h.places⟩

theorem stmt_funcDecl {d d' : FuncDecl} (h : r.funcDecl d d') : r.stmt (.funcDecl d) (.funcDecl d') :=
  ⟨by simp [h.shape], by simpa using h.places⟩

theorem stmt_classDecl {d d' : ClassDecl} (h : r.classDecl d d') :
    r.stmt (.classDecl d) (.classDecl d') :=
  ⟨by simp [h.shape], by simpa using h.places⟩

theorem stmt_enumDecl {d d' : EnumDecl} (h : r.enumDecl d d') : r.stmt (.enumDecl d) (.enumDecl d') :=
  ⟨by simp [h.shape], by simpa using h.places⟩

theorem branch_mk (hx : r.expr x x') (hb : r.block b b') : r.branch ⟨x, b⟩ ⟨x', b'⟩ := by
  have hb := hb.same
  exact ⟨by simp [hx.shape, hb.shape], by simpa using List.rel_append hx.places hb.places⟩

/-- Blocks that may be missing. -/
theorem block_option {o o' : Option Block} (h : Option.Rel r.block o o') :
    Same r (Option.map unplaced.block) (fun o => o.toList.flatMap Positions.block) o o' := by
  cases h with
  | none => exact ⟨rfl, .nil⟩
  | some h => exact .option (.some h.same)

theorem ifElse (h : r.moves p q) {bs bs' : List Branch} (hbs : List.Forall₂ r.branch bs bs')
    {o o' : Option Block} (ho : Option.Rel r.block o o') :
    r.stmt (.ifElse p bs o) (.ifElse q bs' o') := by
  have hbs := Same.list hbs
  have ho := block_option ho
  exact ⟨by simp [hbs.shape, ho.shape], by simpa using ⟨h, List.rel_append hbs.places ho.places⟩⟩

theorem whileLoop (h : r.moves p q) (hx : r.expr x x') (hb : r.block b b') :
    r.stmt (.whileLoop p x b) (.whileLoop q x' b') := by
  have hb := hb.same
  exact ⟨by simp [hx.shape, hb.shape], by simpa using ⟨h, List.rel_append hx.places hb.places⟩⟩

theorem classic (hss : List.Forall₂ r.stmt ss ss') {o o' : Option Expr} (ho : Option.Rel r.expr o o')
    {step step' : Option Stmt} (hstep : Option.Rel r.stmt step step') :
    r.header (.classic ss o step) (.classic ss' o' step') := by
  have hss := Same.list hss
  have ho := Same.option ho
  have hstep := Same.option hstep
  exact ⟨by simp [hss.shape, ho.shape, hstep.shape],
    by simpa using List.rel_append hss.places (List.rel_append ho.places hstep.places)⟩

theorem keys {i i' : Ident} (hi : r.ident i i') (hx : r.expr x x') :
    r.header (.keys i x) (.keys i' x') :=
  ⟨by simp [hi.shape, hx.shape], by simpa using List.rel_append hi.places hx.places⟩

theorem values {i i' : Ident} (hi : r.ident i i') (hx : r.expr x x') :
    r.header (.values i x) (.values i' x') :=
  ⟨by simp [hi.shape, hx.shape], by simpa using List.rel_append hi.places hx.places⟩

theorem forLoop (h : r.moves p q) {head head' : ForHeader} (hhead : r.header head head')
    (hb : r.block b b') : r.stmt (.forLoop p head b) (.forLoop q head' b') := by
  have hb := hb.same
  exact ⟨by simp [hhead.shape, hb.shape], by simpa using ⟨h, List.rel_append hhead.places hb.places⟩⟩

theorem caseBlock_mk (h : r.moves p q) {o o' : Option Expr} (ho : Option.Rel r.expr o o')
    (hss : List.Forall₂ r.stmt ss ss') : r.caseBlock ⟨p, o, ss⟩ ⟨q, o', ss'⟩ := by
  have ho := Same.option ho
  have hss := Same.list hss
  exact ⟨by simp [ho.shape, hss.shape], by simpa using ⟨h, List.rel_append ho.places hss.places⟩⟩

theorem position_caseBlock {b b' : CaseBlock} (h : r.caseBlock b b') :
    r.moves b.position b'.position := by
  have hplaces := h.places
  cases b
  cases b'
  simp only [Positions.caseBlock] at hplaces
  exact (List.forall₂_cons.1 hplaces).1

theorem switch (h : r.moves p q) (hx : r.expr x x') {bs bs' : List CaseBlock}
    (hbs : List.Forall₂ r.caseBlock bs bs') {o o' : Option CaseBlock}
    (ho : Option.Rel r.caseBlock o o') : r.stmt (.switch p x bs o) (.switch q x' bs' o') := by
  have hbs := Same.list hbs
  have ho := Same.option ho
  exact ⟨by simp [hx.shape, hbs.shape, ho.shape],
    by simpa using ⟨h, List.rel_append hx.places (List.rel_append hbs.places ho.places)⟩⟩

theorem breaks (h : r.moves p q) (label : Option String) : r.stmt (.breaks p label) (.breaks q label) :=
  ⟨by simp, by simpa using h⟩

theorem continues (h : r.moves p q) (label : Option String) :
    r.stmt (.continues p label) (.continues q label) :=
  ⟨by simp, by simpa using h⟩

theorem returns (h : r.moves p q) {o o' : Option Expr} (ho : Option.Rel r.expr o o') :
    r.stmt (.returns p o) (.returns q o') := by
  have ho := Same.option ho
  exact ⟨by simp [ho.shape], by simpa using ⟨h, ho.places⟩⟩

theorem throws (h : r.moves p q) (hx : r.expr x x') : r.stmt (.throws p x) (.throws q x') :=
  ⟨by simp [hx.shape], by simpa using ⟨h, hx.places⟩⟩

theorem catchClause_mk (h : r.moves p q) {o o' : Option Ident} (ho : Option.Rel r.ident o o')
    (hb : r.block b b') : r.catchClause ⟨p, o, b⟩ ⟨q, o', b'⟩ := by
  have hb := hb.same
  cases ho with
  | none =>
    refine ⟨by simp [hb.shape], ?_⟩
    simp only [Positions.catchClause]
    exact .cons h hb.places
  | some hi =>
    refine ⟨by simp [hi.shape, hb.shape], ?_⟩
    simp only [Positions.catchClause]
    exact .cons h (List.rel_append hi.places hb.places)

theorem tryCatch (h : r.moves p q) (hb : r.block b b') {handler handler' : Option CatchClause}
    (hhandler : Option.Rel r.catchClause handler handler') {o o' : Option Block}
    (ho : Option.Rel r.block o o') :
    r.stmt (.tryCatch p b handler o) (.tryCatch q b' handler' o') := by
  have hb := hb.same
  have hhandler := Same.option hhandler
  have ho := block_option ho
  exact ⟨by simp [hb.shape, hhandler.shape, ho.shape],
    by simpa using ⟨h, List.rel_append hb.places (List.rel_append hhandler.places ho.places)⟩⟩

theorem stmt_call (h : r.call c c') : r.stmt (.call c) (.call c') :=
  ⟨by simp [h.shape], by simpa using h.places⟩

theorem stmt_tailCall (h : r.call c c') : r.stmt (.tailCall c) (.tailCall c') :=
  ⟨by simp [h.shape], by simpa using h.places⟩

theorem assign (hx : r.expr x x') (hy : r.expr y y') : r.stmt (.assign x y) (.assign x' y') :=
  ⟨by simp [hx.shape, hy.shape], by simpa using List.rel_append hx.places hy.places⟩

theorem step (op : StepOperator) (hx : r.expr x x') : r.stmt (.step op x) (.step op x') :=
  ⟨by simp [hx.shape], by simpa using hx.places⟩

theorem delete (h : r.moves p q) (object property : String) :
    r.stmt (.delete p object property) (.delete q object property) :=
  ⟨by simp, by simpa using h⟩

theorem stmt_block (hb : r.block b b') : r.stmt (.block b) (.block b') := by
  have hb := hb.same
  exact ⟨by simp [hb.shape], by simpa using hb.places⟩

theorem label (h : r.moves p q) (name : String) (hs : r.stmt s s') :
    r.stmt (.label p name s) (.label q name s') :=
  ⟨by simp [hs.shape], by simpa using ⟨h, hs.places⟩⟩

end Statements

end Shift

end ScriptFront
