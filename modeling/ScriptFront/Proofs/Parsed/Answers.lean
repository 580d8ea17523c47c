import ScriptFront.Proofs.Enum.Members
import ScriptFront.Proofs.Expression.Parameters
import ScriptFront.Proofs.Parsed.Switches
import ScriptFront.Proofs.Production.StatementsRead
import ScriptFront.Proofs.Token.Places
import ScriptFront.Proofs.Tree.Nodes

/-!
# What productions answer

`Answers file Q p` says that whatever `p` answers, wherever in the file it starts, is as `Q` says. There is
one lemma for each way in which productions are put together. `Node.Proper` is what holds of a node by
the way it is made, and `Node.Parsed` says it of every node of a tree.
-/

namespace ScriptFront

/-! ## Nodes of a parsed tree -/

/-- Whether the cases and the default of a switch are blocks that stand in the file one behind the other
and keep the rules. -/
structure SwitchIn (file : Cursor) (cases : List CaseBlock) (otherwise : Option CaseBlock)
    (blocks : List CaseBlock) : Prop where
  cases : cases = blocks.filter (·.label.isSome)
  otherwise : otherwise.toList = blocks.filter (·.label.isNone)
  places : (blocks.map (·.position)).Sublist file.places
  rules : SwitchRules blocks

namespace Node

/-- What holds of a node by the way it is made. Attributes are given to whole constructs of a file, so
nothing has any as long as it is read. -/
def Proper (file : Cursor) : Node → Prop
  | stmt (.switch _ _ cases otherwise) => ∃ blocks, SwitchIn file cases otherwise blocks
  | stmt (.funcDecl f) => f.attributes = [] ∧ f.parameters.IsWritten file
  | stmt (.classDecl c) => c.attributes = []
  | stmt (.enumDecl d) => d.IsWritten file
  | expr (.function _ parameters _) => parameters.IsWritten file
  | _ => True

/-- Whether every node of a tree is made as the grammar makes it. -/
def Parsed (file : Cursor) (n : Node) : Prop := n.Everywhere (Proper file)

abbrev AllParsed (file : Cursor) (ns : List Node) : Prop := ∀ n ∈ ns, n.Parsed file

variable {file : Cursor} {n : Node}

theorem Parsed.mk (hself : n.Proper file) (hparts : AllParsed file n.parts) : n.Parsed file :=
  everywhere_iff.2 ⟨hself, hparts⟩

theorem Parsed.parts (h : n.Parsed file) : AllParsed file n.parts := Everywhere.parts h

theorem allParsed_exprs {es : List Expr} :
    AllParsed file (es.map .expr) ↔ ∀ e ∈ es, (expr e).Parsed file := List.forall_mem_map

theorem allParsed_stmts {ss : List Stmt} :
    AllParsed file (ss.map .stmt) ↔ ∀ s ∈ ss, (stmt s).Parsed file := List.forall_mem_map

end Node

/-- Whether every node of an expression is made as the grammar makes it. -/
abbrev Expr.Parsed (file : Cursor) (e : Expr) : Prop := (Node.expr e).Parsed file

/-- Whether every node of a statement is made as the grammar makes it. -/
abbrev Stmt.Parsed (file : Cursor) (s : Stmt) : Prop := (Node.stmt s).Parsed file

namespace Production

variable {α β σ : Type}

/-- Whether what `p` answers is as `Q` says, wherever in the file it starts. It stays in the file. -/
structure Answers (file : Cursor) (Q : α → Prop) (p : Production α) : Prop where
  holds : file.Closed → ∀ {ctx : Context} {c : Cursor} {a : α} {d : Cursor}, file.Reaches 0 c →
    p ctx c = .ok (a, d) → Q a ∧ file.Reaches 0 d

/-- Whether a round of a repetition ends in a state as `I` says or in an answer as `Q` says. -/
def Turn.Is (I : σ → Prop) (Q : β → Prop) : Turn σ β → Prop
  | .again s => I s
  | .done b => Q b

namespace Answers

variable {file : Cursor} {Q : α → Prop} {R : β → Prop} {p : Production α}

theorem weaken {Q' : α → Prop} (hp : Answers file Q p) (h : ∀ a, Q a → Q' a) : Answers file Q' p :=
  ⟨fun hfile _ _ _ _ hc hok => (hp.holds hfile hc hok).imp_left (h _)⟩

theorem of_advances [hp : Advances p] : Answers file (fun _ => True) p :=
  ⟨fun hfile _ _ _ _ hc hok => ⟨trivial, hc.trans (hp.reads.reaches (hc.closed hfile) hok)⟩⟩

theorem pure {a : α} (h : Q a) : Answers file Q (Pure.pure a) := by
  refine ⟨fun _ _ _ _ _ hc hok => ?_⟩
  cases hok
  exact ⟨h, hc⟩

theorem fail (cause : Cause) (position : Position) :
    Answers file Q (Production.fail cause position) :=
  ⟨fun _ _ _ _ _ _ hok => nomatch hok⟩

theorem failHere (cause : String → Cause) : Answers file Q (Production.failHere cause) :=
  ⟨fun _ _ _ _ _ _ hok => nomatch hok⟩

theorem bind {f : α → Production β} (hp : Answers file Q p)
    (hf : ∀ a, Q a → Answers file R (f a)) : Answers file R (p >>= f) := by
  refine ⟨fun hfile _ _ _ _ hc hok => ?_⟩
  obtain ⟨a, d, hp', hf'⟩ := bind_ok.1 hok
  obtain ⟨ha, hd⟩ := hp.holds hfile hc hp'
  exact (hf a ha).holds hfile hd hf'

/-- What is read first takes no part in the answer. -/
theorem read {f : α → Production β} [Advances p] (hf : ∀ a, Answers file R (f a)) :
    Answers file R (p >>= f) :=
  of_advances.bind fun a _ => hf a

theorem map {f : α → β} (hp : Answers file Q p) (h : ∀ a, Q a → R (f a)) :
    Answers file R (f <$> p) :=
  hp.bind fun a ha => .pure (h a ha)

theorem some (hp : Answers file Q p) :
    Answers file (fun a => ∀ x ∈ a, Q x) (Option.some <$> p) :=
  hp.map fun a ha x hx => by cases hx; exact ha

theorem ite {b : Prop} [Decidable b] {q : Production α} (hp : Answers file Q p)
    (hq : Answers file Q q) : Answers file Q (if b then p else q) := by
  split
  · exact hp
  · exact hq

theorem nested (hp : Answers file Q p) : Answers file Q (Production.nested p) := by
  refine ⟨fun hfile ctx c _ _ hc hok => ?_⟩
  unfold Production.nested at hok
  split at hok
  · cases hok
  · exact hp.holds hfile hc hok

/-- A repetition keeps what each of its rounds keeps. -/
theorem loop {I : σ → Prop} {Q : β → Prop} {step : σ → Production (Turn σ β)}
    (hstep : ∀ s, I s → Answers file (Turn.Is I Q) (step s)) {s : σ} (hs : I s) :
    Answers file Q (Production.loop step s) := by
  have hrounds : ∀ rounds s, I s → Answers file Q (loopFrom step rounds s) := by
    intro rounds
    induction rounds with
    | nil => exact fun s _ => .read fun _ => .fail _ _
    | cons _ rounds ih =>
      intro s hs
      refine (hstep s hs).bind fun t ht => ?_
      cases t with
      | again s => exact ih s ht
      | done b => exact .pure ht
  exact ⟨fun hfile _ c _ _ hc hok => (hrounds (c.last :: c.ahead) s hs).holds hfile hc hok⟩

theorem listed {close : Mark} (hp : Answers file Q p) :
    Answers file (fun items => ∀ a ∈ items, Q a) (Production.listed close p) := by
  have hitems : ∀ {a : α} {items : List α}, Q a → (∀ a ∈ items, Q a) →
      ∀ b ∈ (a :: items).reverse, Q b := by
    intro a items ha hitems b hb
    exact List.forall_mem_cons.2 ⟨ha, hitems⟩ b (List.mem_reverse.1 hb)
  unfold Production.listed
  refine bind (Q := fun items => ∀ a ∈ items, Q a)
    (loop (I := fun items => ∀ a ∈ items, Q a) (fun items h => ?_) (by simp))
    fun items h => .read fun _ => .pure h
  refine .read fun closed => .ite (.pure (by simpa [Turn.Is] using h)) ?_
  refine hp.bind fun a ha => .read fun comma => .ite (.pure ?_) (.pure (hitems ha h))
  exact List.forall_mem_cons.2 ⟨ha, h⟩

end Answers

end Production

end ScriptFront
