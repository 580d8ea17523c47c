import ScriptFront.Production.SourceFile
import ScriptFront.Proofs.Attribute.Runs
import ScriptFront.Proofs.Production.Reads

/-!
# Constructs and the attributes before them

What a construct adds to a file does not depend on what the file holds already, so a construct can be read
on its own, for an empty draft. The draft decides only what becomes of the attributes: a function or a
class takes the run above it, and anything else leaves them to the file or is refused.
-/

namespace ScriptFront

/-- The words that declare something that can have attributes. -/
def Kind.isAttributed : Kind → Bool
  | .keyword .functionWord | .keyword .classWord => true
  | _ => false

/-- Whether a function or a class is declared here, exported or not. -/
def Cursor.startsAttributed (c : Cursor) : Bool :=
  if c.peekKind = .keyword .exportWord then (c.peekNth 1).kind.isAttributed else c.peekKind.isAttributed

theorem Cursor.exportsAttributed_eq (c : Cursor) :
    c.exportsAttributed = (c.peekNth 1).kind.isAttributed := by
  unfold exportsAttributed Kind.isAttributed
  generalize (c.peekNth 1).kind = kind
  split <;> simp_all

namespace Draft

/-- A draft with what another one holds behind it. -/
def plus (d added : Draft) : Draft :=
  { d with
    imports := added.imports ++ d.imports
    statements := added.statements ++ d.statements
    globals := added.globals ++ d.globals }

/-- A draft whose functions and classes have the attributes. -/
def withAttributes (attributes : List String) (d : Draft) : Draft :=
  { d with statements := d.statements.map (Stmt.withAttributes attributes) }

end Draft

theorem Stmt.withAttributes_withAttributes (xs ys : List String) (s : Stmt) :
    (s.withAttributes xs).withAttributes ys = s.withAttributes ys := by
  cases s <;> rfl

namespace Grammar

open Production

variable {g : Grammar} {ctx : Context} {c : Cursor} {d : Draft} {p : Position} {t : Token}

/-- Whether what is read behind the attributes only adds to the draft. -/
def Adds (k : Draft → Production Draft) : Prop :=
  ∀ d ctx c, k d ctx c = (k .empty ctx c).map fun r => (d.plus r.1, r.2)

theorem Adds.pure {f : Draft → Draft} (h : ∀ d, f d = d.plus (f .empty)) :
    Adds fun d => Pure.pure (f d) := by
  intro d ctx c
  exact congrArg (fun d => Except.ok (d, c)) (h d)

theorem Adds.read {α : Type} {q : Production α} {k : Draft → α → Production Draft}
    (h : ∀ a, Adds fun d => k d a) : Adds fun d => q >>= k d := by
  intro d ctx c
  refine (run_bind q (k d) ctx c).trans (.trans ?_ (congrArg _ (run_bind q (k .empty) ctx c).symm))
  cases q ctx c with
  | error e => rfl
  | ok r => exact h r.1 d ctx r.2

theorem run_settled_bind (k : Draft → Production Draft) :
    (settled d p >>= k) ctx c =
      match d.attributes.settle p d.started with
      | .ok run => k { d with attributes := run } ctx c
      | .error e => .error e := by
  rw [run_bind]
  unfold settled
  cases d.attributes.settle p d.started <;> rfl

theorem run_attributed (declaration : Production (Option Stmt)) :
    attributed d p declaration ctx c = (declaration ctx c).map fun r =>
      ({ d with attributes := (d.attributes.takeFor p).2 }.plus
        { Draft.empty with
          statements := (r.1.map (Stmt.withAttributes (d.attributes.takeFor p).1)).toList }, r.2) := by
  unfold attributed
  dsimp only
  rw [run_bind]
  cases declaration ctx c with
  | error e => rfl
  | ok r =>
    obtain ⟨s, e⟩ := r
    cases s <;> rfl

/-- A declaration is the same with attributes and without, but for the attributes. -/
theorem attributed_eq (declaration : Production (Option Stmt)) :
    attributed d p declaration ctx c = (attributed .empty p declaration ctx c).map fun r =>
      ({ d with attributes := (d.attributes.takeFor p).2 }.plus
        (r.1.withAttributes (d.attributes.takeFor p).1), r.2) := by
  rw [run_attributed, run_attributed]
  cases declaration ctx c with
  | error e => rfl
  | ok r =>
    obtain ⟨s, e⟩ := r
    cases s with
    | none => rfl
    | some s =>
      refine congrArg Except.ok (Prod.ext ?_ rfl)
      simp [Draft.plus, Draft.withAttributes, Stmt.withAttributes_withAttributes, Draft.empty]

/-- A function or a class takes the run above it. -/
theorem construct_attributed (h : c.startsAttributed = true) (d : Draft) :
    g.construct d c.peek ctx c = (g.construct .empty c.peek ctx c).map fun r =>
      ({ d with attributes := (d.attributes.takeFor c.peek.position).2 }.plus
        (r.1.withAttributes (d.attributes.takeFor c.peek.position).1), r.2) := by
  unfold Cursor.startsAttributed at h
  unfold construct
  rw [show c.peek.kind = c.peekKind from rfl]
  by_cases hexport : c.peekKind = .keyword .exportWord
  · rw [if_pos hexport, ← c.exportsAttributed_eq] at h
    rw [hexport]
    simp only [run_asks_bind, if_pos h]
    exact attributed_eq _
  · rw [if_neg hexport] at h
    unfold Kind.isAttributed at h
    split at h
    · next hkind =>
      rw [hkind]
      exact attributed_eq _
    · next hkind =>
      rw [hkind]
      exact attributed_eq _
    · cases h

/-- Anything else settles the attributes first, unless it is refused altogether. -/
theorem construct_settled (g : Grammar) (ctx : Context) (h : c.startsAttributed = false) :
    (∃ e, ∀ d : Draft, g.construct d c.peek ctx c = .error e) ∨
    ∃ k, Adds k ∧ ∀ d : Draft, (c.peekKind = .keyword .importWord → d.statements = []) →
      g.construct d c.peek ctx c = (settled d c.peek.position >>= k) ctx c := by
  have hstatement : ∀ s : Stmt, Adds fun d => pure (d.addStatement s) := fun _ => .pure fun _ => rfl
  have hother : ∃ k, Adds k ∧ ∀ d : Draft, construct.other g d c.peek.position ctx c =
      (settled d c.peek.position >>= k) ctx c :=
    ⟨_, .read (q := g.statementBody) hstatement, fun _ => rfl⟩
  have htypes : ∀ p : Production Unit, Adds fun d => do
      p
      return d :=
    fun p => .read (q := p) fun _ => .pure fun _ => rfl
  unfold Cursor.startsAttributed at h
  unfold construct
  rw [show c.peek.kind = c.peekKind from rfl]
  generalize c.peekKind = kind at h ⊢
  rw [← c.exportsAttributed_eq] at h
  split
  · refine .inr ⟨_, .read (q := importDeclaration) (k := fun d i =>
      pure { d with imports := i :: d.imports }) fun _ => .pure fun _ => rfl, fun d hd => ?_⟩
    rw [hd rfl]
    rfl
  · cases h
  · cases h
  · simp only [run_asks_bind, (if_pos rfl).symm.trans h]
    refine .inr ⟨_, ?_, fun d _ => rfl⟩
    refine .read fun s => ?_
    cases s with
    | some s => exact hstatement s
    | none => exact .pure fun _ => rfl
  · exact .inr ⟨_, htypes _, fun _ _ => rfl⟩
  · simp only [run_asks_bind]
    by_cases htype : c.startsDeclaration "type" = true
    · simp only [if_pos htype]
      exact .inr ⟨_, htypes _, fun _ _ => rfl⟩
    · simp only [if_neg htype, run_asks_bind]
      by_cases hglobal : c.startsDeclaration "declare" = true
      · simp only [if_pos hglobal]
        refine .inr ⟨_, .read (q := g.globalBlock) (k := fun d decls =>
          pure { d with globals := decls.reverse ++ d.globals }) fun decls => .pure fun d => ?_,
          fun _ _ => rfl⟩
        simp [Draft.plus, Draft.empty]
      · simp only [if_neg hglobal, run_asks_bind]
        by_cases hspace : c.startsDeclaration "namespace" = true
        · simp only [if_pos hspace]
          exact .inl ⟨_, fun _ => rfl⟩
        · simp only [if_neg hspace]
          obtain ⟨k, hk, heq⟩ := hother
          exact .inr ⟨k, hk, fun d _ => heq d⟩
  · obtain ⟨k, hk, heq⟩ := hother
    exact .inr ⟨k, hk, fun d _ => heq d⟩

theorem construct_late (h : c.peekKind = .keyword .importWord) (hd : d.statements ≠ []) :
    g.construct d c.peek ctx c = .error ⟨.importAfterStatements, c.peek.position⟩ := by
  unfold construct
  rw [show c.peek.kind = c.peekKind from rfl, h]
  dsimp only
  rw [if_pos (by simpa using hd)]
  rfl

/-- A construct that is read for a draft is read on its own as well, and adds its statements to those of
the draft. An import has no statements before it. -/
theorem construct_alone {d' : Draft} {e : Cursor} (h : g.construct d c.peek ctx c = .ok (d', e)) :
    ∃ added, g.construct .empty c.peek ctx c = .ok (added, e) ∧
      (d'.statements = [] → added.statements = [] ∧ d.statements = []) ∧
      (c.peekKind = .keyword .importWord → d.statements = []) := by
  have himport : c.peekKind = .keyword .importWord → d.statements = [] := by
    intro hkind
    by_cases hd : d.statements = []
    · exact hd
    · rw [construct_late hkind hd] at h
      cases h
  cases hstarts : c.startsAttributed with
  | true =>
    rw [construct_attributed hstarts] at h
    cases halone : g.construct .empty c.peek ctx c with
    | error error =>
      rw [halone] at h
      cases h
    | ok r =>
      rw [halone] at h
      cases h
      refine ⟨r.1, rfl, fun hnil => ?_, himport⟩
      simpa [Draft.plus, Draft.withAttributes] using hnil
  | false =>
    obtain ⟨error, hall⟩ | ⟨k, hadds, hall⟩ := construct_settled g ctx hstarts
    · rw [hall] at h
      cases h
    · rw [hall d himport, run_settled_bind] at h
      rw [hall .empty fun _ => rfl, run_settled_bind]
      split at h
      · rw [hadds] at h
        cases halone : k .empty ctx c with
        | error error =>
          rw [halone] at h
          cases h
        | ok r =>
          rw [halone] at h
          cases h
          refine ⟨r.1, halone, fun hnil => ?_, himport⟩
          simpa [Draft.plus] using hnil
      · cases h

/-- A construct that takes no attributes is added to the draft once they are settled. -/
theorem construct_of_alone {added : Draft} {e : Cursor} (hstarts : c.startsAttributed = false)
    (h : g.construct .empty c.peek ctx c = .ok (added, e))
    (himport : c.peekKind = .keyword .importWord → d.statements = []) :
    g.construct d c.peek ctx c =
      match d.attributes.settle c.peek.position d.started with
      | .ok run => .ok ({ d with attributes := run }.plus added, e)
      | .error e => .error e := by
  obtain ⟨error, hall⟩ | ⟨k, hadds, hall⟩ := construct_settled g ctx hstarts
  · rw [hall] at h
    cases h
  · rw [hall .empty fun _ => rfl, run_settled_bind] at h
    replace h : k .empty ctx c = .ok (added, e) := h
    rw [hall d himport, run_settled_bind]
    cases d.attributes.settle c.peek.position d.started with
    | error error => rfl
    | ok run =>
      dsimp only
      rw [hadds, h]
      rfl

end Grammar

end ScriptFront
