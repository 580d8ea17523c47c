import ScriptFront.Proofs.Expression.Yields

/-!
# Reading expressions back

`ReadsBack ctx p e` says that `p` reads the tokens of `e` as `e`, up to positions, wherever an expression
may end behind them. There is one lemma for each production, in which what stands inside is read back
by assumption.
-/

namespace ScriptFront

open Production Spelling

/-! ## Where expressions start and end -/

namespace Spelling

/-- What may stand behind an expression. -/
def endKinds : List Kind :=
  [.endOfFile, .mark .closeParen, .mark .closeBracket, .mark .closeBrace, .mark .comma, .mark .colon]

def Ends (r : Spelling) : Prop := kindAt r 0 ∈ endKinds

theorem Ends.kindAt_ne {r : Spelling} (h : Ends r) {k : Kind} (hk : k ∉ endKinds) : kindAt r 0 ≠ k :=
  ne_of_mem_of_not_mem h hk

/-- The marks of the links of a postfix chain. -/
def linkMarks : List Mark := [.dot, .questionDot, .openBracket, .openParen]

def StartsLink (s : Spelling) : Prop := ∃ m ∈ linkMarks, ∃ s', s = m.shape :: s'

theorem startsLink_selector (optional : Bool) (s : Spelling) :
    StartsLink ((if optional then Mark.questionDot.shape else Mark.dot.shape) :: s) := by
  cases optional with
  | false => exact ⟨.dot, by decide, s, rfl⟩
  | true => exact ⟨.questionDot, by decide, s, rfl⟩

theorem startsLink_optionalMark (optional : Bool) {b : Mark} (hb : b ∈ linkMarks) (s : Spelling) :
    StartsLink (optionalMark optional ++ b.shape :: s) := by
  cases optional with
  | false => exact ⟨b, hb, s, rfl⟩
  | true => exact ⟨.questionDot, by decide, b.shape :: s, rfl⟩

/-- Whether neither a link nor a name follows. -/
def EndsChain (r : Spelling) : Prop :=
  (∀ m ∈ linkMarks, kindAt r 0 ≠ .mark m) ∧ kindAt r 0 ≠ .identifier

theorem ends_cons {m : Mark} (hm : .mark m ∈ endKinds) (r : Spelling) : Ends (m.shape :: r) := hm

theorem Ends.endsChain {r : Spelling} (h : Ends r) : EndsChain r :=
  ⟨fun m hm => h.kindAt_ne (by revert m; decide), h.kindAt_ne (by decide)⟩

/-- The first tokens of what is neither a name, nor in parentheses, nor has an operator in front. -/
def wordKinds : List Kind :=
  [.int, .float, .string, .rune, .keyword .trueWord, .keyword .falseWord, .keyword .nullWord,
    .keyword .undefinedWord, .keyword .newWord, .mark .openBracket, .mark .openBrace]

/-- How expressions start. The flag says whether they may stand in front of a link as they are. A name
is alone or has a link behind it, and something other than an arrow follows an operand in
parentheses. -/
inductive Opens : Bool → Spelling → Prop
  | word {b k t s} (hk : k ∈ wordKinds) : Opens b ((k, t) :: s)
  | name {b t s} (hs : s = [] ∨ StartsLink s) : Opens b ((.identifier, t) :: s)
  | parens {b b' s s'} {m : Mark} (hs : Opens b' s) (hm : m ≠ .arrow) :
    Opens b (inParens s ++ m.shape :: s')
  | operator (op : UnaryOperator) {s} : Opens false (op.mark.shape :: s)

/-- The kinds of the first tokens of what may stand in front of a link. -/
def operandKinds : List Kind := .identifier :: .mark .openParen :: wordKinds

/-- The kinds of the first tokens of expressions. -/
def openKinds : List Kind :=
  .mark .plus :: .mark .minus :: .mark .tilde :: .mark .exclamation :: operandKinds

namespace Opens

variable {b : Bool} {s r : Spelling}

theorem kindAt_mem (h : Opens b s) : kindAt (s ++ r) 0 ∈ openKinds := by
  cases h with
  | word hk => exact List.mem_append_right [_, _, _, _, _, _] hk
  | name => exact (by decide : Kind.identifier ∈ openKinds)
  | parens => exact (by decide : Kind.mark .openParen ∈ openKinds)
  | operator op =>
    have hop : Kind.mark op.mark ∈ openKinds := by cases op <;> decide
    exact hop

theorem kindAt_ne (h : Opens b s) {k : Kind} (hk : k ∉ openKinds) : kindAt (s ++ r) 0 ≠ k :=
  ne_of_mem_of_not_mem h.kindAt_mem hk

theorem length_pos (h : Opens b s) : 0 < s.length := by
  cases h <;> simp [inParens]

/-- A link behind an expression. -/
theorem link (h : Opens true s) (hr : StartsLink r) : Opens true (s ++ r) := by
  cases h with
  | word hk => exact .word hk
  | name hs =>
    refine .name (Or.inr ?_)
    rcases hs with rfl | ⟨m', hm', s', rfl⟩
    · exact hr
    · exact ⟨m', hm', s' ++ r, rfl⟩
  | parens hs hm' =>
    rw [List.append_assoc]
    exact .parens hs hm'

/-- What stands in front of a link starts with no operator. -/
theorem kindAt_mem_of_operand (h : Opens true s) : kindAt (s ++ r) 0 ∈ operandKinds := by
  cases h with
  | word hk => exact List.mem_append_right [_, _] hk
  | name => exact (by decide : Kind.identifier ∈ operandKinds)
  | parens => exact (by decide : Kind.mark .openParen ∈ operandKinds)

/-- No arrow function starts with an operand in parentheses. -/
theorem startsArrow_inParens {c : Cursor} (h : Opens b s) (hr : kindAt r 0 ≠ .mark .arrow)
    (hc : c.Spells (inParens s ++ r)) : c.startsArrow = false := by
  have heq : inParens s ++ r = Mark.openParen.shape :: (s ++ Mark.closeParen.shape :: r) := by
    simp [inParens]
  unfold Cursor.startsArrow
  simp only [hc.peekKind, hc.peekNth_kind]
  rw [heq]
  simp only [kindAt_cons_zero, kindAt_cons_succ, Mark.shape_fst]
  cases h with
  | @word _ k t s hk =>
    rw [List.cons_append, kindAt_cons_zero]
    split
    · next hkind => cases hkind; exact absurd hk (by decide)
    · next hkind => cases hkind; exact absurd hk (by decide)
    · next hkind => cases hkind; exact absurd hk (by decide)
    · rfl
  | name hs =>
    rcases hs with rfl | ⟨m, hm, s', rfl⟩
    · exact beq_eq_false_iff_ne.2 hr
    · simp only [linkMarks, List.mem_cons, List.not_mem_nil, or_false] at hm
      rcases hm with rfl | rfl | rfl | rfl <;> rfl
  | parens => rfl
  | operator op => cases op <;> rfl

/-- No arrow function starts with an expression. -/
theorem startsArrow {c : Cursor} (h : Opens b s) (hr : Ends r) (hc : c.Spells (s ++ r)) :
    c.startsArrow = false := by
  cases h with
  | @word _ k t s hk =>
    unfold Cursor.startsArrow
    rw [hc.peekKind, List.cons_append, kindAt_cons_zero]
    split
    · next hkind => cases hkind; exact absurd hk (by decide)
    · next hkind => cases hkind; exact absurd hk (by decide)
    · rfl
  | name hs =>
    unfold Cursor.startsArrow
    simp only [hc.peekKind, hc.peekNth_kind]
    refine beq_eq_false_iff_ne.2 ?_
    rcases hs with rfl | ⟨m, hm, s', rfl⟩
    · exact hr.kindAt_ne (by decide)
    · rintro h
      cases h
      revert hm
      decide
  | @parens _ b' s s' m hs hm =>
    rw [List.append_assoc] at hc
    exact hs.startsArrow_inParens (r := m.shape :: s' ++ r) (fun h => hm (Kind.mark.inj h)) hc
  | operator op =>
    unfold Cursor.startsArrow
    rw [hc.peekKind]
    cases op <;> rfl

end Opens

end Spelling

/-! ## Lists -/

variable {ctx : Context} {g : Grammar} {e x : Expr} {s r : Spelling} {P : Expr → Prop}

/-- Whether a production reads the tokens of `e` as `e`, up to positions, where an expression may end. -/
def Production.ReadsBack (ctx : Context) (p : Production Expr) (e : Expr) : Prop :=
  ∀ r, Ends r → Yields ctx p (e.spelled ++ r) e.Alike r

namespace Spelling

theorem separated_cons_cons (s t : Spelling) (items : List Spelling) :
    separated (s :: t :: items) = s ++ Mark.comma.shape :: separated (t :: items) := by
  unfold separated
  rw [List.intercalate_cons_cons, List.append_assoc]
  rfl

theorem separated_singleton (s : Spelling) : separated [s] = s := List.intercalate_singleton

theorem argumentList_singleton (s : Spelling) (spread : Bool) :
    argumentList [s] spread = if spread then Mark.ellipsis.shape :: s else s := by
  cases spread <;> exact separated_singleton _

theorem argumentList_cons_cons (s t : Spelling) (items : List Spelling) (spread : Bool) :
    argumentList (s :: t :: items) spread =
      s ++ Mark.comma.shape :: argumentList (t :: items) spread := by
  cases spread with
  | false => exact separated_cons_cons s t items
  | true => cases items <;> exact separated_cons_cons s _ _

end Spelling

/-- Items with commas between them are read one by one, up to the closing mark. -/
theorem listed_yields {α γ : Type} {item : Production α} {close : Mark} {spell : α → Spelling}
    (view : α → γ) {items : List α} (hclose : .mark close ∈ endKinds) (hcomma : close ≠ .comma)
    (hopen : ∀ a ∈ items, ∀ r, kindAt (spell a ++ r) 0 ≠ .mark close)
    (hitem : ∀ a ∈ items, ∀ r, Ends r →
      Yields ctx item (spell a ++ r) (fun b => view b = view a) r) :
    Yields ctx (listed close item) (separated (items.map spell) ++ close.shape :: r)
      (fun bs => bs.map view = items.map view) r := by
  unfold listed
  refine Yields.bind (r := close.shape :: r) (P := fun bs => bs.map view = items.map view) ?_
    fun bs hbs => ((Yields.accept rfl (by simp)).discard).bind fun _ _ => .pure hbs
  -- What has been read stands for the first items, and the others are ahead.
  refine Yields.loop_of_invariant (fun read s => ∃ done rest, items = done ++ rest ∧
    read.reverse.map view = done.map view ∧ s = separated (rest.map spell) ++ close.shape :: r) ?_
    ⟨[], items, rfl, rfl, rfl⟩
  rintro read s ⟨done, rest, rfl, hread, rfl⟩
  cases rest with
  | nil =>
    refine Or.inr (.isAtThen_true rfl (.pure ⟨_, rfl, ?_⟩))
    rw [List.append_nil]
    exact hread
  | cons a rest =>
    have ha : a ∈ done ++ a :: rest := by simp
    have hnext : ∀ {b}, view b = view a → (b :: read).reverse.map view = (done ++ [a]).map view := by
      intro b hb
      simp [hread, hb]
    cases rest with
    | nil =>
      rw [List.map_singleton, separated_singleton]
      refine Or.inr (.isAtThen_false (hopen a ha _) ?_)
      refine (hitem a ha _ (ends_cons hclose r)).bind fun b hb => ?_
      refine (Yields.skips_false (by simp [hcomma])).bind ?_
      rintro _ rfl
      exact .pure ⟨_, rfl, hnext hb⟩
    | cons a' rest =>
      rw [List.map_cons, List.map_cons, separated_cons_cons, List.append_assoc]
      refine Or.inl ⟨separated ((a' :: rest).map spell) ++ close.shape :: r, ?_,
        .isAtThen_false (hopen a ha _) ?_⟩
      · simp only [List.map_cons, List.length_append, List.length_cons]
        omega
      · refine (hitem a ha _ (ends_cons (by decide) _)).bind fun b hb => ?_
        refine (Yields.skips_true rfl (by simp)).bind ?_
        rintro _ rfl
        exact .pure ⟨_, rfl, done ++ [a], a' :: rest, by simp, hnext hb, rfl⟩

namespace Grammar

/-- Arguments in round brackets are read one by one. -/
theorem arguments_yields {args : List Expr} {spread : Bool}
    (hopen : ∀ a ∈ args, Opens a.isPostfix a.spelled)
    (hargs : ∀ a ∈ args, ReadsBack ctx g.value a) (hspread : spread = true → args ≠ []) (r : Spelling) :
    Yields ctx g.arguments
      (argumentList (args.map Expr.spelled) spread ++ Mark.closeParen.shape :: r)
      (fun b => b.1.map Rewriting.unplaced.expr = args.map Rewriting.unplaced.expr ∧ b.2 = spread)
      r := by
  unfold arguments
  refine Yields.bind (r := Mark.closeParen.shape :: r) ?_ fun b hb =>
    ((Yields.accept rfl (by simp)).discard).bind fun _ _ => .pure hb
  -- What has been read stands for the first arguments; if the last one is spread, it is ahead.
  refine Yields.loop_of_invariant (fun read s => ∃ done rest, args = done ++ rest ∧
    read.reverse.map Rewriting.unplaced.expr = done.map Rewriting.unplaced.expr ∧
    (spread = true → rest ≠ []) ∧
    s = argumentList (rest.map Expr.spelled) spread ++ Mark.closeParen.shape :: r) ?_
    ⟨[], args, rfl, rfl, hspread, rfl⟩
  rintro read s ⟨done, rest, rfl, hread, hrest, rfl⟩
  cases rest with
  | nil =>
    have hfalse : spread = false := by
      cases spread with
      | false => rfl
      | true => exact absurd rfl (hrest rfl)
    subst hfalse
    refine Or.inr (.isAtThen_true rfl (.pure ⟨_, rfl, ?_, rfl⟩))
    rw [List.append_nil]
    exact hread
  | cons a rest =>
    have ha : a ∈ done ++ a :: rest := by simp
    have hnext : ∀ {b}, a.Alike b → (b :: read).reverse.map Rewriting.unplaced.expr =
        (done ++ [a]).map Rewriting.unplaced.expr := by
      intro b hb
      rw [List.reverse_cons, List.map_append, List.map_append, hread, List.map_singleton,
        List.map_singleton, show Rewriting.unplaced.expr b = _ from hb]
    have hat : ∀ r, kindAt (a.spelled ++ r) 0 ≠ .mark .closeParen := fun r =>
      (hopen a ha).kindAt_ne (by decide)
    have hdots : ∀ r, kindAt (a.spelled ++ r) 0 ≠ .mark .ellipsis := fun r =>
      (hopen a ha).kindAt_ne (by decide)
    cases rest with
    | nil =>
      rw [List.map_singleton, argumentList_singleton]
      cases spread with
      | false =>
        refine Or.inr (.isAtThen_false (hat _) ?_)
        refine (Yields.optional_none (hdots _)).bind ?_
        rintro _ rfl
        refine (hargs a ha _ (ends_cons (by decide) r)).bind fun b hb => ?_
        refine (Yields.skips_false (by simp)).bind ?_
        rintro _ rfl
        exact .pure ⟨_, rfl, hnext hb, rfl⟩
      | true =>
        refine Or.inr (.isAtThen_false (by simp) ?_)
        refine (Yields.optional_some rfl (by simp)).bind ?_
        rintro _ ⟨dots, rfl⟩
        refine (hargs a ha _ (ends_cons (by decide) r)).bind fun b hb => ?_
        refine ((Yields.optional_none (by simp)).discard).bind fun _ _ => ?_
        exact .isAtThen_true rfl (.pure ⟨_, rfl, hnext hb, rfl⟩)
    | cons a' rest =>
      rw [List.map_cons, List.map_cons, argumentList_cons_cons, List.append_assoc]
      refine Or.inl ⟨argumentList ((a' :: rest).map Expr.spelled) spread ++
        Mark.closeParen.shape :: r, ?_, .isAtThen_false (hat _) ?_⟩
      · simp only [List.map_cons, List.cons_append, List.length_append, List.length_cons]
        omega
      · refine (Yields.optional_none (hdots _)).bind ?_
        rintro _ rfl
        refine (hargs a ha _ (ends_cons (by decide) _)).bind fun b hb => ?_
        refine (Yields.skips_true rfl (by simp)).bind ?_
        rintro _ rfl
        exact .pure ⟨_, rfl, done ++ [a], a' :: rest, by simp, hnext hb, by simp, rfl⟩

/-! ## Primary expressions -/

theorem primary_constant (p : Position) (kind : ConstantKind) (value : String) (r : Spelling) :
    Yields ctx g.primary ((kind.tokenKind, value) :: r) (Expr.constant p kind value).Alike r := by
  unfold primary
  refine .peekThen fun t ht => ?_
  have hkind : t.kind = kind.tokenKind := congrArg Prod.fst ht
  have htext : t.text = value := congrArg Prod.snd ht
  have hof : ConstantKind.ofKind? t.kind = some kind := by rw [hkind]; cases kind <;> rfl
  rw [hof]
  refine ((Yields.next (by cases kind <;> simp [ConstantKind.tokenKind])).discard).bind
    fun _ _ => .pure ?_
  simp [Expr.Alike, Rewriting.expr, Rewriting.unplaced, htext]

theorem primary_identifier (i : Ident) (hr : kindAt r 0 ≠ .mark .less) :
    Yields ctx g.primary ((.identifier, i.name) :: r) (Expr.identifier i).Alike r := by
  unfold primary
  refine .peekThen fun t ht => ?_
  have hkind : t.kind = .identifier := congrArg Prod.fst ht
  have htext : t.text = i.name := congrArg Prod.snd ht
  simp only [hkind, ConstantKind.ofKind?]
  refine ((Yields.next (by simp)).discard).bind fun _ _ => ?_
  refine (Yields.genericArguments hr).bind fun _ _ => .pure ?_
  simp [Expr.Alike, Rewriting.expr, Rewriting.ident, Rewriting.unplaced, Token.ident, htext]

theorem primary_parens (hvalue : Yields ctx g.value (s ++ Mark.closeParen.shape :: r) P
    (Mark.closeParen.shape :: r)) : Yields ctx g.primary (inParens s ++ r) P r := by
  have heq : inParens s ++ r = Mark.openParen.shape :: (s ++ Mark.closeParen.shape :: r) := by
    simp [inParens]
  rw [heq]
  unfold primary
  refine .peekThen fun t ht => ?_
  have hkind : t.kind = .mark .openParen := congrArg Prod.fst ht
  simp only [hkind, ConstantKind.ofKind?]
  refine ((Yields.next (by simp)).discard).bind fun _ _ => hvalue.bind fun b hb => ?_
  exact ((Yields.accept rfl (by simp)).discard).bind fun _ _ => .pure hb

theorem primary_arrayLiteral (p : Position) {es : List Expr}
    (hopen : ∀ e ∈ es, Opens e.isPostfix e.spelled) (hes : ∀ e ∈ es, ReadsBack ctx g.value e)
    (r : Spelling) :
    Yields ctx g.primary ((Expr.arrayLiteral p es).spelled ++ r) (Expr.arrayLiteral p es).Alike r := by
  have heq : (Expr.arrayLiteral p es).spelled ++ r = Mark.openBracket.shape ::
      (separated (es.map Expr.spelled) ++ Mark.closeBracket.shape :: r) := by
    simp [Expr.spelled, Expr.allSpelled_eq_map, inBrackets]
  rw [heq]
  unfold primary
  refine .peekThen fun t ht => ?_
  have hkind : t.kind = .mark .openBracket := congrArg Prod.fst ht
  simp only [hkind, ConstantKind.ofKind?]
  unfold arrayLiteral
  refine (Yields.accept rfl (by simp)).bind fun bracket _ => ?_
  refine (listed_yields Rewriting.unplaced.expr (by decide) (by decide)
    (fun e he r => (hopen e he).kindAt_ne (by decide)) hes).bind_pure fun bs hbs => ?_
  simp [Expr.Alike, Rewriting.expr, hbs]
  rfl

theorem mapEntry_yields {m : MapEntry} (hvalue : ReadsBack ctx g.value m.value) (hr : Ends r) :
    Yields ctx g.mapEntry ((.string, m.key) :: Mark.colon.shape :: (m.value.spelled ++ r))
      (fun b => Rewriting.unplaced.entry b = Rewriting.unplaced.entry m) r := by
  unfold mapEntry
  refine .peekKindThen ?_
  refine (Yields.next (by simp)).bind fun key hkey => ?_
  refine ((Yields.accept rfl (by simp)).discard).bind fun _ _ => ?_
  refine (hvalue r hr).bind_pure fun b hb => ?_
  have htext : key.text = m.key := congrArg Prod.snd hkey
  obtain ⟨p, name, value⟩ := m
  simp [Rewriting.entry, htext, show Rewriting.unplaced.expr b = _ from hb]
  rfl

theorem primary_mapLiteral (p : Position) {entries : List MapEntry}
    (hentries : ∀ m ∈ entries, ReadsBack ctx g.value m.value) (r : Spelling) :
    Yields ctx g.primary ((Expr.mapLiteral p entries).spelled ++ r)
      (Expr.mapLiteral p entries).Alike r := by
  have heq : (Expr.mapLiteral p entries).spelled ++ r = Mark.openBrace.shape ::
      (separated (entries.map fun m => (.string, m.key) :: Mark.colon.shape :: m.value.spelled) ++
        Mark.closeBrace.shape :: r) := by
    simp [Expr.spelled, Expr.entriesSpelled_eq_map]
  rw [heq]
  unfold primary
  refine .peekThen fun t ht => ?_
  have hkind : t.kind = .mark .openBrace := congrArg Prod.fst ht
  simp only [hkind, ConstantKind.ofKind?]
  unfold mapLiteral
  refine (Yields.accept rfl (by simp)).bind fun brace _ => ?_
  refine (listed_yields Rewriting.unplaced.entry (by decide) (by decide)
    (fun m hm r => by simp) fun m hm r hr => mapEntry_yields (hentries m hm) hr).bind_pure
    fun bs hbs => ?_
  simp [Expr.Alike, Rewriting.expr, hbs]
  rfl

/-- A member behind its point. -/
theorem selector_yields (target : Expr) (member : Ident) (optional : Bool)
    (hr : kindAt r 0 ≠ .mark .less) :
    Yields ctx (selector target optional) ((.identifier, member.name) :: r)
      (fun e => ∃ p, e = .selector target ⟨p, member.name⟩ optional false) r := by
  unfold selector
  refine (Yields.name rfl).bind fun t ht => ?_
  have htext : t.text = member.name := congrArg Prod.snd ht
  refine (Yields.genericArguments hr).bind fun _ _ => .pure ⟨t.position, ?_⟩
  rw [← htext]
  rfl

section NewInstance

variable (p : Position) {typeName : Expr} {args : List Expr} {spread : Bool}
  (hopen : ∀ a ∈ args, Opens a.isPostfix a.spelled) (hargs : ∀ a ∈ args, ReadsBack ctx g.value a)
  (hspread : spread = true → args ≠ []) (r : Spelling)
include hopen hargs hspread

/-- What stands behind the type name of a `new`. -/
theorem newInstance_behindName (q : Position) {typeName' : Expr} (htypeName : typeName.Alike typeName') :
    Yields ctx (do
        genericArguments
        discard (accept (.mark .openParen))
        let b ← g.arguments
        return .newInstance q typeName' b.1 b.2)
      (Mark.openParen.shape ::
        (argumentList (args.map Expr.spelled) spread ++ Mark.closeParen.shape :: r))
      (Expr.newInstance p typeName args spread).Alike r := by
  refine (Yields.genericArguments (by simp)).bind fun _ _ => ?_
  refine ((Yields.accept rfl (by simp)).discard).bind fun _ _ => ?_
  refine (arguments_yields hopen hargs hspread r).bind ?_
  rintro ⟨args', spread'⟩ ⟨hargs', rfl⟩
  refine .pure ?_
  unfold Expr.Alike at htypeName ⊢
  simp only [Rewriting.expr, Rewriting.exprs_eq_map, htypeName, hargs']
  rfl

theorem primary_newInstance (htype : typeName.IsTypeName) :
    Yields ctx g.primary ((Expr.newInstance p typeName args spread).spelled ++ r)
      (Expr.newInstance p typeName args spread).Alike r := by
  have heq : (Expr.newInstance p typeName args spread).spelled ++ r = Keyword.newWord.shape ::
      (typeName.spelled ++ Mark.openParen.shape ::
        (argumentList (args.map Expr.spelled) spread ++ Mark.closeParen.shape :: r)) := by
    simp [Expr.spelled, Expr.allSpelled_eq_map, Spelling.arguments, inParens]
  rw [heq]
  unfold primary
  refine .peekThen fun t ht => ?_
  have hkind : t.kind = .keyword .newWord := congrArg Prod.fst ht
  simp only [hkind, ConstantKind.ofKind?]
  unfold newInstance
  refine (Yields.accept rfl (by simp)).bind fun keyword _ => ?_
  cases htype with
  | name i =>
    rw [Expr.spelled, List.singleton_append]
    refine (Yields.name rfl).bind fun t ht => ?_
    refine (Yields.skips_false (by simp)).bind ?_
    rintro _ rfl
    refine newInstance_behindName p hopen hargs hspread r _ ?_
    simp [Expr.Alike, Rewriting.expr, Rewriting.ident, Rewriting.unplaced, Token.ident,
      show t.text = i.name from congrArg Prod.snd ht]
  | member i m =>
    have heq : (Expr.selector (.identifier i) m false false).spelled =
        [(.identifier, i.name), Mark.dot.shape, (.identifier, m.name)] := by
      simp [Expr.spelled, Expr.inFront, Expr.isPostfix]
    rw [heq]
    refine (Yields.name rfl).bind fun t ht => ?_
    refine (Yields.skips_true rfl (by simp)).bind ?_
    rintro _ rfl
    refine (selector_yields _ m false (by simp)).bind ?_
    rintro _ ⟨p', rfl⟩
    refine newInstance_behindName p hopen hargs hspread r _ ?_
    simp [Expr.Alike, Rewriting.expr, Rewriting.ident, Rewriting.unplaced, Token.ident,
      show t.text = i.name from congrArg Prod.snd ht]

end NewInstance

/-! ## Postfix chains -/

/-- What `link` makes of the link behind `target`. -/
theorem link_selector (target : Expr) (member : Ident) (optional : Bool)
    (hr : kindAt r 0 ≠ .mark .less) :
    Yields ctx (g.link target) ((if optional then Mark.questionDot.shape else Mark.dot.shape) ::
        (.identifier, member.name) :: r)
      (fun e => ∃ p, e = some (.selector target ⟨p, member.name⟩ optional false)) r := by
  have hselector : Yields ctx (do return some (← selector target optional))
      ((.identifier, member.name) :: r)
      (fun e => ∃ p, e = some (.selector target ⟨p, member.name⟩ optional false)) r := by
    refine (selector_yields target member optional hr).bind_pure ?_
    rintro _ ⟨p, rfl⟩
    exact ⟨p, rfl⟩
  unfold link
  refine .peekKindThen ?_
  cases optional with
  | false => exact ((Yields.next (by simp)).discard).bind fun _ _ => hselector
  | true =>
    exact ((Yields.next (by simp)).discard).bind fun _ _ => .peekKindThen hselector

theorem index_yields (target : Expr) {key : Expr} (optional : Bool)
    (hkey : ReadsBack ctx g.expression key) (r : Spelling) :
    Yields ctx (g.index target optional)
      (Mark.openBracket.shape :: (key.spelled ++ Mark.closeBracket.shape :: r))
      (fun e => ∃ p key', key.Alike key' ∧ e = .index target p key' optional false) r := by
  unfold index
  refine (Yields.accept rfl (by simp)).bind fun bracket _ => ?_
  refine (hkey _ (ends_cons (by decide) r)).bind fun key' hkey' => ?_
  exact ((Yields.accept rfl (by simp)).discard).bind fun _ _ => .pure ⟨_, key', hkey', rfl⟩

theorem call_yields (callee : Expr) {args : List Expr} {spread : Bool} (optional : Bool)
    (hopen : ∀ a ∈ args, Opens a.isPostfix a.spelled)
    (hargs : ∀ a ∈ args, ReadsBack ctx g.value a) (hspread : spread = true → args ≠ [])
    (r : Spelling) :
    Yields ctx (g.call callee optional)
      (Mark.openParen.shape ::
        (argumentList (args.map Expr.spelled) spread ++ Mark.closeParen.shape :: r))
      (fun e => ∃ p args', args'.map Rewriting.unplaced.expr = args.map Rewriting.unplaced.expr ∧
        e = .call ⟨callee, p, args', spread, optional, false⟩) r := by
  unfold call
  refine (Yields.accept rfl (by simp)).bind fun paren _ => ?_
  refine (arguments_yields hopen hargs hspread r).bind ?_
  rintro ⟨args', spread'⟩ ⟨hargs', rfl⟩
  exact .pure ⟨_, args', hargs', rfl⟩

/-- The brackets of an index or a call, with a mark in front if they are optional. -/
theorem link_brackets (target : Expr) (optional : Bool) {b : Mark} {P : Expr → Prop}
    {p : Expr → Bool → Production Expr}
    (hb : b = .openBracket ∧ p = g.index ∨ b = .openParen ∧ p = g.call)
    (hp : Yields ctx (p target optional) (b.shape :: s) P r) :
    Yields ctx (g.link target) (optionalMark optional ++ b.shape :: s)
      (fun e => ∃ e', e = some e' ∧ P e') r := by
  have hsome : Yields ctx (do return some (← p target optional)) (b.shape :: s)
      (fun e => ∃ e', e = some e' ∧ P e') r :=
    hp.bind_pure fun e he => ⟨e, rfl, he⟩
  unfold link
  refine .peekKindThen ?_
  rcases hb with ⟨rfl, rfl⟩ | ⟨rfl, rfl⟩
  · cases optional with
    | false => exact hsome
    | true => exact ((Yields.next (by simp)).discard).bind fun _ _ => .peekKindThen hsome
  · cases optional with
    | false => exact hsome
    | true => exact ((Yields.next (by simp)).discard).bind fun _ _ => .peekKindThen hsome

theorem link_none (target : Expr) (hr : EndsChain r) :
    Yields ctx (g.link target) r (fun e => e = none) r := by
  unfold link
  refine .peekKindThen ?_
  split
  · next hkind => exact absurd hkind (hr.1 _ (by decide))
  · next hkind => exact absurd hkind (hr.1 _ (by decide))
  · next hkind => exact absurd hkind (hr.1 _ (by decide))
  · next hkind => exact absurd hkind (hr.1 _ (by decide))
  · exact .pure rfl

/-- One round of `chain`. -/
def chainRound (g : Grammar) (s : Expr × Bool) : Production (Turn (Expr × Bool) Expr) := do
  let e ← g.link s.1
  return e.elim (.done (if s.2 then s.1.markOutermost else s.1)) fun e => .again (e, true)

theorem chain_eq (e : Expr) : g.chain e = loop g.chainRound (e, false) := by
  unfold chain chainRound
  congr 1
  funext s
  congr 1
  funext e
  cases e <;> rfl

theorem chainRound_done (a : Expr × Bool) (hr : EndsChain r) :
    Yields ctx (g.chainRound a) r (fun t => t = .done (if a.2 then a.1.markOutermost else a.1)) r := by
  refine (link_none a.1 hr).bind_pure ?_
  rintro _ rfl
  rfl

/-- Whether a primary expression with links, spelled as `s`, is read up to a state of the chain with
`S`, whatever follows other than type arguments. -/
def ChainsTo (g : Grammar) (ctx : Context) (s : Spelling) (S : Expr × Bool → Prop) : Prop :=
  ∀ r (P : Expr → Prop) u, kindAt r 0 ≠ .mark .less →
    (∀ a rounds, S a → r.length < rounds.length →
      Yields ctx (loopFrom g.chainRound rounds a) r P u) →
    Yields ctx (do g.chain (← g.primary)) (s ++ r) P u

namespace ChainsTo

variable {S S' : Expr × Bool → Prop}

theorem mono (h : ChainsTo g ctx s S) (hS : ∀ a, S a → S' a) : ChainsTo g ctx s S' :=
  fun r P u hr hrest => h r P u hr fun a rounds ha => hrest a rounds (hS a ha)

theorem of_primary (h : ∀ r, kindAt r 0 ≠ .mark .less → Yields ctx g.primary (s ++ r) P r) :
    ChainsTo g ctx s fun a => P a.1 ∧ a.2 = false := by
  intro r Q u hr hrest
  refine (h r hr).bind fun x hx => ?_
  rw [chain_eq]
  exact .loop fun rounds hrounds => hrest (x, false) rounds ⟨hx, rfl⟩ hrounds

/-- One more link. -/
theorem link {tail : Spelling} (h : ChainsTo g ctx s S)
    (htail : StartsLink tail)
    (hlink : ∀ a r, S a → kindAt r 0 ≠ .mark .less →
      Yields ctx (g.link a.1) (tail ++ r) (fun e => ∃ e', e = some e' ∧ P e') r) :
    ChainsTo g ctx (s ++ tail) fun a => P a.1 ∧ a.2 = true := by
  intro r Q u hr hrest
  obtain ⟨m, hm, s', rfl⟩ := htail
  have hless : Kind.mark m ≠ .mark .less := by
    rintro h
    cases h
    revert hm
    decide
  rw [List.append_assoc]
  refine h _ Q u hless fun a rounds ha hrounds => ?_
  cases rounds with
  | nil => exact absurd hrounds (Nat.not_lt_zero _)
  | cons stop rounds =>
    refine Yields.loopFrom_again (P := fun a => P a.1 ∧ a.2 = true) (r := r) ?_ fun b hb => ?_
    · refine (hlink a r ha hr).bind_pure ?_
      rintro _ ⟨e', rfl, he'⟩
      exact ⟨(e', true), rfl, he', rfl⟩
    · refine hrest b rounds hb ?_
      simp only [List.cons_append, List.length_cons, List.length_append] at hrounds
      omega

/-- The end of the chain, where its last link is marked. -/
theorem finish (h : ChainsTo g ctx e.spelled fun a => e.unmarked.Alike a.1 ∧ a.2 = e.isLink)
    (hmark : e.MarkedAs true) (hr : Ends r) :
    Yields ctx (do g.chain (← g.primary)) (e.spelled ++ r) e.Alike r := by
  refine h r _ r (hr.kindAt_ne (by decide)) fun a rounds ha hrounds => ?_
  obtain ⟨x, linked⟩ := a
  obtain ⟨hx, hlinked⟩ := ha
  cases rounds with
  | nil => exact absurd hrounds (Nat.not_lt_zero _)
  | cons stop rounds =>
    refine Yields.loopFrom_done ((chainRound_done _ hr.endsChain).mono ?_)
    rintro _ rfl
    refine ⟨_, rfl, ?_⟩
    cases linked with
    | true =>
      have hmarked := Expr.Alike.markOutermost hx
      rw [Expr.markOutermost_unmarked hmark] at hmarked
      exact hmarked
    | false =>
      rw [Expr.unmarked_of_not_isLink hlinked.symm] at hx
      exact hx

end ChainsTo

end Grammar

end ScriptFront
