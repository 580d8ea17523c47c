import ScriptFront.Proofs.Erasure.Crossing
import ScriptFront.Proofs.Erasure.TypeSyntax
import ScriptFront.Proofs.Production.StatementsRead
import ScriptFront.Proofs.TypeArgument.Language

/-!
# Type arguments are types

What is taken for type arguments in an expression is read as type arguments in a type too, and no further,
if no name in it is a word that goes in front of types (`typeArguments_agree`). The two readers share no
code: the one looks ahead for plain references, and the other reads types of every form. Word by word of the
language of type arguments, the second is shown to read what the first has found.
-/

namespace ScriptFront

open scoped Computability
open Kind (one reference arguments Begins)
open Stop (kindsOf kindsOf_mem_one kindsOf_mem_mul)
open Lookahead (EndsReference)

namespace Cursor

variable {s : Stop} {taken rest : List Stop} {last : Stop}

theorem peekKind_append :
    (⟨taken ++ rest, last⟩ : Cursor).peekKind = (kindsOf taken).headD (⟨rest, last⟩ : Cursor).peekKind := by
  cases taken <;> rfl

theorem isAt_cons {k : Kind} (hs : s.token.kind = k) : (⟨s :: rest, last⟩ : Cursor).isAt k = true :=
  beq_iff_eq.2 hs

theorem next_cons (hs : s.token.kind ≠ .endOfFile) : (⟨s :: rest, last⟩ : Cursor).next = ⟨rest, last⟩ :=
  if_neg hs

end Cursor

namespace Production

variable {ctx : Context} {taken rest : List Stop} {last : Stop} {L : Language Kind} {c d e : Cursor}

/-! ## Repetitions -/

section Rounds

variable {p : Production Bool}

theorem run_rounds_done (h : p ctx c = .ok (false, d)) : rounds p ctx c = .ok ((), d) :=
  run_loop_of_done (run_bind_of_ok h)

theorem run_rounds_again (h : p ctx c = .ok (true, d)) (hlt : d.remaining < c.remaining)
    (hrest : rounds p ctx d = .ok ((), e)) : rounds p ctx c = .ok ((), e) := by
  refine (Crosses.run_loop_again (run_bind_of_ok h) hlt fun position hstalled => ?_).trans hrest
  cases hrest.symm.trans hstalled

/-- A repetition reads words until something else stands there. -/
theorem run_rounds_kstar (hmem : kindsOf taken ∈ L∗)
    (hagain : ∀ {word} (rest), kindsOf word ∈ L →
      word ≠ [] ∧ p ctx ⟨word ++ rest, last⟩ = .ok (true, ⟨rest, last⟩))
    (hdone : p ctx ⟨rest, last⟩ = .ok (false, ⟨rest, last⟩)) :
    rounds p ctx ⟨taken ++ rest, last⟩ = .ok ((), ⟨rest, last⟩) := by
  obtain ⟨words, hwords, hall⟩ := hmem
  induction words generalizing taken with
  | nil =>
    cases List.map_eq_nil_iff.1 hwords
    exact run_rounds_done hdone
  | cons w words ih =>
    obtain ⟨word, more, rfl, rfl, hmore⟩ := List.map_eq_append_iff.1 hwords
    obtain ⟨hword, hall⟩ := List.forall_mem_cons.1 hall
    obtain ⟨hne, hread⟩ := hagain (more ++ rest) hword
    rw [List.append_assoc]
    refine run_rounds_again hread ?_ (ih hmore hall)
    simpa [Cursor.remaining] using List.length_pos_iff.2 hne

end Rounds

section Items

variable {item : Production Unit} {items : List Unit}

theorem run_itemTurn_last (hitem : item ctx c = .ok ((), d)) (hd : d.isAt (.mark .comma) = false) :
    Crosses.itemTurn item items ctx c = .ok (.done (() :: items).reverse, d) := by
  unfold Crosses.itemTurn
  rw [run_bind_of_ok hitem, run_bind_of_ok (run_skips_of_not ctx hd)]
  rfl

theorem run_itemTurn_more (hitem : item ctx c = .ok ((), d)) (hd : d.isAt (.mark .comma) = true) :
    Crosses.itemTurn item items ctx c = .ok (.again (() :: items), d.next) := by
  unfold Crosses.itemTurn
  rw [run_bind_of_ok hitem, run_bind_of_ok (run_skips_of_isAt ctx hd)]
  rfl

/-- A list reads its items if each is read to the comma behind it, or to the bracket behind the last one. -/
theorem run_separated (hmem : kindsOf taken ∈ L * (one (.mark .comma) * L)∗)
    (hitem : ∀ {word} (rest), word <:+: taken → kindsOf word ∈ L →
      (⟨rest, last⟩ : Cursor).peekKind = .mark .comma ∨ (⟨rest, last⟩ : Cursor).peekKind = .mark .greater →
      item ctx ⟨word ++ rest, last⟩ = .ok ((), ⟨rest, last⟩))
    (hnext : (⟨rest, last⟩ : Cursor).peekKind = .mark .greater) :
    discard (separated item) ctx ⟨taken ++ rest, last⟩ = .ok ((), ⟨rest, last⟩) := by
  -- What has been read of the list goes along, and is dropped in the end: the induction is on what is left.
  suffices h : ∀ items, ∃ result,
      loop (Crosses.itemTurn item) items ctx ⟨taken ++ rest, last⟩ = .ok (result, ⟨rest, last⟩) by
    obtain ⟨result, hloop⟩ := h []
    rw [Crosses.separated_eq, run_bind_of_ok hloop]
    rfl
  obtain ⟨first, more, rfl, hfirst, words, hwords, hall⟩ := kindsOf_mem_mul.1 hmem
  clear hmem
  induction words generalizing first more with
  | nil =>
    cases List.map_eq_nil_iff.1 hwords
    intro items
    rw [List.append_nil] at hitem ⊢
    refine ⟨_, run_loop_of_done (run_itemTurn_last (hitem rest List.infix_rfl hfirst (.inr hnext)) ?_)⟩
    rw [Cursor.isAt, hnext]
    rfl
  | cons w words ih =>
    intro items
    obtain ⟨word, more, rfl, rfl, hmore⟩ := List.map_eq_append_iff.1 hwords
    obtain ⟨hword, hothers⟩ := List.forall_mem_cons.1 hall
    obtain ⟨_, second, rfl, hcomma, hsecond⟩ := kindsOf_mem_mul.1 hword
    obtain ⟨s, rfl, hs⟩ := kindsOf_mem_one.1 hcomma
    have hinner : second ++ more <:+: first ++ ([s] ++ second ++ more) :=
      ⟨first ++ [s], [], by simp⟩
    obtain ⟨result, hloop⟩ := ih second more (fun rest hwithin => hitem rest (hwithin.trans hinner)) hsecond
      hmore hothers (() :: items)
    have hread := hitem (s :: (second ++ more ++ rest)) (List.prefix_append _ _).isInfix hfirst (.inl hs)
    have hstep : Crosses.itemTurn item items ctx _ = _ := run_itemTurn_more hread (Cursor.isAt_cons hs)
    rw [Cursor.next_cons (by simp [hs])] at hstep
    refine ⟨result, ?_⟩
    rw [show first ++ ([s] ++ second ++ more) ++ rest = first ++ s :: (second ++ more ++ rest) by simp]
    refine (Crosses.run_loop_again hstep ?_ fun position hstalled => ?_).trans hloop
    · simp only [Cursor.remaining, List.length_append, List.length_cons]
      omega
    · cases hloop.symm.trans hstalled

end Items

/-! ## Names and brackets -/

section Tokens

variable {s : Stop} {k : Kind}

theorem run_skips_cons (hs : s.token.kind = k) (hk : k ≠ .endOfFile) :
    skips k ctx ⟨s :: rest, last⟩ = .ok (true, ⟨rest, last⟩) := by
  rw [run_skips_of_isAt ctx (Cursor.isAt_cons hs), Cursor.next_cons (hs ▸ hk)]

theorem run_accept_cons (hs : s.token.kind = k) (hk : k ≠ .endOfFile) :
    accept k ctx ⟨s :: rest, last⟩ = .ok (s.token, ⟨rest, last⟩) := by
  rw [run_accept_of_isAt ctx (Cursor.isAt_cons hs), Cursor.next_cons (hs ▸ hk)]
  rfl

theorem run_name (hs : s.token.kind = .identifier) :
    name ctx ⟨s :: rest, last⟩ = .ok (s.token, ⟨rest, last⟩) := by
  have hopen : s.token.kind ≠ .endOfFile := by simp [hs]
  unfold name
  rw [run_peekKind_bind, show (⟨s :: rest, last⟩ : Cursor).peekKind = .identifier from hs]
  show Except.ok (s.token, (⟨s :: rest, last⟩ : Cursor).next) = _
  rw [Cursor.next_cons hopen]

end Tokens

theorem run_qualifiedName (hmem : kindsOf taken ∈ one .identifier * (one (.mark .dot) * one .identifier)∗)
    (hnext : (⟨rest, last⟩ : Cursor).peekKind ≠ .mark .dot) :
    qualifiedName ctx ⟨taken ++ rest, last⟩ = .ok ((), ⟨rest, last⟩) := by
  obtain ⟨_, names, rfl, hfirst, hnames⟩ := kindsOf_mem_mul.1 hmem
  obtain ⟨s, rfl, hs⟩ := kindsOf_mem_one.1 hfirst
  unfold qualifiedName
  rw [List.append_assoc, List.singleton_append, run_bind_of_ok (run_bind_of_ok (run_name hs))]
  refine run_rounds_kstar hnames (fun {word} rest hword => ?_) ?_
  · obtain ⟨_, _, rfl, hdot, hname⟩ := kindsOf_mem_mul.1 hword
    obtain ⟨t, rfl, ht⟩ := kindsOf_mem_one.1 hdot
    obtain ⟨s, rfl, hs⟩ := kindsOf_mem_one.1 hname
    refine ⟨by simp, ?_⟩
    rw [List.append_assoc, List.singleton_append, run_bind_of_ok (run_skips_cons ht (by simp))]
    exact run_bind_of_ok (run_bind_of_ok (run_name hs))
  · rw [run_bind_of_ok (run_skips_of_not ctx (beq_eq_false_iff_ne.2 hnext))]
    rfl

/-- Pairs of brackets are read in pairs. -/
theorem run_brackets (hmem : kindsOf taken ∈ (one (.mark .openBracket) * one (.mark .closeBracket))∗)
    (hnext : (⟨rest, last⟩ : Cursor).peekKind ≠ .mark .openBracket) :
    rounds (do
      if ← asks Cursor.startsArraySuffix then
        advance 2
        return true
      else return false) ctx ⟨taken ++ rest, last⟩ = .ok ((), ⟨rest, last⟩) := by
  refine run_rounds_kstar hmem (fun {word} rest hword => ?_) ?_
  · obtain ⟨_, _, rfl, hopen, hclose⟩ := kindsOf_mem_mul.1 hword
    obtain ⟨s, rfl, hs⟩ := kindsOf_mem_one.1 hopen
    obtain ⟨t, rfl, ht⟩ := kindsOf_mem_one.1 hclose
    have hstart : (⟨[s] ++ [t] ++ rest, last⟩ : Cursor).startsArraySuffix = true := by
      show (s.token.kind == _ && t.token.kind == _) = true
      rw [hs, ht]
      rfl
    have hadvance : (⟨[s, t] ++ rest, last⟩ : Cursor).advance 2 = ⟨rest, last⟩ :=
      Cursor.advance_append (by simp [hs, ht])
    refine ⟨by simp, ?_⟩
    rw [run_asks_bind, hstart]
    exact run_bind_of_ok (congrArg (fun d => Except.ok ((), d)) hadvance)
  · have hstart : (⟨rest, last⟩ : Cursor).startsArraySuffix = false := by
      unfold Cursor.startsArraySuffix Cursor.isAt
      rw [beq_eq_false_iff_ne.2 hnext, Bool.false_and]
    rw [run_asks_bind, hstart]
    rfl

/-! ## References -/

theorem endsReference_of_not_continuesType {k : Kind} (h : k.continuesType = false) : EndsReference k := by
  refine ⟨?_, ?_, ?_⟩
  all_goals
    rintro rfl
    cases h

/-- A reference starts with a name. -/
theorem exists_cons_of_mem_reference (h : kindsOf taken ∈ reference L) :
    ∃ s more, taken = s :: more ∧ s.token.kind = .identifier := by
  unfold reference at h
  rw [mul_assoc, mul_assoc] at h
  obtain ⟨_, more, rfl, hfirst, -⟩ := kindsOf_mem_mul.1 h
  obtain ⟨s, rfl, hs⟩ := kindsOf_mem_one.1 hfirst
  exact ⟨s, more, rfl, hs⟩

/-- A name with arguments behind it is a reference. -/
theorem mem_reference_cons {s : Stop} (hs : s.token.kind = .identifier) (h : kindsOf taken ∈ L) :
    kindsOf (s :: taken) ∈ reference L := by
  refine kindsOf_mem_mul.2 ⟨s :: taken, [], (List.append_nil _).symm, ?_, Language.nil_mem_kstar _⟩
  refine kindsOf_mem_mul.2 ⟨[s], taken, rfl, ?_, .inl h⟩
  exact kindsOf_mem_mul.2 ⟨[s], [], rfl, kindsOf_mem_one.2 ⟨s, rfl, hs⟩, Language.nil_mem_kstar _⟩

section References

variable {type : Production Unit}

theorem run_namedType {names args : List Stop} (hL : Begins L (fun _ => True) (· = .mark .less))
    (hnames : kindsOf names ∈ one .identifier * (one (.mark .dot) * one .identifier)∗)
    (hargs : kindsOf args ∈ L + 1)
    (hread : kindsOf args ∈ L → typeArguments type ctx ⟨args ++ rest, last⟩ = .ok ((), ⟨rest, last⟩))
    (hdot : (⟨rest, last⟩ : Cursor).peekKind ≠ .mark .dot)
    (hless : (⟨rest, last⟩ : Cursor).peekKind ≠ .mark .less) :
    namedType type ctx ⟨names ++ (args ++ rest), last⟩ = .ok ((), ⟨rest, last⟩) := by
  unfold namedType
  obtain hargs | hargs := hargs
  · have hnext : (⟨args ++ rest, last⟩ : Cursor).peekKind = .mark .less := by
      rw [Cursor.peekKind_append]
      exact hL _ hargs _ trivial
    rw [run_bind_of_ok (run_qualifiedName hnames (by simp [hnext])), run_isAt_bind, Cursor.isAt, hnext]
    exact hread hargs
  · obtain rfl : args = [] := List.map_eq_nil_iff.1 hargs
    rw [List.nil_append, run_bind_of_ok (run_qualifiedName hnames hdot), run_isAt_bind, Cursor.isAt,
      beq_eq_false_iff_ne.2 hless]
    rfl

theorem run_arrayType (hL : Begins L (fun _ => True) (· = .mark .less)) (hmem : kindsOf taken ∈ reference L)
    (hwords : ∀ s ∈ taken, s.token.isTypeOperator = false)
    (hread : ∀ {word rest}, word <:+: taken.tail → kindsOf word ∈ L →
      typeArguments type ctx ⟨word ++ rest, last⟩ = .ok ((), ⟨rest, last⟩))
    (hnext : EndsReference (⟨rest, last⟩ : Cursor).peekKind) :
    arrayType type ctx ⟨taken ++ rest, last⟩ = .ok ((), ⟨rest, last⟩) := by
  obtain ⟨_, brackets, rfl, hmem, hbrackets⟩ := kindsOf_mem_mul.1 hmem
  obtain ⟨names, args, rfl, hnames, hargs⟩ := kindsOf_mem_mul.1 hmem
  obtain ⟨_, more, rfl, hfirst, -⟩ := kindsOf_mem_mul.1 hnames
  obtain ⟨s, rfl, hs⟩ := kindsOf_mem_one.1 hfirst
  have hstart : ∀ rest, (⟨[s] ++ more ++ rest, last⟩ : Cursor).startsTypeOperator = false := by
    intro rest
    show (s.token.isTypeOperator && _) = false
    rw [hwords s (by simp), Bool.false_and]
  have hbehind : (⟨brackets ++ rest, last⟩ : Cursor).peekKind ≠ .mark .dot ∧
      (⟨brackets ++ rest, last⟩ : Cursor).peekKind ≠ .mark .less := by
    rw [Cursor.peekKind_append]
    exact Begins.kstar (F := fun k => k ≠ .mark .dot ∧ k ≠ .mark .less) (by simp) (fun _ h => ⟨h.1, h.2.1⟩) _
      hbrackets _ hnext
  have hnamed := run_namedType hL hnames hargs (hread ⟨more, brackets, rfl⟩) hbehind.1 hbehind.2
  have hprimary : primaryType type ctx ⟨[s] ++ more ++ (args ++ (brackets ++ rest)), last⟩ =
      .ok ((), ⟨brackets ++ rest, last⟩) := by
    unfold primaryType
    rw [run_peekKind_bind, show (⟨[s] ++ more ++ _, last⟩ : Cursor).peekKind = .identifier from hs]
    exact hnamed
  rw [List.append_assoc, List.append_assoc]
  unfold arrayType
  rw [run_asks_bind, hstart, if_neg Bool.false_ne_true]
  exact (run_bind_of_ok hprimary).trans (run_brackets hbrackets hnext.2.2)

/-- A reference is a type, if nothing goes on with the type behind it. -/
theorem run_unionType (hL : Begins L (fun _ => True) (· = .mark .less)) (hmem : kindsOf taken ∈ reference L)
    (hwords : ∀ s ∈ taken, s.token.isTypeOperator = false) (hdepth : ctx.depth < depthLimit)
    (hread : ∀ {word rest}, word <:+: taken.tail → kindsOf word ∈ L →
      typeArguments type { ctx with depth := ctx.depth + 1 } ⟨word ++ rest, last⟩ = .ok ((), ⟨rest, last⟩))
    (hnext : (⟨rest, last⟩ : Cursor).peekKind.continuesType = false) :
    unionType type ctx ⟨taken ++ rest, last⟩ = .ok ((), ⟨rest, last⟩) := by
  have harray := run_arrayType hL hmem hwords hread (endsReference_of_not_continuesType hnext)
  have hfirst : (⟨taken ++ rest, last⟩ : Cursor).peekKind = .identifier := by
    obtain ⟨s, more, rfl, hs⟩ := exists_cons_of_mem_reference hmem
    exact hs
  have hlast : joinsTypes (⟨rest, last⟩ : Cursor).peekKind = false := by
    refine Bool.eq_false_iff.2 fun hjoins => ?_
    obtain hjoins | hjoins := joinsTypes_eq hjoins
    all_goals
      rw [hjoins] at hnext
      cases hnext
  unfold unionType
  rw [run_nested _ _ hdepth, run_peekKind_bind, hfirst]
  refine run_rounds_done ?_
  rw [run_bind_of_ok harray, run_peekKind_bind, hlast]
  rfl

end References

/-! ## Type arguments -/

/-- Whether type arguments that nest at most `n` deep are read to their end with `n` levels left. -/
def ReadsArguments (n : Nat) : Prop :=
  ∀ {ctx : Context} {k : Nat} {taken rest : List Stop} {last : Stop}, ctx.depth + n ≤ depthLimit →
    taken.length ≤ k → (∀ s ∈ taken, s.token.isTypeOperator = false) → kindsOf taken ∈ arguments n →
      typeArguments (Grammar.ofDepth k).type ctx ⟨taken ++ rest, last⟩ = .ok ((), ⟨rest, last⟩)

namespace ReadsArguments

variable {k n : Nat}

/-- A reference is a type, whatever arguments it has. -/
theorem type (h : ReadsArguments n) (hdepth : ctx.depth + (n + 1) ≤ depthLimit) (hlength : taken.length ≤ k)
    (hwords : ∀ s ∈ taken, s.token.isTypeOperator = false) (hmem : kindsOf taken ∈ reference (arguments n))
    (hnext : (⟨rest, last⟩ : Cursor).peekKind.continuesType = false) :
    (Grammar.ofDepth k).type ctx ⟨taken ++ rest, last⟩ = .ok ((), ⟨rest, last⟩) := by
  -- The name is a token that the arguments do not have, so the grammar can be entered once more for them.
  obtain ⟨s, more, rfl, -⟩ := exists_cons_of_mem_reference hmem
  obtain ⟨k, rfl⟩ : ∃ m, k = m + 1 := Nat.exists_eq_succ_of_ne_zero (by rintro rfl; simp at hlength)
  rw [Grammar.ofDepth_succ]
  refine run_unionType (Lookahead.arguments_begins n) hmem hwords (by omega) (fun hwithin hword => ?_) hnext
  have hle := hwithin.length_le
  simp only [List.length_cons, List.tail_cons] at hle hlength
  exact h (by simp only; omega) (by omega) (fun t ht => hwords t (.tail s (hwithin.subset ht))) hword

theorem succ (h : ReadsArguments n) : ReadsArguments (n + 1) := by
  intro ctx k taken rest last hdepth hlength hwords hmem
  obtain ⟨_, _, rfl, hmem, hclose⟩ := kindsOf_mem_mul.1 hmem
  obtain ⟨_, list, rfl, hopen, hlist⟩ := kindsOf_mem_mul.1 hmem
  obtain ⟨s, rfl, hs⟩ := kindsOf_mem_one.1 hopen
  obtain ⟨t, rfl, ht⟩ := kindsOf_mem_one.1 hclose
  rw [List.length_append, List.length_append] at hlength
  have hseparated : discard (separated (Grammar.ofDepth k).type) ctx ⟨list ++ t :: rest, last⟩ =
      .ok ((), ⟨t :: rest, last⟩) := by
    refine run_separated hlist (fun {word} rest hwithin hword hnext => ?_) ht
    have hle := hwithin.length_le
    refine h.type hdepth (by omega) (fun s hs => hwords s ?_) hword ?_
    · simp [hwithin.subset hs]
    · obtain hnext | hnext := hnext <;> rw [hnext] <;> rfl
  rw [show [s] ++ list ++ [t] ++ rest = s :: (list ++ t :: rest) by simp]
  unfold typeArguments
  rw [run_bind_of_ok (run_bind_of_ok (run_accept_cons hs (by simp))), run_bind_of_ok hseparated]
  exact run_bind_of_ok (run_accept_cons ht (by simp))

end ReadsArguments

theorem readsArguments (n : Nat) : ReadsArguments n := by
  induction n with
  | zero => exact fun _ _ _ hmem => hmem.elim
  | succ n ih => exact ih.succ

/-- **Type arguments are types.** Where `n` tokens are taken for type arguments in an expression, and none of
them is `keyof` or `readonly`, reading the type arguments of a type reads these `n` tokens, unless it is
already so deep that they could not nest as they may. Behind a name, they are a type with it, if nothing
goes on with the type behind them. -/
theorem typeArguments_agree {c : Cursor} {n : Nat} (hc : c.Closed) (hscan : c.argumentWidth? = some n)
    (hwords : ∀ s ∈ c.ahead.take n, s.token.isTypeOperator = false) (ctx : Context)
    (hdepth : ctx.depth + (Lookahead.typeArgumentDepth + 1) ≤ depthLimit) (k : Nat) (hk : c.remaining ≤ k) :
    n ≤ c.remaining ∧ typeArguments (Grammar.ofDepth k).type ctx c = .ok ((), c.drop n) ∧
      ∀ s : Stop, s.token.kind = .identifier → s.token.isTypeOperator = false →
        (c.drop n).peekKind.continuesType = false →
          (Grammar.ofDepth (k + 1)).type ctx ⟨s :: c.ahead, c.last⟩ = .ok ((), c.drop n) := by
  obtain ⟨hn, hmem⟩ := (Cursor.argumentWidth?_eq_some_iff hc).1 hscan
  have hreads : ReadsArguments Lookahead.typeArgumentDepth := readsArguments _
  have hlength : (c.ahead.take n).length ≤ k := (List.length_take_le' _ _).trans hk
  have hsplit : c = ⟨c.ahead.take n ++ c.ahead.drop n, c.last⟩ := by rw [List.take_append_drop]
  refine ⟨hn, ?_, fun s hs hoperator hnext => ?_⟩
  · conv_lhs => rw [hsplit]
    exact hreads (by omega) hlength hwords hmem
  · have htype := hreads.type hdepth (Nat.succ_le_succ hlength)
      (List.forall_mem_cons.2 ⟨hoperator, hwords⟩) (mem_reference_cons hs hmem) hnext
    rwa [List.cons_append, List.take_append_drop] at htype

/-- With no more levels left than it takes. -/
theorem typeArguments_agree_deep :
    let s : Stop := ⟨[], .identifier, "foo", .start⟩
    beforeNested.Closed ∧ beforeNested.argumentWidth? = some 12 ∧
      typeArguments (Grammar.ofDepth 13).type ⟨false, 191⟩ beforeNested = .ok ((), beforeNested.drop 12) ∧
      (Grammar.ofDepth 14).type ⟨false, 191⟩ ⟨s :: beforeNested.ahead, beforeNested.last⟩ =
        .ok ((), beforeNested.drop 12) := by
  intro s
  have hclosed : beforeNested.Closed := rfl
  have hscan : beforeNested.argumentWidth? = some 12 := rfl
  obtain ⟨-, harguments, htype⟩ := typeArguments_agree hclosed hscan (by decide)
    ⟨false, 191⟩ (by decide) 13 (by decide)
  exact ⟨hclosed, hscan, harguments, htype s rfl (by decide) rfl⟩

end Production

end ScriptFront
