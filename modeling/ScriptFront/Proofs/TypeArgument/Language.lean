import Mathlib.Computability.Language
import ScriptFront.Proofs.Depth.Types
import ScriptFront.Proofs.Erasure.TypeArguments

/-!
# The language of type arguments

Behind a name in an expression, type arguments are found by looking ahead. `arguments` is their language,
over kinds of tokens. A lookahead `Scans` a language if what it steps over is a word of it, and if it steps
over every word of it that stands before a token of the right kind. No two words of the language start the
same tokens, so the lookahead that goes on wherever it can finds the one that is there, and
`genericArguments` reads it.
-/

namespace ScriptFront

open scoped Computability

/-- The kinds of the tokens in a row of stops. -/
def Stop.kindsOf (stops : List Stop) : List Kind := stops.map (·.token.kind)

/-! ## The language -/

namespace Kind

/-- The language of one word: a token of the kind. -/
def one (k : Kind) : Language Kind := {[k]}

/-- Names with points between them, arguments from `args` or none, and pairs of brackets. -/
def reference (args : Language Kind) : Language Kind :=
  one .identifier * (one (.mark .dot) * one .identifier)∗ * (args + 1) *
    (one (.mark .openBracket) * one (.mark .closeBracket))∗

/-- References in angle brackets with commas between them, at most `n` pairs of angle brackets deep. -/
def arguments : Nat → Language Kind
  | 0 => 0
  | n + 1 =>
    one (.mark .less) * (reference (arguments n) * (one (.mark .comma) * reference (arguments n))∗) *
      one (.mark .greater)

end Kind

namespace Stop

open Kind (one)

variable {L M : Language Kind} {taken : List Stop} {k : Kind}

theorem kindsOf_append (taken rest : List Stop) : kindsOf (taken ++ rest) = kindsOf taken ++ kindsOf rest :=
  List.map_append

theorem kindsOf_mem_one : kindsOf taken ∈ one k ↔ ∃ s, taken = [s] ∧ s.token.kind = k := by
  constructor
  · intro h
    obtain ⟨s, _, rfl, hs, hnil⟩ := List.map_eq_cons_iff.1 (show kindsOf taken = [k] from h)
    cases List.map_eq_nil_iff.1 hnil
    exact ⟨s, rfl, hs⟩
  · rintro ⟨s, rfl, rfl⟩
    rfl

theorem kindsOf_mem_mul :
    kindsOf taken ∈ L * M ↔ ∃ left right, taken = left ++ right ∧ kindsOf left ∈ L ∧ kindsOf right ∈ M := by
  constructor
  · rintro ⟨v, hv, w, hw, hvw⟩
    obtain ⟨left, right, rfl, rfl, rfl⟩ := List.map_eq_append_iff.1 hvw.symm
    exact ⟨left, right, rfl, hv, hw⟩
  · rintro ⟨left, right, rfl, hleft, hright⟩
    rw [kindsOf_append]
    exact Language.append_mem_mul hleft hright

theorem kindsOf_mem_kstar : kindsOf taken ∈ L∗ ↔
    taken = [] ∨ ∃ left right, taken = left ++ right ∧ kindsOf left ∈ L ∧ kindsOf right ∈ L∗ := by
  rw [← Language.one_add_self_mul_kstar_eq_kstar, Language.mem_add, Language.mem_one, kindsOf,
    List.map_eq_nil_iff, ← kindsOf, kindsOf_mem_mul, Language.one_add_self_mul_kstar_eq_kstar]

end Stop

/-! ## What a language starts with -/

namespace Kind

variable {L M : Language Kind} {F G H : Kind → Prop} {k : Kind}

/-- Whether the words of `L` start with a kind in `F`; an empty word, if a kind in `G` stands behind it. -/
def Begins (L : Language Kind) (G F : Kind → Prop) : Prop := ∀ w ∈ L, ∀ k, G k → F (w.headD k)

namespace Begins

theorem any : Begins L G fun _ => True := fun _ _ _ _ => trivial

theorem mono {F' G' : Kind → Prop} (hL : Begins L G F) (hG : ∀ k, G' k → G k) (hF : ∀ k, F k → F' k) :
    Begins L G' F' :=
  fun w hw k hk => hF _ (hL w hw k (hG k hk))

theorem one (hk : F k) : Begins (one k) G F := by
  rintro w rfl _ _
  exact hk

theorem nothing (h : ∀ k, G k → F k) : Begins 1 G F := by
  rintro w rfl k hk
  exact h k hk

theorem add (hL : Begins L G F) (hM : Begins M G F) : Begins (L + M) G F :=
  fun w hw => hw.elim (hL w) (hM w)

theorem mul (hL : Begins L G F) (hM : Begins M H G) : Begins (L * M) H F := by
  rintro _ ⟨v, hv, w, hw, rfl⟩ k hk
  have hhead := hL v hv _ (hM w hw k hk)
  cases v with
  | nil => exact hhead
  | cons => exact hhead

theorem kstar (hk : F k) (h : ∀ k, G k → F k) : Begins (Kind.one k * L)∗ G F := by
  rw [← Language.one_add_self_mul_kstar_eq_kstar, mul_assoc]
  exact (nothing h).add ((one hk).mul any)

end Begins

end Kind

/-! ## Scanning a language -/

namespace Lookahead

open Kind (one reference arguments Begins)
open Stop (kindsOf kindsOf_mem_one kindsOf_mem_mul kindsOf_mem_kstar)

/-- Whether `f` steps over the words of `L`: over nothing else, and over each of them that stands before a
token of a kind in `F`. -/
structure Scans (f : Lookahead → Option Lookahead) (L : Language Kind) (F : Kind → Prop) : Prop where
  sound : ∀ {ahead : List Stop} {last : Stop} {n : Nat} {l : Lookahead}, last.token.kind = .endOfFile →
    f ⟨ahead, last, n⟩ = some l →
      ∃ taken rest, ahead = taken ++ rest ∧ l = ⟨rest, last, n + taken.length⟩ ∧ kindsOf taken ∈ L
  complete : ∀ {taken rest : List Stop} {last : Stop} (n : Nat), last.token.kind = .endOfFile →
    kindsOf taken ∈ L → F (peekOf rest last).kind →
      f ⟨taken ++ rest, last, n⟩ = some ⟨rest, last, n + taken.length⟩

/-- The kind of the first token of a row, or of the one behind it. -/
theorem peekOf_append_kind (taken rest : List Stop) (last : Stop) :
    (peekOf (taken ++ rest) last).kind = (kindsOf taken).headD (peekOf rest last).kind := by
  cases taken <;> rfl

namespace Scans

variable {f g more : Lookahead → Option Lookahead} {L M : Language Kind} {F G : Kind → Prop} {k : Kind}
  {m : Mark}

theorem mono (hf : Scans f L F) (h : ∀ k, G k → F k) : Scans f L G :=
  ⟨hf.sound, fun n hlast hmem hnext => hf.complete n hlast hmem (h _ hnext)⟩

theorem nothing : Scans some 1 fun _ => True := by
  refine ⟨fun {ahead last n l} _ h => ⟨[], ahead, rfl, (Option.some.inj h).symm, rfl⟩,
    fun {taken rest last} n _ hmem _ => ?_⟩
  cases List.map_eq_nil_iff.1 hmem
  rfl

theorem eat (hk : k ≠ .endOfFile) : Scans (·.eat k) (one k) fun _ => True := by
  refine ⟨fun hlast h => ?_, fun {taken rest last} n _ hmem _ => ?_⟩
  · obtain ⟨s, rest, rfl, hs, rfl⟩ := eat_some hlast hk h
    exact ⟨[s], rest, rfl, rfl, kindsOf_mem_one.2 ⟨s, rfl, hs⟩⟩
  · obtain ⟨s, rfl, hs⟩ := kindsOf_mem_one.1 hmem
    exact eat_cons hs

/-- What is stepped over first has to be followed by what is stepped over then, or by what follows both. -/
theorem bind (hf : Scans f L F) (hg : Scans g M G) (h : Begins M G F) :
    Scans (fun l => f l >>= g) (L * M) G := by
  refine ⟨fun hlast hok => ?_, fun {taken rest last} n hlast hmem hnext => ?_⟩
  · obtain ⟨l₁, h₁, h₂⟩ := Option.bind_eq_some_iff.1 hok
    obtain ⟨left, rest, rfl, rfl, hleft⟩ := hf.sound hlast h₁
    obtain ⟨right, rest, rfl, rfl, hright⟩ := hg.sound hlast h₂
    refine ⟨left ++ right, rest, (List.append_assoc ..).symm, ?_,
      kindsOf_mem_mul.2 ⟨_, _, rfl, hleft, hright⟩⟩
    rw [List.length_append, Nat.add_assoc]
  · obtain ⟨left, right, rfl, hleft, hright⟩ := kindsOf_mem_mul.1 hmem
    have hbetween : F (peekOf (right ++ rest) last).kind := by
      rw [peekOf_append_kind]
      exact h _ hright _ hnext
    rw [List.append_assoc, hf.complete n hlast hleft hbetween, List.length_append, ← Nat.add_assoc]
    exact hg.complete _ hlast hright hnext

/-- The token ahead tells whether something stands there. -/
theorem optional (hf : Scans f L fun _ => True) (hL : Begins L (fun _ => True) (· = k)) :
    Scans (fun l => if l.peek.kind = k then f l else some l) (L + 1) (· ≠ k) := by
  refine ⟨fun {ahead last n l} hlast hok => ?_, fun {taken rest last} n hlast hmem hnext => ?_⟩
  · split at hok
    · obtain ⟨taken, rest, hahead, hl, hmem⟩ := hf.sound hlast hok
      exact ⟨taken, rest, hahead, hl, .inl hmem⟩
    · obtain ⟨taken, rest, hahead, hl, hmem⟩ := nothing.sound hlast hok
      exact ⟨taken, rest, hahead, hl, .inr hmem⟩
  · have hpeek : (⟨taken ++ rest, last, n⟩ : Lookahead).peek.kind =
        (kindsOf taken).headD (peekOf rest last).kind := peekOf_append_kind taken rest last
    obtain hmem | hmem := hmem
    · rw [if_pos (hpeek.trans (hL _ hmem _ trivial))]
      exact hf.complete n hlast hmem trivial
    · have hempty : kindsOf taken = [] := hmem
      rw [if_neg (by rwa [hpeek, hempty])]
      exact nothing.complete n hlast hmem trivial

/-! ## Repetitions -/

/-- What stands behind a mark, with the mark. -/
theorem marked (hmore : Scans more L F) :
    Scans (fun l => l.eat (.mark m) >>= more) (one (.mark m) * L) F :=
  (Scans.eat (by simp)).bind hmore .any

theorem whileEat_sound (hmore : Scans more L F) {rounds ahead : List Stop} {last : Stop} {n : Nat}
    {l : Lookahead} (hlast : last.token.kind = .endOfFile)
    (h : whileEat (.mark m) more rounds ⟨ahead, last, n⟩ = some l) :
    ∃ taken rest, ahead = taken ++ rest ∧ l = ⟨rest, last, n + taken.length⟩ ∧
      kindsOf taken ∈ (one (.mark m) * L)∗ := by
  have hnone : ∀ {ahead n}, some ⟨ahead, last, n⟩ = some l → ∃ taken rest, ahead = taken ++ rest ∧
      l = ⟨rest, last, n + taken.length⟩ ∧ kindsOf taken ∈ (one (.mark m) * L)∗ :=
    fun h => ⟨[], _, rfl, (Option.some.inj h).symm, Language.nil_mem_kstar _⟩
  induction rounds generalizing ahead n with
  | nil => exact hnone h
  | cons round rounds ih =>
    unfold whileEat at h
    split at h
    · exact hnone h
    · next l₁ h₁ =>
      split at h
      · cases h
      · next l₂ h₂ =>
        have hround := Option.bind_eq_some_iff.2 ⟨l₁, h₁, h₂⟩
        obtain ⟨left, rest, rfl, rfl, hleft⟩ := hmore.marked.sound hlast hround
        obtain ⟨right, rest, rfl, rfl, hright⟩ := ih h
        refine ⟨left ++ right, rest, (List.append_assoc ..).symm, ?_,
          kindsOf_mem_kstar.2 (.inr ⟨left, right, rfl, hleft, hright⟩)⟩
        rw [List.length_append, Nat.add_assoc]

/-- There have to be rounds enough: one for each token will do. -/
theorem whileEat_complete (hmore : Scans more L F) (hF : F (.mark m)) {rounds taken rest : List Stop}
    {last : Stop} (n : Nat) (hlast : last.token.kind = .endOfFile) (hrounds : taken.length ≤ rounds.length)
    (hmem : kindsOf taken ∈ (one (.mark m) * L)∗) (hnext : F (peekOf rest last).kind)
    (hstop : (peekOf rest last).kind ≠ .mark m) :
    whileEat (.mark m) more rounds ⟨taken ++ rest, last, n⟩ = some ⟨rest, last, n + taken.length⟩ := by
  induction rounds generalizing taken n with
  | nil =>
    cases List.length_eq_zero_iff.1 (Nat.le_zero.1 hrounds)
    rfl
  | cons round rounds ih =>
    obtain rfl | ⟨left, right, rfl, hleft, hright⟩ := kindsOf_mem_kstar.1 hmem
    · exact whileEat_stop hstop
    · obtain ⟨_, item, rfl, hmark, hitem⟩ := kindsOf_mem_mul.1 hleft
      obtain ⟨s, rfl, hs⟩ := kindsOf_mem_one.1 hmark
      have hbetween : F (peekOf (right ++ rest) last).kind := by
        rw [peekOf_append_kind]
        exact Begins.kstar hF (fun _ => id) _ hright _ hnext
      simp only [List.cons_append, List.nil_append, List.append_assoc, List.length_append,
        List.length_cons] at hrounds ⊢
      rw [whileEat_round hs (hmore.complete (n + 1) hlast hitem hbetween), ih _ (by omega) hright]
      simp only [Option.some.injEq, Lookahead.mk.injEq, true_and]
      omega

theorem eatAll (hmore : Scans more L F) (hF : F (.mark m)) :
    Scans (·.eatAll (.mark m) more) (one (.mark m) * L)∗ fun k => F k ∧ k ≠ .mark m := by
  refine ⟨fun hlast h => hmore.whileEat_sound hlast h, fun {taken rest last} n hlast hmem hnext => ?_⟩
  exact hmore.whileEat_complete hF n hlast (by simp) hmem hnext.1 hnext.2

end Scans

/-! ## Type arguments -/

/-- Whether a token of this kind behind a reference is no part of it. -/
def EndsReference (k : Kind) : Prop := k ≠ .mark .dot ∧ k ≠ .mark .less ∧ k ≠ .mark .openBracket

theorem arguments_begins (n : Nat) : Begins (arguments n) (fun _ => True) (· = .mark .less) := by
  cases n with
  | zero => exact fun _ h => h.elim
  | succ n =>
    unfold arguments
    rw [mul_assoc]
    exact .mul (.one rfl) .any

/-- No point stands behind the names of a reference. -/
theorem suffix_begins {L : Language Kind} (hL : Begins L (fun _ => True) (· = .mark .less)) :
    Begins ((L + 1) * (one (.mark .openBracket) * one (.mark .closeBracket))∗) EndsReference
      (· ≠ .mark .dot) := by
  have harguments : Begins L (· ≠ .mark .dot) (· ≠ .mark .dot) := hL.mono (fun _ _ => trivial) (by simp)
  exact (harguments.add (.nothing fun _ => id)).mul (.kstar (by simp) fun _ h => h.1)

theorem typeReference_eq (args : Lookahead → Option Lookahead) :
    typeReference args = fun l => l.eat .identifier >>= fun l =>
      l.eatAll (.mark .dot) (·.eat .identifier) >>= fun l =>
        (if l.peek.kind = .mark .less then args l else some l) >>= fun l =>
          l.eatAll (.mark .openBracket) (·.eat (.mark .closeBracket)) := by
  funext l
  unfold typeReference
  refine congrArg _ (funext fun l => congrArg _ (funext fun l => ?_))
  split <;> rfl

theorem typeReference_scans {args : Lookahead → Option Lookahead} {L : Language Kind}
    (hargs : Scans args L fun _ => True) (hL : Begins L (fun _ => True) (· = .mark .less)) :
    Scans (typeReference args) (reference L) EndsReference := by
  have hname : Scans (·.eat .identifier) (one .identifier) fun _ => True := .eat (by simp)
  have hclose : Scans (·.eat (.mark .closeBracket)) (one (.mark .closeBracket)) fun _ => True :=
    .eat (by simp)
  have hbrackets := (hclose.eatAll (m := .openBracket) trivial).mono (G := EndsReference)
    fun _ h => ⟨trivial, h.2.2⟩
  have hrest := (hargs.optional hL).bind hbrackets (.kstar (by simp) fun _ h => h.2.1)
  have hfirst := (suffix_begins hL).mono (fun _ => id) fun k hk => (⟨trivial, hk⟩ : True ∧ k ≠ .mark .dot)
  have hnames := (hname.eatAll (m := .dot) trivial).bind hrest hfirst
  rw [typeReference_eq]
  unfold reference
  rw [mul_assoc, mul_assoc]
  exact hname.bind hnames .any

theorem typeArguments_scans (n : Nat) : Scans (typeArguments n) (arguments n) fun _ => True := by
  induction n with
  | zero => exact ⟨fun _ h => (nomatch h), fun _ _ hmem _ => hmem.elim⟩
  | succ n ih =>
    have hreference := typeReference_scans ih (arguments_begins n)
    have hcommas := hreference.eatAll (m := .comma) (by simp [EndsReference])
    have hgreater : Scans (·.eat (.mark .greater)) (one (.mark .greater)) fun _ => True := .eat (by simp)
    have hend := hcommas.bind hgreater (.one (by simp [EndsReference]))
    unfold arguments
    rw [mul_assoc, mul_assoc]
    refine Scans.marked (hreference.bind hend (.mul (.kstar (by simp [EndsReference]) fun _ => id) ?_))
    exact .one (by simp [EndsReference])

end Lookahead

/-! ## Reading them -/

namespace Cursor

variable {c : Cursor} {m n : Nat}

/-- A cursor before tokens of the given kinds, with the texts that the kinds go by. -/
def ofKinds (kinds : List Kind) : Cursor :=
  ⟨kinds.map fun k => ⟨[], k, k.text, .start⟩, [], .endOfFile .start⟩

/-- The cursor `n` tokens on. -/
def drop (c : Cursor) (n : Nat) : Cursor := ⟨c.ahead.drop n, c.last⟩

theorem drop_inj (hm : m ≤ c.remaining) (hn : n ≤ c.remaining) (h : c.drop m = c.drop n) : m = n := by
  have hlength := congrArg Cursor.remaining h
  simp only [drop, remaining, List.length_drop] at hm hn hlength
  omega

/-- Whether the next `n` tokens are type arguments that nest no deeper than they may in an expression. -/
def DerivesArguments (c : Cursor) (n : Nat) : Prop :=
  n ≤ c.remaining ∧ Stop.kindsOf (c.ahead.take n) ∈ Kind.arguments Lookahead.typeArgumentDepth

theorem argumentWidth?_eq_some_iff (hc : c.Closed) : c.argumentWidth? = some n ↔ c.DerivesArguments n := by
  have hscans := Lookahead.typeArguments_scans Lookahead.typeArgumentDepth
  constructor
  · intro h
    obtain ⟨l, hl, rfl⟩ := Option.map_eq_some_iff.1 h
    obtain ⟨taken, rest, hahead, rfl, hmem⟩ := hscans.sound hc hl
    unfold DerivesArguments remaining
    rw [hahead, Nat.zero_add, List.take_left]
    exact ⟨by simp, hmem⟩
  · rintro ⟨hn, hmem⟩
    have hlength : (c.ahead.take n).length = n := List.length_take_of_le hn
    have hscan : Lookahead.typeArguments _ ⟨c.ahead.take n ++ c.ahead.drop n, c.last, 0⟩ = _ :=
      hscans.complete 0 hc hmem trivial
    rw [List.take_append_drop, hlength, Nat.zero_add] at hscan
    exact Option.map_eq_some_iff.2 ⟨_, hscan, rfl⟩

/-- Type arguments are not read past the end of the file. -/
theorem advance_of_argumentWidth? (hc : c.Closed) (h : c.argumentWidth? = some n) :
    c.advance n = c.drop n := by
  obtain ⟨taken, s, rest, hahead, rfl, -, hjoins, -⟩ := argumentWidth?_eq_some hc h
  have hopen := (hjoins .identifier False.elim).open_mem
  obtain ⟨ahead, last⟩ := c
  obtain rfl : ahead = taken ++ [s] ++ rest := hahead
  rw [advance_append hopen, drop, List.drop_left]

end Cursor

namespace Production

/-- **The language of type arguments.** From every cursor before the end of the file, reading the type
arguments that may stand behind a name succeeds. It gets `n` tokens on, if `n` is not zero, exactly when
those are type arguments; there is no other such `n`; and it reads nothing if there is none. -/
theorem genericArguments_iff {c : Cursor} (hc : c.Closed) (ctx : Context) :
    ∃ d, genericArguments ctx c = .ok ((), d) ∧
      (∀ n, 0 < n → ((n ≤ c.remaining ∧ d = c.drop n) ↔ c.DerivesArguments n)) ∧
      (∀ m n, c.DerivesArguments m → c.DerivesArguments n → m = n) ∧
      ((∀ n, ¬ c.DerivesArguments n) → d = c) := by
  rw [genericArguments_eq]
  have hunique : ∀ m n, c.DerivesArguments m → c.DerivesArguments n → m = n := by
    intro m n hm hn
    rw [← Cursor.argumentWidth?_eq_some_iff hc] at hm hn
    exact Option.some.inj (hm.symm.trans hn)
  cases hwidth : c.argumentWidth? with
  | none =>
    have hnone : ∀ n, ¬ c.DerivesArguments n := by
      intro n hn
      rw [← Cursor.argumentWidth?_eq_some_iff hc, hwidth] at hn
      cases hn
    refine ⟨c, ?_, fun n hpos => ?_, hunique, fun _ => rfl⟩
    · rw [run_asks_bind, hwidth]
      rfl
    · refine iff_of_false (fun ⟨hle, hdrop⟩ => ?_) (hnone n)
      exact hpos.ne (Cursor.drop_inj (Nat.zero_le _) hle hdrop)
  | some m =>
    have hm : c.DerivesArguments m := (Cursor.argumentWidth?_eq_some_iff hc).1 hwidth
    refine ⟨c.drop m, ?_, fun n hpos => ⟨fun ⟨hle, hdrop⟩ => ?_, fun hn => ?_⟩, hunique,
      fun hnone => absurd hm (hnone m)⟩
    · rw [run_asks_bind, hwidth]
      exact congrArg (fun d => Except.ok ((), d)) (Cursor.advance_of_argumentWidth? hc hwidth)
    · exact Cursor.drop_inj hm.1 hle hdrop ▸ hm
    · obtain rfl := hunique n m hn hm
      exact ⟨hn.1, rfl⟩

/-- Before `<a<b>, c.d[]>(`. -/
def beforeNested : Cursor :=
  .ofKinds [.mark .less, .identifier, .mark .less, .identifier, .mark .greater, .mark .comma, .identifier,
    .mark .dot, .identifier, .mark .openBracket, .mark .closeBracket, .mark .greater, .mark .openParen]

/-- Type arguments with others inside, in front of a call. -/
theorem genericArguments_iff_nested :
    beforeNested.Closed ∧ genericArguments ⟨false, 0⟩ beforeNested = .ok ((), beforeNested.drop 12) ∧
      beforeNested.DerivesArguments 12 := by
  have hclosed : beforeNested.Closed := rfl
  have hread : genericArguments ⟨false, 0⟩ beforeNested = .ok ((), beforeNested.drop 12) := rfl
  obtain ⟨d, hok, hiff, -, -⟩ := genericArguments_iff hclosed ⟨false, 0⟩
  have hd : d = beforeNested.drop 12 := congrArg Prod.snd (Except.ok.inj (hok.symm.trans hread))
  exact ⟨hclosed, hread, (hiff 12 (by decide)).1 ⟨by decide, hd⟩⟩

end Production

end ScriptFront
