import ScriptFront.Proofs.Production.Reads

/-!
# Nested brackets

Reading a token sequence from the front opens and closes brackets. The sequence is nested if every
bracket that it closes is the one opened last, and none is open at its end. `Takes P before p after` says
what a production does to the open brackets where `P` holds of the cursor: with `before` open in front of
it, `after` are open behind it. Most productions close what they open: they are `Nests`.
-/

namespace ScriptFront

inductive Bracket where
  | round | square | curly
deriving DecidableEq, Repr

namespace Kind

/-- The bracket that the token opens. -/
def opens? : Kind → Option Bracket
  | .mark .openParen => some .round
  | .mark .openBracket => some .square
  | .mark .openBrace => some .curly
  | _ => none

/-- The bracket that the token closes. -/
def closes? : Kind → Option Bracket
  | .mark .closeParen => some .round
  | .mark .closeBracket => some .square
  | .mark .closeBrace => some .curly
  | _ => none

/-- The brackets that are open behind the token, innermost first. Only the innermost one can be
closed. -/
def openBehind (k : Kind) (before : List Bracket) : Option (List Bracket) :=
  match k.opens?, k.closes?, before with
  | some b, _, before => some (b :: before)
  | none, some b, b' :: before => if b = b' then some before else none
  | none, some _, [] => none
  | none, none, before => some before

end Kind

/-- The brackets that are open behind a token sequence. -/
def openBehind (before : List Bracket) (kinds : List Kind) : Option (List Bracket) :=
  kinds.foldlM (fun brackets k => k.openBehind brackets) before

/-- Whether the brackets of a token sequence are nested and all closed. -/
def Nested (kinds : List Kind) : Prop := openBehind [] kinds = some []

instance (kinds : List Kind) : Decidable (Nested kinds) :=
  inferInstanceAs (Decidable (openBehind [] kinds = some []))

example : Nested [.mark .openParen, .identifier, .mark .openBracket, .mark .closeBracket,
    .mark .closeParen] := by decide

example : ¬ Nested [.mark .openParen, .mark .openBracket, .mark .closeParen,
    .mark .closeBracket] := by decide

theorem openBehind_append (before : List Bracket) (ks ks' : List Kind) :
    openBehind before (ks ++ ks') = (openBehind before ks).bind (openBehind · ks') :=
  List.foldlM_append

namespace Kind

/-- Whether the token is no bracket. -/
class IsPlain (k : Kind) : Prop where
  opens : k.opens? = none
  closes : k.closes? = none

theorem IsPlain.openBehind {k : Kind} [h : k.IsPlain] (before : List Bracket) :
    k.openBehind before = some before := by
  unfold Kind.openBehind
  rw [h.opens, h.closes]

end Kind

namespace Cursor

/-- Whether `d` is reached from `c` by reading tokens behind which `after` are open if `before` are open
in front of them. -/
def Leads (c : Cursor) (before : List Bracket) (d : Cursor) (after : List Bracket) : Prop :=
  d.last = c.last ∧ ∃ taken, c.ahead = taken ++ d.ahead ∧
    openBehind before (taken.map (·.token.kind)) = some after

namespace Leads

variable {c d e : Cursor} {before between after : List Bracket}

theorem refl (c : Cursor) (before : List Bracket) : c.Leads before c before :=
  ⟨rfl, [], rfl, rfl⟩

theorem trans (h : c.Leads before d between) (h' : d.Leads between e after) :
    c.Leads before e after := by
  obtain ⟨hlast, taken, htaken, hopen⟩ := h
  obtain ⟨hlast', taken', htaken', hopen'⟩ := h'
  refine ⟨hlast'.trans hlast, taken ++ taken', ?_, ?_⟩
  · rw [htaken, htaken', List.append_assoc]
  · rw [List.map_append, openBehind_append, hopen]
    exact hopen'

theorem closed (h : c.Leads before d after) (hc : c.Closed) : d.Closed := by
  unfold Closed
  rw [h.1]
  exact hc

end Leads

/-- Reading a token does to the open brackets what the token says. -/
theorem next_leads {c : Cursor} {before after : List Bracket} (hc : c.Closed)
    (h : c.peekKind.openBehind before = some after) : c.Leads before c.next after := by
  have hend : c.peekKind = .endOfFile → before = after := by
    intro hkind
    rw [hkind] at h
    exact Option.some.inj h
  unfold peekKind peek peekNth at h hend
  unfold next
  split
  · next hahead =>
    rw [hahead] at hend
    cases hend hc
    exact .refl c before
  · next s rest hahead =>
    rw [hahead] at h hend
    split
    · next hs =>
      cases hend hs
      exact .refl c before
    · refine ⟨rfl, [s], hahead, ?_⟩
      show (do openBehind (← s.token.kind.openBehind before) []) = some after
      have hs : s.token.kind.openBehind before = some after := h
      rw [hs]
      rfl

theorem advance_add (c : Cursor) (m n : Nat) : c.advance (m + n) = (c.advance m).advance n := by
  induction m generalizing c with
  | zero =>
    rw [Nat.zero_add]
    rfl
  | succ m ih =>
    rw [Nat.succ_add]
    exact ih c.next

/-- Reading two tokens does what they say one behind the other. -/
theorem advance_two_leads {c : Cursor} {before between after : List Bracket} (hc : c.Closed)
    (hkind : c.peekKind ≠ .endOfFile) (h : c.peekKind.openBehind before = some between)
    (h' : (c.peekNth 1).kind.openBehind between = some after) :
    c.Leads before (c.advance 2) after := by
  have hnext := next_leads hc h
  refine hnext.trans (next_leads (hnext.closed hc) ?_)
  rw [peekKind, peek, c.peekNth_next hkind]
  exact h'

end Cursor

namespace Production

variable {α β σ : Type}

/-- Whether `p`, run where `P` holds with the brackets `before` open, leaves `after` open. -/
structure Takes (P : Cursor → Prop) (before : List Bracket) (p : Production α)
    (after : α → List Bracket) : Prop where
  leads : ∀ {ctx : Context} {c : Cursor} {a : α} {d : Cursor}, c.Closed → P c →
    p ctx c = .ok (a, d) → c.Leads before d (after a)

/-- The condition of a production that may stand anywhere. -/
def Anywhere : Cursor → Prop := fun _ => True

/-- Whether `p` closes the brackets that it opens and no others. -/
class Nests (p : Production α) : Prop where
  takes : ∀ before, Takes Anywhere before p fun _ => before

/-- Whether `p` opens `b`, and closes every other bracket that it opens. -/
class Opens (b : outParam Bracket) (p : Production α) : Prop where
  takes : ∀ before, Takes Anywhere before p fun _ => b :: before

/-- Whether `p` closes the brackets that it opens and then `b`. -/
class Closes (b : Bracket) (p : Production α) : Prop where
  takes : ∀ before, Takes Anywhere (b :: before) p fun _ => before

namespace Takes

variable {P : Cursor → Prop} {p : Production α} {f : α → Production β}
  {before m : List Bracket} {after : α → List Bracket} {after' : β → List Bracket}

/-- A production does where `P` holds what it does under a weaker condition. -/
theorem under {P' : Cursor → Prop} (hp : Takes P' before p after) (h : ∀ c, P c → P' c) :
    Takes P before p after :=
  ⟨fun hc hP hok => hp.leads hc (h _ hP) hok⟩

theorem anywhere (hp : Takes Anywhere before p after) : Takes P before p after :=
  hp.under fun _ _ => trivial

theorem pure {a : α} (h : before = after a) : Takes P before (Pure.pure a) after := by
  refine ⟨fun {_ c _ _} _ _ hok => ?_⟩
  cases hok
  rw [← h]
  exact .refl c before

theorem fail (cause : Cause) (position : Position) :
    Takes P before (Production.fail cause position) after :=
  ⟨fun _ _ hok => nomatch hok⟩

theorem failHere (cause : String → Cause) : Takes P before (Production.failHere cause) after :=
  ⟨fun _ _ hok => nomatch hok⟩

/-- What stands behind an error is not read. -/
theorem failThen (cause : Cause) (position : Position) {f : α → Production β} :
    Takes P before (Production.fail cause position >>= f) after' :=
  ⟨fun _ _ hok => nomatch hok⟩

theorem failHereThen (cause : String → Cause) {f : α → Production β} :
    Takes P before (Production.failHere cause >>= f) after' :=
  ⟨fun _ _ hok => nomatch hok⟩

theorem bind (hp : Takes P before p after) (hf : ∀ a, Takes Anywhere (after a) (f a) after') :
    Takes P before (p >>= f) after' := by
  refine ⟨fun hc hP hok => ?_⟩
  obtain ⟨a, d, hp', hf'⟩ := bind_ok.1 hok
  have hcd := hp.leads hc hP hp'
  exact hcd.trans ((hf a).leads (hcd.closed hc) trivial hf')

/-- What a production says about the place where it stops may be used behind it. -/
theorem bindAt {R : Cursor → Prop} (hp : Takes P before p after)
    (hR : ∀ {ctx c a d}, P c → p ctx c = .ok (a, d) → R d)
    (hf : ∀ a, Takes R (after a) (f a) after') : Takes P before (p >>= f) after' := by
  refine ⟨fun hc hP hok => ?_⟩
  obtain ⟨a, d, hp', hf'⟩ := bind_ok.1 hok
  have hcd := hp.leads hc hP hp'
  exact hcd.trans ((hf a).leads (hcd.closed hc) (hR hP hp') hf')

theorem map {h : α → β} (hp : Takes P before p after) (hh : ∀ a, after a = after' (h a)) :
    Takes P before (h <$> p) after' :=
  hp.bind fun a => .pure (hh a)

theorem ite {b : Prop} [Decidable b] {q : Production α} (hp : b → Takes P before p after)
    (hq : ¬ b → Takes P before q after) : Takes P before (if b then p else q) after := by
  split
  · next h => exact hp h
  · next h => exact hq h

theorem nested (hp : Takes Anywhere before p after) :
    Takes P before (Production.nested p) after := by
  refine ⟨fun {ctx c _ _} hc _ hok => ?_⟩
  unfold Production.nested at hok
  split at hok
  · cases hok
  · exact hp.leads hc trivial hok

/-- What stands in front of a production is nested. -/
theorem behind [hp : Nests p] (hf : ∀ a, Takes Anywhere before (f a) after') :
    Takes P before (p >>= f) after' :=
  (hp.takes before).anywhere.bind hf

theorem opened {b : Bracket} [hp : Opens b p]
    (hf : ∀ a, Takes Anywhere (b :: before) (f a) after') : Takes P before (p >>= f) after' :=
  (hp.takes before).anywhere.bind hf

theorem closed {b : Bracket} [hp : Closes b p] (hf : ∀ a, Takes Anywhere before (f a) after') :
    Takes P (b :: before) (p >>= f) after' :=
  (hp.takes before).anywhere.bind hf

theorem nests [hp : Nests p] : Takes P before p fun _ => before := (hp.takes before).anywhere

theorem closes {b : Bracket} [hp : Closes b p] : Takes P (b :: before) p fun _ => before :=
  (hp.takes before).anywhere

/-! ### Looking before reading -/

theorem asks {h : Cursor → α} (hf : ∀ a, Takes (fun c => P c ∧ h c = a) before (f a) after') :
    Takes P before (Production.asks h >>= f) after' :=
  ⟨fun {_ c _ _} hc hP hok => (hf (h c)).leads hc ⟨hP, rfl⟩ hok⟩

theorem peek {f : Token → Production β}
    (hf : ∀ t, Takes (fun c => P c ∧ c.peek = t) before (f t) after') :
    Takes P before (Production.peek >>= f) after' :=
  asks (h := Cursor.peek) hf

theorem peekKind {f : Kind → Production β}
    (hf : ∀ k, Takes (fun c => P c ∧ c.peekKind = k) before (f k) after') :
    Takes P before (Production.peekKind >>= f) after' :=
  asks (h := Cursor.peekKind) hf

theorem next (h : ∀ c, P c → c.peekKind.openBehind before = some m) :
    Takes P before Production.next fun _ => m := by
  refine ⟨fun hc hP hok => ?_⟩
  cases hok
  exact Cursor.next_leads hc (h _ hP)

theorem drop (h : ∀ c, P c → c.peekKind.openBehind before = some m) :
    Takes P before (discard Production.next) fun _ => m :=
  (next h).map fun _ => rfl

theorem skip {f : Unit → Production β}
    (h : ∀ c, P c → c.peekKind.openBehind before = some m)
    (hf : ∀ u, Takes Anywhere m (f u) after') :
    Takes P before (discard Production.next >>= f) after' :=
  (drop h).bind hf

theorem nextThen {f : Token → Production β}
    (h : ∀ c, P c → c.peekKind.openBehind before = some m)
    (hf : ∀ t, Takes Anywhere m (f t) after') : Takes P before (Production.next >>= f) after' :=
  (next h).bind hf

/-- A token of a kind that has been seen. -/
theorem skipAt {k : Kind} {f : Unit → Production β} (hk : k.openBehind before = some m)
    (hf : ∀ u, Takes Anywhere m (f u) after') :
    Takes (fun c => P c ∧ c.peekKind = k) before (discard Production.next >>= f) after' := by
  refine skip (fun c hc => ?_) hf
  rw [hc.2]
  exact hk

theorem skipToken {t : Token} {k : Kind} {f : Unit → Production β} (ht : t.kind = k)
    (hk : k.openBehind before = some m) (hf : ∀ u, Takes Anywhere m (f u) after') :
    Takes (fun c => P c ∧ c.peek = t) before (discard Production.next >>= f) after' := by
  refine skip (fun c hc => ?_) hf
  rw [Cursor.peekKind, hc.2, ht]
  exact hk

theorem dropAt {k : Kind} (hk : k.openBehind before = some m) :
    Takes (fun c => P c ∧ c.peekKind = k) before (discard Production.next) fun _ => m := by
  refine drop fun c hc => ?_
  rw [hc.2]
  exact hk

theorem advance_two (hkind : ∀ c, P c → c.peekKind ≠ .endOfFile)
    (h : ∀ c, P c → c.peekKind.openBehind before = some m) {last : List Bracket}
    (h' : ∀ c, P c → (c.peekNth 1).kind.openBehind m = some last) :
    Takes P before (Production.advance 2) fun _ => last := by
  refine ⟨fun hc hP hok => ?_⟩
  cases hok
  exact Cursor.advance_two_leads hc (hkind _ hP) (h _ hP) (h' _ hP)

/-- A token that a test lets through. -/
theorem nextIf (test : Cursor → Bool) {cause : String → Cause}
    (h : ∀ c, test c = true → c.peekKind.openBehind before = some m) :
    Takes P before (do if ← Production.asks test then Production.next else Production.failHere cause)
      fun _ => m :=
  asks fun _ => .ite (fun hb => .next fun c hc => h c (hc.2.trans hb)) fun _ => .failHere cause

end Takes

/-! ## Tokens -/

instance (k : Keyword) : Kind.IsPlain (.keyword k) := ⟨rfl, rfl⟩

instance : Kind.IsPlain .identifier := ⟨rfl, rfl⟩

instance : Kind.IsPlain .string := ⟨rfl, rfl⟩

section Marks

instance : Kind.IsPlain (.mark .arrow) := ⟨rfl, rfl⟩

instance : Kind.IsPlain (.mark .colon) := ⟨rfl, rfl⟩

instance : Kind.IsPlain (.mark .comma) := ⟨rfl, rfl⟩

instance : Kind.IsPlain (.mark .dot) := ⟨rfl, rfl⟩

instance : Kind.IsPlain (.mark .ellipsis) := ⟨rfl, rfl⟩

instance : Kind.IsPlain (.mark .equals) := ⟨rfl, rfl⟩

instance : Kind.IsPlain (.mark .greater) := ⟨rfl, rfl⟩

instance : Kind.IsPlain (.mark .less) := ⟨rfl, rfl⟩

instance : Kind.IsPlain (.mark .minus) := ⟨rfl, rfl⟩

instance : Kind.IsPlain (.mark .question) := ⟨rfl, rfl⟩

instance : Kind.IsPlain (.mark .semicolon) := ⟨rfl, rfl⟩

instance : Kind.IsPlain (.mark .star) := ⟨rfl, rfl⟩

end Marks

theorem Kind.openBehind_of_isName {k : Kind} (h : k.isName = true) (before : List Bracket) :
    k.openBehind before = some before := by
  cases k with
  | identifier => rfl
  | keyword _ => rfl
  | _ => cases h

theorem Cursor.openBehind_of_isWord {c : Cursor} {w : String} (h : c.peek.isWord w = true)
    (before : List Bracket) : c.peekKind.openBehind before = some before := by
  unfold Token.isWord at h
  rw [Bool.and_eq_true] at h
  rw [show c.peekKind = .identifier from eq_of_beq h.1]
  rfl

/-- A token that is accepted opens or closes what its kind does. -/
theorem Takes.accept {P : Cursor → Prop} {k : Kind} {before after : List Bracket}
    (hk : k.openBehind before = some after) : Takes P before (Production.accept k) fun _ => after := by
  refine ⟨fun {_ c _ _} hc _ hok => ?_⟩
  unfold Production.accept Cursor.accept Cursor.optional at hok
  by_cases h : c.isAt k = true
  · rw [if_pos h] at hok
    cases hok
    refine Cursor.next_leads hc ?_
    rw [show c.peekKind = k from eq_of_beq h]
    exact hk
  · rw [if_neg h] at hok
    cases hok

/-- Behind a token that may be missing is open what its kind opens or closes, if it is there. -/
theorem Takes.optional {P : Cursor → Prop} {k : Kind} {before after : List Bracket}
    (hk : k.openBehind before = some after) :
    Takes P before (Production.optional k) fun t => if t.isSome then after else before := by
  refine ⟨fun {_ c _ _} hc _ hok => ?_⟩
  unfold Production.optional Cursor.optional at hok
  by_cases h : c.isAt k = true
  · rw [if_pos h] at hok
    cases hok
    refine Cursor.next_leads hc ?_
    rw [show c.peekKind = k from eq_of_beq h]
    exact hk
  · rw [if_neg h] at hok
    cases hok
    exact .refl c before

theorem Takes.skips {P : Cursor → Prop} {k : Kind} {before m : List Bracket}
    (hk : k.openBehind before = some m) :
    Takes P before (Production.skips k) fun b => if b then m else before :=
  (Takes.optional hk).bind fun _ => .pure rfl

instance : Opens .round (accept (.mark .openParen)) := ⟨fun _ => .accept rfl⟩

instance : Opens .square (accept (.mark .openBracket)) := ⟨fun _ => .accept rfl⟩

instance : Opens .curly (accept (.mark .openBrace)) := ⟨fun _ => .accept rfl⟩

instance : Closes .round (accept (.mark .closeParen)) := ⟨fun _ => .accept rfl⟩

instance : Closes .square (accept (.mark .closeBracket)) := ⟨fun _ => .accept rfl⟩

instance : Closes .curly (accept (.mark .closeBrace)) := ⟨fun _ => .accept rfl⟩

/-! ## Productions put together -/

namespace Nests

variable {p q : Production α}

instance looks [hp : Looks p] : Nests p := by
  refine ⟨fun before => ⟨fun {_ c _ _} _ _ hok => ?_⟩⟩
  cases hp.stays hok
  exact .refl c before

instance fail (cause : Cause) (position : Position) :
    Nests (Production.fail cause position : Production α) := ⟨fun _ => .fail ..⟩

instance failHere (cause : String → Cause) :
    Nests (Production.failHere cause : Production α) := ⟨fun _ => .failHere ..⟩

instance bind {f : α → Production β} [hp : Nests p] [hf : ∀ a, Nests (f a)] : Nests (p >>= f) :=
  ⟨fun before => .behind fun a => (hf a).takes before⟩

/-- A bracket that is opened here is closed behind. -/
instance bracketed {b : Bracket} {f : α → Production β} [hp : Opens b p]
    [hf : ∀ a, Closes b (f a)] : Nests (p >>= f) :=
  ⟨fun before => .opened fun a => (hf a).takes before⟩

instance map (f : α → β) [Nests p] : Nests (f <$> p) := bind (f := fun a => Pure.pure (f a))

instance discard [Nests p] : Nests (Functor.discard p) := map _

instance nested [hp : Nests p] : Nests (Production.nested p) :=
  ⟨fun before => .nested (hp.takes before)⟩

instance ite {c : Prop} [Decidable c] [hp : Nests p] [hq : Nests q] :
    Nests (if c then p else q) := by
  split
  · exact hp
  · exact hq

instance accept (k : Kind) [hk : k.IsPlain] : Nests (Production.accept k) :=
  ⟨fun before => .accept (hk.openBehind before)⟩

instance optional (k : Kind) [hk : k.IsPlain] : Nests (Production.optional k) := by
  refine ⟨fun before => ?_⟩
  have hoptional := Takes.optional (P := Anywhere) (hk.openBehind before)
  simp only [ite_self] at hoptional
  exact hoptional

instance skips (k : Kind) [k.IsPlain] : Nests (Production.skips k) := by
  unfold Production.skips
  infer_instance

instance semicolon : Nests Production.semicolon := by
  unfold Production.semicolon
  infer_instance

instance identifier : Nests Production.identifier := by
  refine ⟨fun before => Takes.nextIf (·.isAt .identifier) fun c h => ?_⟩
  rw [show c.peekKind = .identifier from eq_of_beq h]
  rfl

instance name : Nests Production.name :=
  ⟨fun before => Takes.nextIf (·.peekKind.isName) fun _ h =>
    Kind.openBehind_of_isName h before⟩

instance word (w : String) : Nests (Production.word w) :=
  ⟨fun before => Takes.nextIf (·.peek.isWord w) fun _ h => Cursor.openBehind_of_isWord h before⟩

end Nests

namespace Opens

instance discard {b : Bracket} {p : Production α} [hp : Opens b p] : Opens b (Functor.discard p) :=
  ⟨fun before => (hp.takes before).map fun _ => rfl⟩

end Opens

namespace Closes

variable {b : Bracket} {p : Production α}

instance bind_left {f : α → Production β} [hp : Closes b p] [hf : ∀ a, Nests (f a)] :
    Closes b (p >>= f) :=
  ⟨fun before => .closed fun a => (hf a).takes before⟩

instance bind_right {f : α → Production β} [hp : Nests p] [hf : ∀ a, Closes b (f a)] :
    Closes b (p >>= f) :=
  ⟨fun before => .behind fun a => (hf a).takes before⟩

instance discard [hp : Closes b p] : Closes b (Functor.discard p) :=
  ⟨fun before => (hp.takes before).map fun _ => rfl⟩

end Closes

/-! ## Words -/

/-- A word that has been seen is read. -/
theorem Takes.wordThen {w : String} {f : Unit → Production α} {q : Production α}
    {before : List Bracket} {after : α → List Bracket}
    (hf : ∀ u, Takes Anywhere before (f u) after) (hq : Takes Anywhere before q after) :
    Takes Anywhere before (do if ← isAtWord w then Functor.discard Production.next >>= f else q) after :=
  Takes.asks (h := fun c => c.peek.isWord w) fun _ =>
    .ite (fun hb => .skip (fun _ hc => Cursor.openBehind_of_isWord (hc.2.trans hb) before) hf)
      fun _ => hq.anywhere

section Words

variable {w : String} {f : Unit → Production α} {q : Production α}

instance Nests.wordThen [hf : ∀ u, Nests (f u)] [hq : Nests q] :
    Nests (do if ← isAtWord w then Functor.discard Production.next >>= f else q) :=
  ⟨fun before => .wordThen (fun u => (hf u).takes before) (hq.takes before)⟩

instance Closes.wordThen {b : Bracket} [hf : ∀ u, Closes b (f u)] [hq : Closes b q] :
    Closes b (do if ← isAtWord w then Functor.discard Production.next >>= f else q) :=
  ⟨fun before => .wordThen (fun u => (hf u).takes before) (hq.takes before)⟩

end Words

/-! ## Repetition -/

/-- The brackets that are open behind a round. -/
def behindTurn (going : σ → List Bracket) (after : β → List Bracket) : Turn σ β → List Bracket
  | .again s => going s
  | .done b => after b

/-- The brackets that a repetition finds open are those that each round finds open. -/
theorem Takes.loop {P : Cursor → Prop} (going : σ → List Bracket) {after : β → List Bracket}
    {step : σ → Production (Turn σ β)}
    (hstep : ∀ s, Takes Anywhere (going s) (step s) (behindTurn going after)) (s : σ) :
    Takes P (going s) (Production.loop step s) after := by
  have hrounds : ∀ rounds s, Takes Anywhere (going s) (loopFrom step rounds s) after := by
    intro rounds
    induction rounds with
    | nil => exact fun s => .behind fun _ => .fail ..
    | cons r rounds ih =>
      intro s
      unfold loopFrom
      refine (hstep s).bind fun t => ?_
      cases t with
      | again s => exact ih s
      | done b => exact .pure rfl
  exact ⟨fun {_ c _ _} hc _ hok => (hrounds (c.last :: c.ahead) s).leads hc trivial hok⟩

instance Nests.loop {step : σ → Production (Turn σ β)} [hstep : ∀ s, Nests (step s)] (s : σ) :
    Nests (Production.loop step s) := by
  refine ⟨fun before => .loop (fun _ => before) (fun s => ?_) s⟩
  refine ⟨fun {_ _ t _} hc hP hok => ?_⟩
  cases t <;> exact ((hstep s).takes before).leads hc hP hok

/-- Rounds go on with the same brackets open, and the last one may close some. -/
theorem Takes.rounds {P : Cursor → Prop} {p : Production Bool} {during after : List Bracket}
    (hp : Takes Anywhere during p fun b => if b then during else after) :
    Takes P during (Production.rounds p) fun _ => after := by
  unfold Production.rounds
  refine .loop (fun _ => during) (fun _ => hp.bind fun b => ?_) ()
  cases b with
  | true => exact .pure rfl
  | false => exact .pure rfl

/-- A repetition stops where its last round does. -/
theorem loop_stops {R : Cursor → Prop} {step : σ → Production (Turn σ β)}
    (hstep : ∀ {s ctx c b d}, step s ctx c = .ok (.done b, d) → R d) {s : σ} {ctx : Context}
    {c d : Cursor} {b : β} (h : Production.loop step s ctx c = .ok (b, d)) : R d := by
  have hrounds : ∀ {rounds s c}, loopFrom step rounds s ctx c = .ok (b, d) → R d := by
    intro rounds
    induction rounds with
    | nil => exact fun hok => nomatch hok
    | cons r rounds ih =>
      intro s c hok
      unfold loopFrom at hok
      obtain ⟨t, e, hround, hok⟩ := bind_ok.1 hok
      cases t with
      | again s => exact ih hok
      | done b' =>
        cases hok
        exact hstep hround
  exact hrounds h

section Repetition

variable {p : Production α}

instance Nests.rounds {p : Production Bool} [Nests p] : Nests (Production.rounds p) := by
  unfold Production.rounds
  infer_instance

instance Nests.separated [Nests p] : Nests (Production.separated p) := by
  unfold Production.separated
  dsimp only
  infer_instance

instance Closes.listed {b : Bracket} {close : Mark} [Closes b (accept (.mark close))] [Nests p] :
    Closes b (Production.listed close p) := by
  unfold Production.listed
  dsimp only
  infer_instance

end Repetition

end Production

end ScriptFront
