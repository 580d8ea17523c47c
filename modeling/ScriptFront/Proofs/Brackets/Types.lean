import ScriptFront.Production.TypeAnnotation
import ScriptFront.Proofs.Brackets.Nested

/-!
# Brackets in types

A type that is dropped takes its brackets with it, and type arguments in an expression are stepped over
only if theirs are closed.
-/

set_option synthInstance.maxSize 4000

namespace ScriptFront

namespace Lookahead

/-! ## Type arguments in expressions -/

/-- The cursor at the token ahead. -/
def cursor (l : Lookahead) : Cursor := ⟨l.ahead, l.last⟩

/-- Whether `l'` is `l` a number of steps on, with `after` open if `before` are open at `l`. -/
def Steps (l : Lookahead) (before : List Bracket) (l' : Lookahead) (after : List Bracket) : Prop :=
  ∃ n, l'.consumed = l.consumed + n ∧ l'.cursor = l.cursor.advance n ∧
    l.cursor.Leads before l'.cursor after

/-- Whether `f` steps over nested brackets only. -/
structure StepsNested (f : Lookahead → Option Lookahead) : Prop where
  steps : ∀ {l l' : Lookahead}, l.cursor.Closed → f l = some l' → ∀ before, l.Steps before l' before

namespace Steps

variable {l l' l'' : Lookahead} {before between after : List Bracket}

theorem refl (l : Lookahead) (before : List Bracket) : l.Steps before l before :=
  ⟨0, rfl, rfl, .refl _ _⟩

theorem trans (h : l.Steps before l' between) (h' : l'.Steps between l'' after) :
    l.Steps before l'' after := by
  obtain ⟨m, hm, hcursor, hleads⟩ := h
  obtain ⟨n, hn, hcursor', hleads'⟩ := h'
  refine ⟨m + n, by omega, ?_, hleads.trans hleads'⟩
  rw [hcursor', hcursor, Cursor.advance_add]

theorem closed (h : l.Steps before l' after) (hl : l.cursor.Closed) : l'.cursor.Closed := by
  obtain ⟨_, _, _, hleads⟩ := h
  exact hleads.closed hl

end Steps

theorem eat_steps {l l' : Lookahead} {k : Kind} {before m : List Bracket}
    (hl : l.cursor.Closed) (hend : k ≠ .endOfFile) (hk : k.openBehind before = some m)
    (h : l.eat k = some l') : l.Steps before l' m := by
  obtain ⟨ahead, last, consumed⟩ := l
  unfold eat peek at h
  split at h
  · next hpeek =>
    cases h
    cases ahead with
    | nil => exact absurd (hpeek.symm.trans hl) hend
    | cons s rest =>
      have hs : s.token.kind = k := hpeek
      have hnext : (cursor ⟨s :: rest, last, consumed⟩).next = ⟨rest, last⟩ := by
        unfold Cursor.next cursor
        simp only
        rw [if_neg (by rw [hs]; exact hend)]
      refine ⟨1, rfl, hnext.symm, ?_⟩
      show Cursor.Leads _ before ⟨rest, last⟩ m
      rw [← hnext]
      refine Cursor.next_leads hl ?_
      show s.token.kind.openBehind before = some m
      rw [hs]
      exact hk
  · cases h

/-- A token that is no bracket is stepped over. -/
theorem eat_plain (k : Kind) [hk : k.IsPlain] (hend : k ≠ .endOfFile) : StepsNested (·.eat k) :=
  ⟨fun hl h before => eat_steps hl hend (hk.openBehind before) h⟩

theorem eatAll_steps {k : Kind} {more : Lookahead → Option Lookahead}
    (hround : ∀ {l l' l'' : Lookahead}, l.cursor.Closed → l.eat k = some l' → more l' = some l'' →
      ∀ before, l.Steps before l'' before) : StepsNested (eatAll k more) := by
  have hrounds : ∀ rounds, StepsNested (whileEat k more rounds) := by
    intro rounds
    induction rounds with
    | nil =>
      refine ⟨fun {l l'} hl h before => ?_⟩
      cases h
      exact .refl l before
    | cons r rounds ih =>
      refine ⟨fun {l l'} hl h before => ?_⟩
      unfold whileEat at h
      split at h
      · cases h
        exact .refl l before
      · next l₁ heat =>
        split at h
        · cases h
        · next l₂ hmore =>
          have hfirst := hround hl heat hmore before
          exact hfirst.trans (ih.steps (hfirst.closed hl) h before)
  exact ⟨fun {l _} hl h => (hrounds l.ahead).steps hl h⟩

theorem typeReference_steps {arguments : Lookahead → Option Lookahead}
    (h : StepsNested arguments) : StepsNested (typeReference arguments) := by
  have hidentifier := eat_plain .identifier Kind.noConfusion
  have hnames : StepsNested (eatAll (.mark .dot) (·.eat .identifier)) :=
    eatAll_steps fun hl hdot hname before =>
      have hstep := (eat_plain (.mark .dot) Kind.noConfusion).steps hl hdot before
      hstep.trans (hidentifier.steps (hstep.closed hl) hname before)
  have hsuffixes : StepsNested (eatAll (.mark .openBracket) (·.eat (.mark .closeBracket))) :=
    eatAll_steps fun hl hopen hclose before =>
      have hstep := eat_steps (m := .square :: before) hl Kind.noConfusion rfl hopen
      hstep.trans (eat_steps (hstep.closed hl) Kind.noConfusion rfl hclose)
  refine ⟨fun hl hok before => ?_⟩
  unfold typeReference at hok
  obtain ⟨l₁, hname, hok⟩ := Option.bind_eq_some_iff.1 hok
  obtain ⟨l₂, hrest, hok⟩ := Option.bind_eq_some_iff.1 hok
  have hstep₁ := hidentifier.steps hl hname before
  have hstep₂ := hstep₁.trans (hnames.steps (hstep₁.closed hl) hrest before)
  split at hok
  · obtain ⟨l₃, harguments, hok⟩ := Option.bind_eq_some_iff.1 hok
    have hstep₃ := hstep₂.trans (h.steps (hstep₂.closed hl) harguments before)
    exact hstep₃.trans (hsuffixes.steps (hstep₃.closed hl) hok before)
  · exact hstep₂.trans (hsuffixes.steps (hstep₂.closed hl) hok before)

theorem typeArguments_steps (n : Nat) : StepsNested (typeArguments n) := by
  induction n with
  | zero => exact ⟨fun _ h => nomatch h⟩
  | succ n ih =>
    have hreference := typeReference_steps ih
    have hmore : StepsNested (eatAll (.mark .comma) (typeReference (typeArguments n))) :=
      eatAll_steps fun hl hcomma hnext before =>
        have hstep := (eat_plain (.mark .comma) Kind.noConfusion).steps hl hcomma before
        hstep.trans (hreference.steps (hstep.closed hl) hnext before)
    refine ⟨fun hl hok before => ?_⟩
    unfold typeArguments at hok
    obtain ⟨l₁, hless, hok⟩ := Option.bind_eq_some_iff.1 hok
    obtain ⟨l₂, hfirst, hok⟩ := Option.bind_eq_some_iff.1 hok
    obtain ⟨l₃, hrest, hgreater⟩ := Option.bind_eq_some_iff.1 hok
    have hstep₁ := (eat_plain (.mark .less) Kind.noConfusion).steps hl hless before
    have hstep₂ := hstep₁.trans (hreference.steps (hstep₁.closed hl) hfirst before)
    have hstep₃ := hstep₂.trans (hmore.steps (hstep₂.closed hl) hrest before)
    exact hstep₃.trans ((eat_plain (.mark .greater) Kind.noConfusion).steps (hstep₃.closed hl)
      hgreater before)

end Lookahead

namespace Production

instance genericArguments_nests : Nests genericArguments := by
  unfold genericArguments
  refine ⟨fun before => .asks fun found => ?_⟩
  cases found with
  | none => exact .pure rfl
  | some l =>
    refine ⟨fun {_ c _ _} hc hP hok => ?_⟩
    cases hok
    obtain ⟨n, hconsumed, hcursor, hleads⟩ :=
      (Lookahead.typeArguments_steps _).steps (l := .ofCursor c) hc hP.2 before
    have hn : l.consumed = n := hconsumed.trans (Nat.zero_add n)
    rw [hn]
    rw [hcursor] at hleads
    exact hleads

variable {type : Production Unit} [htype : Nests type]

/-! ## Where types stand -/

instance ascribedType_nests : Nests (ascribedType type) := by
  unfold ascribedType
  infer_instance

instance asTypes_nests : Nests (asTypes type) := by
  unfold asTypes
  infer_instance

instance typeParameters_nests : Nests (typeParameters type) := by
  unfold typeParameters
  dsimp only
  infer_instance

instance typeArguments_nests : Nests (typeArguments type) := by
  unfold typeArguments
  infer_instance

instance typeAssertion_nests : Nests (typeAssertion type) := by
  unfold typeAssertion
  infer_instance

/-! ## Parts of types -/

instance qualifiedName_nests : Nests qualifiedName := by
  unfold qualifiedName
  infer_instance

instance typeParameterList_nests : Nests (typeParameterList type) := by
  unfold typeParameterList
  infer_instance

instance functionType_nests : Nests (functionType type) := by
  unfold functionType
  infer_instance

instance tupleType_nests : Nests (tupleType type) := by
  unfold tupleType
  infer_instance

instance signature_nests : Nests (signature type) := by
  unfold signature
  infer_instance

instance bracketMember_nests : Nests (bracketMember type) := by
  unfold bracketMember
  dsimp only
  infer_instance

theorem namedMember_takes {P : Cursor → Prop} {before : List Bracket}
    (h : ∀ c, P c → c.peekKind.openBehind before = some before) :
    Takes P before (namedMember type) fun _ => before := by
  unfold namedMember
  exact .skip h fun _ => .nests

instance bareTypeMember_nests : Nests (bareTypeMember type) := by
  unfold bareTypeMember
  refine ⟨fun before => .peekKind fun k => ?_⟩
  split
  · exact .nests
  · exact .nests
  · exact .nests
  · refine .asks fun isMethod => .ite (fun _ => .skip ?_ fun _ => .nests) fun _ =>
      namedMember_takes ?_
    all_goals
      intro c hc
      rw [hc.1.2]
      rfl
  all_goals
    first
    | exact .failHere _
    | refine namedMember_takes fun c hc => ?_
      rw [hc.2]
      rfl

instance typeMember_nests : Nests (typeMember type) := by
  unfold typeMember
  refine ⟨fun before => .asks fun isReadonly => .ite (fun h => .skip (fun c hc => ?_) fun _ => .nests)
    fun _ => .nests⟩
  have hword := hc.2.trans h
  unfold Cursor.startsReadonly at hword
  rw [Bool.and_eq_true] at hword
  exact Cursor.openBehind_of_isWord hword.1 before

/-- The brace of an object type is closed by its last round. -/
instance objectType_nests : Nests (objectType type) := by
  unfold objectType
  refine ⟨fun before => .opened fun brace => .rounds (.peekKind fun k => ?_)⟩
  split
  · exact .skipAt rfl fun _ => .pure rfl
  · exact .fail _ _
  · exact .skipAt rfl fun _ => .pure rfl
  · exact .skipAt rfl fun _ => .pure rfl
  · exact .behind fun _ => .pure rfl

/-! ## Types -/

instance namedType_nests : Nests (namedType type) := by
  unfold namedType
  infer_instance

/-- A number with a minus in front of it is read in one go. -/
theorem number_takes {P : Cursor → Prop} {before : List Bracket}
    (h : ∀ c, P c → c.peekKind = .mark .minus ∧ c.startsNegative = true) :
    Takes P before (advance 2) fun _ => before := by
  refine .advance_two (m := before) (fun c hP => ?_) (fun c hP => ?_) fun c hP => ?_
  · rw [(h c hP).1]
    exact Kind.noConfusion
  · rw [(h c hP).1]
    rfl
  · have hnumber := (h c hP).2
    unfold Cursor.startsNegative at hnumber
    split at hnumber
    · next hint =>
      rw [hint]
      rfl
    · next hfloat =>
      rw [hfloat]
      rfl
    · cases hnumber

/-- The brackets of an array suffix are read in one go. -/
theorem arraySuffix_takes {P : Cursor → Prop} {before : List Bracket}
    (h : ∀ c, P c → c.startsArraySuffix = true) : Takes P before (advance 2) fun _ => before := by
  have hkinds : ∀ c, P c →
      c.peekKind = .mark .openBracket ∧ (c.peekNth 1).kind = .mark .closeBracket := by
    intro c hP
    have hsuffix := h c hP
    unfold Cursor.startsArraySuffix Cursor.isAt at hsuffix
    rw [Bool.and_eq_true, beq_iff_eq, beq_iff_eq] at hsuffix
    exact hsuffix
  refine .advance_two (m := .square :: before) (fun c hP => ?_) (fun c hP => ?_)
    fun c hP => ?_
  · rw [(hkinds c hP).1]
    exact Kind.noConfusion
  · rw [(hkinds c hP).1]
    rfl
  · rw [(hkinds c hP).2]
    rfl

instance primaryType_nests : Nests (primaryType type) := by
  unfold primaryType
  refine ⟨fun before => .peekKind fun k => ?_⟩
  split
  · refine .asks fun isFunction => .ite (fun _ => .nests) fun _ =>
      .skip (m := .round :: before) (fun c hc => ?_) fun _ => .behind fun _ => .closes
    rw [hc.1.2]
    rfl
  · exact .nests
  · exact .nests
  · exact .nests
  · exact .dropAt rfl
  · exact .dropAt rfl
  · exact .dropAt rfl
  · exact .dropAt rfl
  · exact .dropAt rfl
  · exact .dropAt rfl
  · exact .dropAt rfl
  · exact .dropAt rfl
  · exact .dropAt rfl
  · refine .asks fun isNegative => .ite (fun h => ?_) fun _ => .failHere _
    exact number_takes fun c hc => ⟨hc.1.2, hc.2.trans h⟩
  · exact .skipAt rfl fun _ => .nests
  · refine .asks fun t => .ite (fun _ => .skip (fun c hc => ?_) fun _ => .nests) fun _ => .nests
    rw [hc.1.2]
    rfl
  · exact .nests
  · exact .nests
  · exact .failHere _

instance arrayType_nests : Nests (arrayType type) := by
  unfold arrayType
  dsimp only
  have hsuffix : Nests (do
      if ← asks Cursor.startsArraySuffix then
        advance 2
        return true
      else return false) := by
    refine ⟨fun before => .asks fun b => .ite (fun h => ?_) fun _ => .pure rfl⟩
    exact (arraySuffix_takes fun c hc => hc.2.trans h).bind fun _ => .pure rfl
  refine ⟨fun before => .asks fun isOperator => .ite (fun h => .skip (fun c hc => ?_) fun _ => .nests)
    fun _ => .nests⟩
  have hword := hc.2.trans h
  unfold Cursor.startsTypeOperator at hword
  rw [Bool.and_eq_true, Bool.or_eq_true] at hword
  exact hword.1.elim (Cursor.openBehind_of_isWord · before) (Cursor.openBehind_of_isWord · before)

theorem openBehind_of_joinsTypes {k : Kind} (h : joinsTypes k = true) (before : List Bracket) :
    k.openBehind before = some before := by
  unfold joinsTypes at h
  rw [Bool.or_eq_true, beq_iff_eq, beq_iff_eq] at h
  obtain rfl | rfl := h <;> rfl

instance unionType_nests : Nests (unionType type) := by
  have hround : Nests (do
      arrayType type
      if joinsTypes (← peekKind) then
        discard next
        return true
      else return false) := by
    refine ⟨fun before => .behind fun _ => .peekKind fun k => .ite (fun h => ?_) fun _ => .pure rfl⟩
    exact .skipAt (openBehind_of_joinsTypes h before) fun _ => .pure rfl
  unfold unionType
  dsimp only
  refine ⟨fun before => .nested (.peekKind fun k => .ite (fun h => ?_) fun _ => .nests)⟩
  exact .skipAt (openBehind_of_joinsTypes h before) fun _ => .nests

/-! ## Declarations of types -/

theorem heritage_takes {P : Cursor → Prop} {before : List Bracket}
    (h : ∀ c, P c → c.peekKind.openBehind before = some before) :
    Takes P before (heritage type) fun _ => before := by
  unfold heritage
  exact .skip h fun _ => .nests

instance interfaceDeclaration_nests : Nests (interfaceDeclaration type) := by
  unfold interfaceDeclaration
  dsimp only
  refine ⟨fun before => .behind fun _ => .behind fun _ => .behind fun _ =>
    .asks (h := fun c => c.peek.isWord "extends") fun isHeir =>
    .asks (h := fun c => c.peek.isWord "implements") fun isMaker =>
    .ite (fun h => .bind (heritage_takes fun c hc => ?_) fun _ => .nests) fun _ => .nests⟩
  rw [Bool.or_eq_true] at h
  obtain h | h := h
  · exact Cursor.openBehind_of_isWord (hc.1.2.trans h) before
  · exact Cursor.openBehind_of_isWord (hc.2.trans h) before

instance typeAlias_nests : Nests (typeAlias type) := by
  unfold typeAlias
  infer_instance

instance functionSignature_nests : Nests (functionSignature type) := by
  unfold functionSignature
  infer_instance

end Production

end ScriptFront
