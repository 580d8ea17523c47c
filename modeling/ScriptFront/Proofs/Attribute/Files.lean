import ScriptFront.Proofs.Attribute.Segments
import ScriptFront.Proofs.Parsed.Files

/-!
# Where attributes go

Every accepted file is a sequence of segments. Of the attributes before a function or a class those that
stand right above it become its own, and all others are left to the file, in the order of the source
(`attributes_shared`). A sequence of segments is refused just when attributes stand right above something
else that is not the first construct.
-/

namespace ScriptFront

open Production

/-! ## What is to be shared out -/

/-- Whether the node has no attributes. -/
def Node.Bare : Node → Prop
  | stmt (.funcDecl f) => f.attributes = []
  | stmt (.classDecl c) => c.attributes = []
  | _ => True

namespace Segment

/-- Whether `own` are the attributes that the construct takes, and `left` those that it leaves. -/
structure Shares (s : Segment) (left own : List Token) : Prop where
  all : s.attributes = left ++ own
  takes : s.declares = true → RunAbove s.first.position left own
  leaves : s.declares = false → own = []

/-- Whether attributes stand right above a construct that takes none. -/
def Misplaced (s : Segment) : Prop :=
  s.declares = false ∧ EndAbove s.first.position s.attributes

/-- The statements of the segment with its own attributes. -/
def placed (s : Segment) (own : List Token) : List Stmt :=
  if s.declares then s.statements.map (Stmt.withAttributes (own.map Token.text)) else s.statements

/-- What the segment adds to a file, with its own attributes. -/
def given (s : Segment) (own : List Token) : Draft :=
  if s.declares then s.adds.withAttributes (own.map Token.text) else s.adds

theorem placed_eq (s : Segment) (own : List Token) :
    s.placed own = (s.given own).statements.reverse := by
  unfold placed given statements Draft.withAttributes
  split <;> simp

theorem imports_eq (s : Segment) (own : List Token) : s.imports = (s.given own).imports.reverse := by
  unfold imports given Draft.withAttributes
  split <;> rfl

theorem globals_eq (s : Segment) (own : List Token) : s.globals = (s.given own).globals.reverse := by
  unfold globals given Draft.withAttributes
  split <;> rfl

end Segment

/-- What is behind a draft that has become another one. -/
structure Draft.Gains (segments : List Segment) (rest : List Token) (left own : Segment → List Token)
    (d d' : Draft) : Prop where
  imports : d'.imports.reverse = d.imports.reverse ++ segments.flatMap Segment.imports
  statements : d'.statements.reverse = d.statements.reverse ++ segments.flatMap fun s => s.placed (own s)
  globals : d'.globals.reverse = d.globals.reverse ++ segments.flatMap Segment.globals
  attributes : d'.attributes.ofFile = d.attributes.ofFile ++
    (segments.flatMap left ++ rest.filter (·.kind = .attribute)).map Token.text

/-! ## Rounds of reading a file -/

namespace Draft

/-- A draft that has met attributes. -/
def meets (d : Draft) (attributes : List Token) : Draft :=
  { d with attributes := attributes.foldl .push d.attributes }

/-- A draft that has left attributes to the file and read a construct. -/
def reads (d : Draft) (left : List Token) (added : Draft) : Draft :=
  plus { d with attributes := ⟨[], d.attributes.ofFile ++ left.map Token.text⟩, started := true } added

end Draft

/-- As long as there are imports only, there are no statements. -/
theorem Segment.statements_reads {d : Draft} {s : Segment} (hd : d.statements = [])
    (hs : s.adds.statements = []) (left own : List Token) :
    (d.reads left (s.given own)).statements = [] := by
  unfold Draft.reads Draft.plus given
  dsimp only
  rw [hd, List.append_nil]
  split
  · unfold Draft.withAttributes
    rw [hs, List.map_nil]
  · exact hs

namespace Grammar

/-- A round of reading a file. -/
def fileTurn (g : Grammar) (d : Draft) : Production (Turn Draft Draft) := do
  let d := { d with attributes := (← asks Cursor.attributes).foldl .push d.attributes }
  let t ← peek
  if t.kind = .endOfFile then return .done { d with attributes := d.attributes.flush }
  let d ← g.construct d t
  return .again { d with started := true }

variable {g : Grammar} {ctx : Context} {c e : Cursor} {d d' : Draft} {s : Segment}

theorem constructs_eq : g.constructs = loop g.fileTurn .empty := rfl

theorem fileTurn_last (h : c.peekKind = .endOfFile) :
    g.fileTurn d ctx c =
      .ok (.done { d with attributes := (d.meets c.attributes).attributes.flush }, c) := by
  unfold fileTurn
  rw [run_asks_bind]
  dsimp only
  rw [run_peek_bind, if_pos (show c.peek.kind = .endOfFile from h)]
  rfl

theorem fileTurn_more (h : c.peekKind ≠ .endOfFile) :
    g.fileTurn d ctx c = (g.construct (d.meets c.attributes) c.peek ctx c).map fun r =>
      (.again { r.1 with started := true }, r.2) := by
  unfold fileTurn
  rw [run_asks_bind]
  dsimp only
  rw [run_peek_bind, if_neg (show c.peek.kind ≠ .endOfFile from h)]
  refine (run_bind _ _ _ _).trans ?_
  unfold Draft.meets
  cases g.construct { d with attributes := c.attributes.foldl .push d.attributes } c.peek ctx c <;> rfl

section Segment

variable (hstands : s.Stands c e) (hc : c.Neat)
  (hread : g.construct .empty c.peek ctx c = .ok (s.adds, e))
  (himport : c.peekKind = .keyword .importWord → d.statements = []) (hrun : d.attributes.run = [])
include hstands hc hread himport hrun

/-- A segment in its place adds what it adds on its own, with its own attributes. -/
theorem construct_segment {left own : List Token} (hshares : s.Shares left own)
    (hplaced : ¬(d.started = true ∧ s.Misplaced)) :
    ∃ d', g.construct (d.meets c.attributes) c.peek ctx c = .ok (d', e) ∧
      { d' with started := true } = d.reads left (s.given own) := by
  unfold Segment.given
  cases hdeclares : s.declares with
  | true =>
    have htaken := AttributeRun.takeFor_foldl s.first.position hrun (hshares.takes hdeclares)
    rw [construct_attributed ((hstands.startsAttributed hc).trans hdeclares), hread]
    refine ⟨_, rfl, ?_⟩
    unfold Draft.meets
    dsimp only
    rw [hstands.attributes, hstands.peek, hshares.all, htaken]
    rfl
  | false =>
    have hown := hshares.leaves hdeclares
    have hsettled := (AttributeRun.settle_foldl s.attributes s.first.position d.started hrun).2
      fun h => hplaced ⟨h.1, hdeclares, h.2⟩
    rw [construct_of_alone (d := d.meets c.attributes) ((hstands.startsAttributed hc).trans hdeclares) hread himport]
    unfold Draft.meets
    dsimp only
    rw [hstands.attributes, hstands.peek, hsettled]
    refine ⟨_, rfl, ?_⟩
    rw [hshares.all, hown, List.append_nil]
    rfl

/-- A segment out of its place is refused. -/
theorem construct_misplaced (hmisplaced : d.started = true ∧ s.Misplaced) :
    ∃ q, g.construct (d.meets c.attributes) c.peek ctx c = .error ⟨.invalidAttribute, q⟩ := by
  obtain ⟨hstarted, hdeclares, habove⟩ := hmisplaced
  obtain ⟨q, hsettled⟩ :=
    (AttributeRun.settle_foldl s.attributes s.first.position d.started hrun).1 ⟨hstarted, habove⟩
  rw [construct_of_alone (d := d.meets c.attributes) ((hstands.startsAttributed hc).trans hdeclares) hread himport]
  unfold Draft.meets
  dsimp only
  rw [hstands.attributes, hstands.peek, hsettled]
  exact ⟨q, rfl⟩

end Segment

end Grammar

/-! ## Whole runs -/

theorem Draft.Gains.last {d : Draft} (hrun : d.attributes.run = []) (rest : List Token)
    (left own : Segment → List Token) :
    d.Gains [] rest left own
      { d with attributes := (d.meets (rest.filter (·.kind = .attribute))).attributes.flush } := by
  have hflush := AttributeRun.flush_foldl (rest.filter (·.kind = .attribute)) hrun
  refine ⟨by simp, by simp, by simp, ?_⟩
  unfold Draft.meets
  dsimp only
  rw [hflush]
  rfl

theorem Draft.Gains.more {d d' : Draft} {s : Segment} {segments : List Segment} {rest : List Token}
    {left own : Segment → List Token}
    (h : (d.reads (left s) (s.given (own s))).Gains segments rest left own d') :
    d.Gains (s :: segments) rest left own d' := by
  obtain ⟨himports, hstatements, hglobals, hattributes⟩ := h
  unfold Draft.reads Draft.plus at himports hstatements hglobals hattributes
  refine ⟨?_, ?_, ?_, ?_⟩
  · rw [himports, List.flatMap_cons, s.imports_eq (own s)]
    simp
  · rw [hstatements, List.flatMap_cons, s.placed_eq]
    simp
  · rw [hglobals, List.flatMap_cons, s.globals_eq (own s)]
    simp
  · rw [hattributes]
    simp

section Runs

variable {g : Grammar} [g.Progress] {ctx : Context} {c e : Cursor} {d d' : Draft}
  {segments : List Segment} {rest tokens : List Token} {rounds : List Stop}

/-- Whatever is read is a sequence of segments. -/
theorem segments_of_loop (hc : c.Neat) (h : loopFrom g.fileTurn rounds d ctx c = .ok (d', e)) :
    ∃ segments rest, Segments g ctx segments rest c.tokens ∧ ImportsFirst segments ∧
      ∀ s ∈ segments, s.first.kind = .keyword .importWord → d.statements = [] := by
  induction rounds generalizing c d with
  | nil => cases h
  | cons round rounds ih =>
    rw [loopFrom] at h
    obtain ⟨turn, c', hturn, h⟩ := bind_ok.1 h
    by_cases hkind : c.peekKind = .endOfFile
    · have hahead : c.ahead = [] := by
        unfold Cursor.peekKind Cursor.peek Cursor.peekNth at hkind
        cases hahead : c.ahead with
        | nil => rfl
        | cons s stops =>
          rw [hahead] at hkind
          exact absurd hkind (hc.ahead s (hahead ▸ List.mem_cons_self)).2
      refine ⟨[], c.last.leading, ?_, .nil, fun s hs => absurd hs List.not_mem_nil⟩
      unfold Cursor.tokens
      rw [hahead]
      exact .last hc.last.leading hc.closed
    · rw [Grammar.fileTurn_more hkind] at hturn
      cases hread : g.construct (d.meets c.attributes) c.peek ctx c with
      | error error =>
        rw [hread] at hturn
        cases hturn
      | ok r =>
        rw [hread] at hturn
        cases hturn
        obtain ⟨added, halone, hstatements, himport⟩ := Grammar.construct_alone hread
        obtain ⟨s, hstands, rfl⟩ := Segment.stands_of_construct hc halone
        have hneat : r.2.Neat := Cursor.Reaches.neat (Consumes.reads.reaches hc.closed halone) hc
        obtain ⟨segments, rest, hsegments, hfirst, himports⟩ := ih hneat h
        have hproper := hstands.proper hc
        have hpeek := hstands.peek
        refine ⟨s :: segments, rest, ?_, ?_, ?_⟩
        · rw [hstands.tokens]
          refine .more hproper ?_ ?_ hsegments
          · rw [← hpeek]
            exact hkind
          · rw [← hstands.tokens, hc.ofTokens_tokens, hneat.ofTokens_tokens, ← hpeek]
            exact halone
        · exact List.pairwise_cons.2
            ⟨fun t ht hword => (hstatements (himports t ht hword)).1, hfirst⟩
        · refine List.forall_mem_cons.2 ⟨fun hword => himport ?_, fun t ht hword => ?_⟩
          · unfold Cursor.peekKind
            rw [hpeek]
            exact hword
          · exact (hstatements (himports t ht hword)).2

/-- The segments behind others, of which there are some if `started` is true. -/
def Segment.behind (started : Bool) (segments : List Segment) : List Segment :=
  if started then segments else segments.tail

theorem Segment.mem_behind_cons {started : Bool} {s t : Segment} :
    t ∈ behind started (s :: segments) ↔ (started = true ∧ t = s) ∨ t ∈ segments := by
  unfold behind
  cases started with
  | true => simp
  | false => simp

/-- What becomes of a sequence of segments. -/
theorem loop_of_segments (rounds : List Stop) (h : Segments g ctx segments rest tokens) (hfirst : ImportsFirst segments)
    (himports : ∀ s ∈ segments, s.first.kind = .keyword .importWord → d.statements = [])
    (hrun : d.attributes.run = []) {left own : Segment → List Token}
    (hshares : ∀ s ∈ segments, s.Shares (left s) (own s))
    (hrounds : (Cursor.ofTokens tokens).remaining < rounds.length) :
    ((∀ s ∈ Segment.behind d.started segments, ¬s.Misplaced) →
      ∃ d' e, loopFrom g.fileTurn rounds d ctx (Cursor.ofTokens tokens) = .ok (d', e) ∧
        d.Gains segments rest left own d') ∧
    ((∃ s ∈ Segment.behind d.started segments, s.Misplaced) →
      ∃ q, loopFrom g.fileTurn rounds d ctx (Cursor.ofTokens tokens) =
        .error ⟨.invalidAttribute, q⟩) := by
  induction h generalizing d rounds with
  | @last rest eof hrest heof =>
    obtain ⟨round, rounds, rfl⟩ := List.exists_cons_of_length_pos (Nat.zero_lt_of_lt hrounds)
    have hturn : g.fileTurn d ctx ⟨[], rest, eof⟩ = _ := Grammar.fileTurn_last heof
    rw [(Cursor.neat_last hrest heof).2, loopFrom, run_bind_of_ok hturn]
    refine ⟨fun _ => ⟨_, _, rfl, .last hrun rest left own⟩, ?_⟩
    rintro ⟨s, hs, -⟩
    unfold Segment.behind at hs
    simp at hs
  | @more s segments rest tokens hproper hkind hread hsegments ih =>
    obtain ⟨round, rounds, rfl⟩ := List.exists_cons_of_length_pos (Nat.zero_lt_of_lt hrounds)
    obtain ⟨hbefore, hfirst⟩ := List.pairwise_cons.1 hfirst
    obtain ⟨himport, himports⟩ := List.forall_mem_cons.1 himports
    obtain ⟨hshare, hshares⟩ := List.forall_mem_cons.1 hshares
    obtain ⟨hc, hstands⟩ := hsegments.stands hproper hread
    generalize Cursor.ofTokens (s.tokens ++ tokens) = c at hread hrounds hc hstands ⊢
    have hpeek := hstands.peek
    have hmore : c.peekKind ≠ .endOfFile := by
      unfold Cursor.peekKind
      rw [hpeek]
      exact hkind
    have hturn : g.fileTurn d ctx c = _ := Grammar.fileTurn_more hmore
    rw [← hpeek] at hread
    have himport' : c.peekKind = .keyword .importWord → d.statements = [] := by
      intro hword
      refine himport ?_
      rw [← hpeek]
      exact hword
    rw [loopFrom]
    by_cases hmisplaced : d.started = true ∧ s.Misplaced
    · obtain ⟨q, herror⟩ := Grammar.construct_misplaced hstands hc hread himport' hrun hmisplaced
      rw [herror] at hturn
      refine ⟨fun hfree => absurd hmisplaced.2 (hfree s ?_), fun _ => ⟨q, run_bind_of_error hturn⟩⟩
      exact Segment.mem_behind_cons.2 (.inl ⟨hmisplaced.1, rfl⟩)
    · obtain ⟨d₁, hconstruct, hd₁⟩ :=
        Grammar.construct_segment hstands hc hread himport' hrun hshare hmisplaced
      rw [hconstruct] at hturn
      rw [run_bind_of_ok hturn]
      dsimp only
      rw [hd₁]
      have hd : ∀ t ∈ segments, t.first.kind = .keyword .importWord →
          (d.reads (left s) (s.given (own s))).statements = [] :=
        fun t ht hword => Segment.statements_reads (himports t ht hword) (hbefore t ht hword) _ _
      have hless : (Cursor.ofTokens tokens).remaining < rounds.length := by
        have hshorter := hstands.remaining
        rw [List.length_cons] at hrounds
        omega
      obtain ⟨hok, herror⟩ := ih rounds hfirst hd rfl hshares hless
      refine ⟨fun hfree => ?_, ?_⟩
      · obtain ⟨d', e, hrest, hgains⟩ := hok fun t ht => hfree t (Segment.mem_behind_cons.2 (.inr ht))
        exact ⟨d', e, hrest, hgains.more⟩
      · rintro ⟨t, ht, hmisplaced'⟩
        obtain ⟨hstarted, rfl⟩ | ht := Segment.mem_behind_cons.1 ht
        · exact absurd ⟨hstarted, hmisplaced'⟩ hmisplaced
        · exact herror ⟨t, ht, hmisplaced'⟩

end Runs

/-! ## What a construct adds -/

/-- The statements that can have attributes. -/
inductive Stmt.IsDeclaration : Stmt → Prop where
  | function (f : FuncDecl) : IsDeclaration (.funcDecl f)
  | ofClass (c : ClassDecl) : IsDeclaration (.classDecl c)

section Constructs

variable {g : Grammar} {ctx : Context} {c e : Cursor}

theorem Grammar.isDeclaration_functionOrClass {exported : Bool} {s : Stmt}
    (h : g.functionOrClass exported ctx c = .ok (s, e)) : s.IsDeclaration := by
  unfold functionOrClass at h
  rw [run_isAt_bind] at h
  split at h
  · obtain ⟨k, _, -, hpure⟩ := bind_ok.1 h
    cases hpure
    exact .ofClass k
  · obtain ⟨f, _, -, hpure⟩ := bind_ok.1 h
    cases hpure
    exact .function f

theorem Grammar.isDeclaration_some {exported : Bool} {item : Option Stmt}
    (h : (some <$> g.functionOrClass exported) ctx c = .ok (item, e)) :
    ∃ s, item = some s ∧ s.IsDeclaration := by
  obtain ⟨s, _, hs, hpure⟩ := bind_ok.1 h
  cases hpure
  exact ⟨s, rfl, isDeclaration_functionOrClass hs⟩

/-- A function or a class is one with its attributes, too. -/
theorem Grammar.isDeclaration_attributed {position : Position} {declaration : Production (Option Stmt)}
    {adds : Draft} (hdeclaration : ∀ {item d}, declaration ctx c = .ok (item, d) →
      ∃ s, item = some s ∧ s.IsDeclaration)
    (h : attributed .empty position declaration ctx c = .ok (adds, e)) :
    ∃ d, adds.statements = [d] ∧ d.IsDeclaration := by
  rw [run_attributed] at h
  cases hread : declaration ctx c with
  | error error =>
    rw [hread] at h
    cases h
  | ok r =>
    rw [hread] at h
    cases h
    obtain ⟨s, hs, hdeclares⟩ := hdeclaration hread
    rw [hs]
    refine ⟨_, rfl, ?_⟩
    cases hdeclares with
    | function f => exact .function _
    | ofClass k => exact .ofClass _

/-- Where a function or a class starts, one is added and nothing else. -/
theorem Grammar.isDeclaration_construct {adds : Draft} (hstarts : c.startsAttributed = true)
    (h : g.construct .empty c.peek ctx c = .ok (adds, e)) :
    ∃ d, adds.statements = [d] ∧ d.IsDeclaration := by
  unfold Cursor.startsAttributed at hstarts
  unfold construct at h
  rw [show c.peek.kind = c.peekKind from rfl] at h
  by_cases hexport : c.peekKind = .keyword .exportWord
  · rw [if_pos hexport] at hstarts
    rw [hexport] at h
    simp only [run_asks_bind, c.exportsAttributed_eq, if_pos hstarts] at h
    refine isDeclaration_attributed (fun {item d} hok => ?_) h
    have hword : c.isAt (.keyword .exportWord) = true := beq_iff_eq.2 hexport
    have hread : discard (accept (.keyword .exportWord)) ctx c = .ok ((), c.next) :=
      run_bind_of_ok (run_accept_of_isAt ctx hword)
    have hsecond : c.next.peek = c.peekNth 1 := c.peekNth_next (by rw [hexport]; simp) 0
    unfold exportDeclaration at hok
    rw [run_bind_of_ok hread, run_peek_bind, hsecond] at hok
    unfold Kind.isAttributed at hstarts
    split at hstarts
    · next hkind =>
      rw [hkind] at hok
      exact isDeclaration_some hok
    · next hkind =>
      rw [hkind] at hok
      exact isDeclaration_some hok
    · cases hstarts
  · rw [if_neg hexport] at hstarts
    unfold Kind.isAttributed at hstarts
    split at hstarts
    · next hkind =>
      rw [hkind] at h
      exact isDeclaration_attributed isDeclaration_some h
    · next hkind =>
      rw [hkind] at h
      exact isDeclaration_attributed isDeclaration_some h
    · cases hstarts

variable {segments : List Segment} {rest tokens : List Token} [g.Progress] [∀ file, g.Parses file]

/-- What segments add has no attributes of its own, at any depth. -/
theorem Segments.adds (h : Segments g ctx segments rest tokens) :
    ∀ s ∈ segments, (∀ d ∈ s.statements ++ s.globals, (Node.stmt d).Everywhere Node.Bare) ∧
      (s.declares = true → ∃ d, s.statements = [d] ∧ d.IsDeclaration) := by
  induction h with
  | last => exact List.forall_mem_nil _
  | @more s segments rest tokens hproper _ hread hsegments ih =>
    refine List.forall_mem_cons.2 ⟨?_, ih⟩
    obtain ⟨hc, hstands⟩ := hsegments.stands hproper hread
    generalize Cursor.ofTokens (s.tokens ++ tokens) = c at hread hc hstands
    rw [← hstands.peek] at hread
    refine ⟨fun d hd => ?_, fun hdeclares => ?_⟩
    · have hempty : Draft.empty.Placed c (· = []) := List.forall_mem_nil _
      have hplaced : s.adds.Placed c (· = []) :=
        ((Grammar.Parses.construct hempty rfl).holds hc.closed (.refl c) hread).1
      have hd' : d ∈ s.adds.statements ++ s.adds.globals := by
        simpa [Segment.statements, Segment.globals] using hd
      have hparsed := (hplaced d hd').parsed
      intro node hnode
      have hproper := hparsed node hnode
      unfold Node.Bare
      split
      · exact hproper.1
      · exact hproper
      · trivial
    · obtain ⟨d, hd, hdeclaration⟩ :=
        Grammar.isDeclaration_construct ((hstands.startsAttributed hc).trans hdeclares) hread
      unfold Segment.statements
      rw [hd]
      exact ⟨d, rfl, hdeclaration⟩

end Constructs

/-! ## Whole files -/

/-- Whether the tokens are valid but for the places of attributes: they are constructs that can be read, and
no import comes behind a statement. -/
structure ReadsAs (options : Options) (tokens : List Token) (segments : List Segment)
    (rest : List Token) : Prop where
  constructs : Segments (Grammar.ofDepth ((Cursor.ofTokens tokens).remaining + 1)) ⟨options.optimize, 0⟩
    segments rest tokens
  imports : ImportsFirst segments

/-- Whether the file is what the segments add, with the attributes of each shared out between its construct
and the file. -/
structure File.SharesOut (file : File) (segments : List Segment) (rest : List Token)
    (left own : Segment → List Token) : Prop where
  shares : ∀ s ∈ segments, s.Shares (left s) (own s)
  declared : ∀ s ∈ segments, s.declares = true → ∃ d, s.statements = [d] ∧ d.IsDeclaration
  bare : ∀ s ∈ segments, ∀ d ∈ s.statements ++ s.globals, (Node.stmt d).Everywhere Node.Bare
  imports : file.imports = segments.flatMap Segment.imports
  statements : file.statements = segments.flatMap fun s => s.placed (own s)
  globals : file.globals = segments.flatMap Segment.globals
  attributes : file.attributes = (segments.flatMap left ++ rest.filter (·.kind = .attribute)).map Token.text

theorem Segment.exists_shares (s : Segment) : ∃ left own, s.Shares left own := by
  cases hdeclares : s.declares with
  | true =>
    obtain ⟨left, own, hall, habove, -⟩ :=
      AttributeRun.exists_takeFor_foldl s.attributes s.first.position (r := .empty) rfl
    exact ⟨left, own, hall, fun _ => habove, fun h => absurd (h.symm.trans hdeclares) Bool.false_ne_true⟩
  | false =>
    exact ⟨s.attributes, [], by simp, fun h => absurd (hdeclares.symm.trans h) Bool.false_ne_true,
      fun _ => rfl⟩

section Files

variable {tokens : List Token} {path : String} {options : Options} {segments : List Segment}
  {rest : List Token}

theorem File.ofTokens_eq : File.ofTokens tokens path options =
    (loopFrom (Grammar.ofDepth ((Cursor.ofTokens tokens).remaining + 1)).fileTurn
      ((Cursor.ofTokens tokens).last :: (Cursor.ofTokens tokens).ahead) .empty ⟨options.optimize, 0⟩
      (Cursor.ofTokens tokens)).map fun r =>
        ⟨path, r.1.imports.reverse, r.1.statements.reverse, r.1.attributes.ofFile,
          Comment.ofTokens tokens, r.1.globals.reverse⟩ := by
  unfold File.ofTokens runOn
  dsimp only
  rw [Grammar.constructs_eq]
  unfold loop
  generalize loopFrom _ _ _ _ _ = result
  cases result <;> rfl

/-- Valid tokens are a file just when no attributes stand right above a construct that takes none. -/
theorem ReadsAs.file (path : String) (h : ReadsAs options tokens segments rest) {left own : Segment → List Token}
    (hshares : ∀ s ∈ segments, s.Shares (left s) (own s)) :
    ((¬∃ s ∈ segments.tail, s.Misplaced) →
      ∃ file, File.ofTokens tokens path options = .ok file ∧ file.SharesOut segments rest left own) ∧
    ((∃ s ∈ segments.tail, s.Misplaced) →
      ∃ q, File.ofTokens tokens path options = .error ⟨.invalidAttribute, q⟩) := by
  obtain ⟨hsegments, hfirst⟩ := h
  have hadds := hsegments.adds
  rw [File.ofTokens_eq]
  obtain ⟨hok, herror⟩ := loop_of_segments (d := .empty)
    ((Cursor.ofTokens tokens).last :: (Cursor.ofTokens tokens).ahead) hsegments hfirst
    (fun _ _ _ => rfl) rfl hshares (Nat.lt_succ_self _)
  refine ⟨fun hfree => ?_, fun hmisplaced => ?_⟩
  · obtain ⟨d, e, hrun, hgains⟩ := hok fun s hs hmisplaced => hfree ⟨s, hs, hmisplaced⟩
    rw [hrun]
    exact ⟨_, rfl, hshares, fun s hs => (hadds s hs).2, fun s hs => (hadds s hs).1, hgains.imports,
      hgains.statements, hgains.globals, hgains.attributes⟩
  · obtain ⟨q, hrun⟩ := herror hmisplaced
    rw [hrun]
    exact ⟨q, rfl⟩

end Files

/-- Every accepted file is a sequence of constructs with comments and attributes between them. A function or
a class has just those attributes before it that stand on consecutive lines right above it; every other
attribute is left to the file, in the order of the source, and nothing else has any. Conversely a sequence
of constructs that can be read is refused for its attributes just when some stand right above another
construct that is not the first one, and is accepted otherwise. -/
theorem attributes_shared :
    (∀ (source path : String) (options : Options) (file : File),
      File.ofSource source path options = .ok file →
      ∃ tokens segments rest left own, Source.tokenize (Source.prepare source) = .ok tokens ∧
        ReadsAs options tokens segments rest ∧ file.SharesOut segments rest left own) ∧
    ∀ (tokens : List Token) (path : String) (options : Options) (segments : List Segment)
      (rest : List Token), ReadsAs options tokens segments rest →
      ((∃ q, File.ofTokens tokens path options = .error ⟨.invalidAttribute, q⟩) ↔
        ∃ s ∈ segments.tail, s.Misplaced) ∧
      ((∃ file, File.ofTokens tokens path options = .ok file) ↔
        ¬∃ s ∈ segments.tail, s.Misplaced) := by
  obtain ⟨left, hleft⟩ := Classical.skolem.1 Segment.exists_shares
  obtain ⟨own, hshares⟩ := Classical.skolem.1 hleft
  refine ⟨fun source path options file hfile => ?_, fun tokens path options segments rest h => ?_⟩
  · unfold File.ofSource at hfile
    cases htokens : Source.tokenize (Source.prepare source) with
    | error e =>
      rw [htokens] at hfile
      cases hfile
    | ok tokens =>
      rw [htokens] at hfile
      replace hfile : File.ofTokens tokens path options = .ok file := hfile
      obtain ⟨hneat, htokens'⟩ := Cursor.tokenize_neat htokens
      have hread : ∃ segments rest, ReadsAs options tokens segments rest := by
        rw [File.ofTokens_eq] at hfile
        cases hrun : loopFrom (Grammar.ofDepth ((Cursor.ofTokens tokens).remaining + 1)).fileTurn
            ((Cursor.ofTokens tokens).last :: (Cursor.ofTokens tokens).ahead) .empty
            ⟨options.optimize, 0⟩ (Cursor.ofTokens tokens) with
        | error e =>
          rw [hrun] at hfile
          cases hfile
        | ok r =>
          obtain ⟨segments, rest, hsegments, hfirst, -⟩ := segments_of_loop hneat hrun
          rw [htokens'] at hsegments
          exact ⟨segments, rest, hsegments, hfirst⟩
      obtain ⟨segments, rest, hreads⟩ := hread
      obtain ⟨hok, herror⟩ := hreads.file path fun s _ => hshares s
      refine ⟨tokens, segments, rest, left, own, rfl, hreads, ?_⟩
      by_cases hmisplaced : ∃ s ∈ segments.tail, s.Misplaced
      · obtain ⟨q, hfail⟩ := herror hmisplaced
        cases hfile.symm.trans hfail
      · obtain ⟨file', hfile', hshared⟩ := hok hmisplaced
        cases hfile.symm.trans hfile'
        exact hshared
  · obtain ⟨hok, herror⟩ := h.file path fun s _ => hshares s
    by_cases hmisplaced : ∃ s ∈ segments.tail, s.Misplaced
    · obtain ⟨q, hfail⟩ := herror hmisplaced
      refine ⟨⟨fun _ => hmisplaced, fun _ => ⟨q, hfail⟩⟩, ?_⟩
      refine ⟨fun ⟨file, hfile⟩ => ?_, fun hfree => absurd hmisplaced hfree⟩
      cases hfile.symm.trans hfail
    · obtain ⟨file, hfile, -⟩ := hok hmisplaced
      refine ⟨⟨fun ⟨q, hfail⟩ => ?_, fun h => absurd h hmisplaced⟩, fun _ => hmisplaced,
        fun _ => ⟨file, hfile⟩⟩
      cases hfile.symm.trans hfail

/-- Two runs of attributes before a function, of which it takes the second. -/
theorem attributes_shared_apart :
    ∃ file tokens segments rest left own,
      File.ofSource "//[a]\n\n//[b]\nfunction f() \x7b\x7d" "a.ts" ⟨false⟩ = .ok file ∧
      file.attributes = ["a"] ∧ file.SharesOut segments rest left own ∧
      ReadsAs ⟨false⟩ tokens segments rest ∧ ¬∃ s ∈ segments.tail, s.Misplaced := by
  have haccepted :
      ((File.ofSource "//[a]\n\n//[b]\nfunction f() \x7b\x7d" "a.ts" ⟨false⟩).toOption.any
        fun file => file.attributes == ["a"]) = true := by decide +kernel
  cases hread : File.ofSource "//[a]\n\n//[b]\nfunction f() \x7b\x7d" "a.ts" ⟨false⟩ with
  | error e =>
    rw [hread] at haccepted
    cases haccepted
  | ok file =>
    rw [hread] at haccepted
    obtain ⟨tokens, segments, rest, left, own, htokens, hreads, hshared⟩ :=
      attributes_shared.1 _ _ _ _ hread
    refine ⟨file, tokens, segments, rest, left, own, rfl, beq_iff_eq.1 haccepted, hshared, hreads, ?_⟩
    refine (attributes_shared.2 tokens "a.ts" ⟨false⟩ segments rest hreads).2.1 ⟨file, ?_⟩
    unfold File.ofSource at hread
    rw [htokens] at hread
    exact hread

end ScriptFront
