import ScriptFront.Proofs.Comments
import ScriptFront.Proofs.Erasure.TypeCut
import ScriptFront.Proofs.Shift.Lines

/-!
# Initializers behind types

The equals sign of an initializer may be written next to the type of the variable, unless the type ends with
the `>` sign of type arguments: the two signs make one, and the declaration is refused
(`File.ofSource_initializer`).
-/

namespace ScriptFront

open Production TypePart

/-! ## Refused declarations -/

theorem Production.Crosses.identifier {t : Token} {w : List Token} {d : Cursor} (h : t.kind = .identifier) :
    Crosses identifier (d.prepend (t :: w)) t (d.prepend w) := by
  unfold Production.identifier
  refine .isAt_bind ?_
  rw [Cursor.isAt_prepend, h]
  exact .next (by simp [h])

namespace Grammar

variable {k : Nat} {t x c : Token} {w : List Token} {d : Cursor}

/-- A declaration is refused with its type. -/
theorem variable_refused (ht : t.kind = .keyword .letWord) (hx : x.kind = .identifier)
    (hc : c.kind = .mark .colon) (hw : Cut (.item .type) w) (hk : w.length + 2 ≤ k)
    (hd : d.peekKind = .mark .greaterEquals) :
    Refuses (ofDepth (k + 1)).statementBody (d.prepend (t :: x :: c :: w)) := by
  have htype : Refuses (ofDepth (k + 1)).ascription (d.prepend (c :: w)) := by
    rw [ofDepth_succ]
    exact .behind (Crosses.skips_true hc (by simp)) (hw k .start d hk hd)
  have hvariable : Refuses (ofDepth (k + 1)).variableStatement (d.prepend (t :: x :: c :: w)) :=
    .behind (Crosses.next (by simp [ht])) (.behind (Crosses.identifier hx)
      (.behind (Crosses.optional_none (by simp [hc])).discard htype.bind))
  have hstatement : Refuses (ofDepth (k + 1)).bareStatement (d.prepend (t :: x :: c :: w)) := by
    intro ctx
    unfold bareStatement
    rw [run_peek_bind, Cursor.peek_prepend, ht]
    exact hvariable.bind ctx
  exact hstatement.bind

/-- A file is refused with its first statement. -/
theorem constructs_refused {g : Grammar} {ctx : Context} {c : Cursor} (hc : c.peekKind = .keyword .letWord)
    (h : ∃ e, g.statementBody ctx c = .error e) : ∃ e, g.constructs ctx c = .error e := by
  obtain ⟨e, herror⟩ := h
  have hpeek : c.peek.kind = .keyword .letWord := hc
  have hother : ∀ d p, ∃ e, construct.other g d p ctx c = .error e := by
    intro d p
    unfold construct.other
    cases hsettle : d.attributes.settle p d.started with
    | error cause =>
      refine ⟨cause, run_bind_of_error ?_⟩
      unfold settled
      rw [hsettle]
    | ok run =>
      have hsettled : settled d p ctx c = .ok ({ d with attributes := run }, c) := by
        unfold settled
        rw [hsettle]
      exact ⟨e, (run_bind_of_ok hsettled).trans (run_bind_of_error herror)⟩
  have hconstruct : ∀ d, ∃ e, g.construct d c.peek ctx c = .error e := by
    intro d
    unfold construct
    rw [hpeek]
    exact hother d c.peek.position
  obtain ⟨e, he⟩ := hconstruct _
  refine ⟨e, run_bind_of_error ?_⟩
  dsimp only
  rw [run_asks_bind, run_peek_bind, hpeek]
  exact run_bind_of_error he

/-- Comments in the declaration change nothing. -/
theorem file_refused {e : Cursor} (hcursor : e.keeping (fun _ => false) = d.prepend (t :: x :: c :: w))
    (ht : t.kind = .keyword .letWord) (hx : x.kind = .identifier) (hc : c.kind = .mark .colon)
    (hw : Cut (.item .type) w) (hd : d.peekKind = .mark .greaterEquals) (ctx : Context) :
    ∃ error, (ofDepth (e.remaining + 1)).constructs ctx e = .error error := by
  have hremaining : w.length + 2 ≤ e.remaining := by
    rw [← Cursor.remaining_keeping (fun _ => false), hcursor, Cursor.remaining_prepend]
    simp only [List.length_cons]
    omega
  have hpeek : e.peekKind = .keyword .letWord := by
    rw [← Cursor.peekKind_keeping (fun _ => false), hcursor, Cursor.peekKind_prepend, ht]
  have hsteady : Steady (ofDepth (e.remaining + 1)) (fun _ => false) .start
      (ofDepth (e.remaining + 1)).statementBody := inferInstance
  have hnatural := hsteady.natural (natural_ofDepth (fun _ => false) _) ctx e
  obtain ⟨error, herror, -⟩ := variable_refused ht hx hc hw hremaining hd ctx
  rw [hcursor, herror] at hnatural
  refine constructs_refused hpeek ?_
  cases hrun : (ofDepth (e.remaining + 1)).statementBody ctx e with
  | error error => exact ⟨error, rfl⟩
  | ok r =>
    rw [hrun] at hnatural
    cases hnatural

end Grammar

/-! ## Refused files -/

/-- The cursor before tokens without comments. -/
theorem Cursor.ofTokens_prepend {w behind : List Token} (hw : ∀ t ∈ w, t.kind.isComment = false)
    (hbehind : behind ≠ []) : ofTokens (w ++ behind) = (ofTokens behind).prepend w := by
  refine stops_inj ?_
  rw [ofTokens_append (fun t ht => hw t (List.mem_of_getLast? ht)) hbehind, Stop.foldr_cons_of_seen hw,
    List.append_nil]
  exact (List.append_assoc ..).symm

/-- A file that starts with a variable is refused if another sign stands in the place of the `>` that ends
its type. -/
theorem File.ofTokens_cut {t x c sign g eof : Token} {type behind : List Token}
    (ht : t.kind = .keyword .letWord) (hx : x.kind = .identifier) (hc : c.kind = .mark .colon)
    (htype : Derives (.item .type) (Token.significant (type ++ [g]))) (hg : g.kind = .mark .greater)
    (hsign : sign.kind = .mark .greaterEquals) (heof : eof.kind = .endOfFile) (path : String)
    (options : Options) :
    ∃ e, File.ofTokens (t :: x :: c :: (type ++ sign :: behind) ++ [eof]) path options = .error e := by
  have hcut : Cut (.item .type) (Token.significant type) :=
    htype.cut rfl (by simp [Token.significant, hg, Kind.isComment]) hg
  have hseen : ∀ u ∈ t :: x :: c :: Token.significant type, u.kind.isComment = false := by
    simp [Token.significant, ht, hx, hc, Kind.isComment]
  have hkeeping : Token.keeping (fun _ => false) (t :: x :: c :: (type ++ sign :: behind)) ++ [eof] =
      (t :: x :: c :: Token.significant type) ++ ([sign] ++ (Token.significant behind ++ [eof])) := by
    rw [Token.keeping_none]
    simp [Token.significant, ht, hx, hc, hsign, Kind.isComment]
  have hcursor := Cursor.ofTokens_keeping (fun _ => false) (t :: x :: c :: (type ++ sign :: behind)) heof
  rw [hkeeping, Cursor.ofTokens_prepend hseen (by simp)] at hcursor
  have hpeek : (Cursor.ofTokens ([sign] ++ (Token.significant behind ++ [eof]))).peekKind =
      .mark .greaterEquals := by
    rw [Cursor.ofTokens_prepend (w := [sign]) (by simp [hsign, Kind.isComment]) (by simp),
      Cursor.peekKind_prepend, hsign]
  obtain ⟨e, he⟩ := Grammar.file_refused hcursor ht hx hc hcut hpeek ⟨options.optimize, 0⟩
  refine ⟨e, ?_⟩
  unfold File.ofTokens runOn
  dsimp only
  rw [he]
  rfl

/-! ## Texts of declarations -/

namespace Source

open Token (significant)

/-- A text has the same tokens at another place. -/
theorem scan_moved {cs : List Char} {p : Position} {ts : List Token} (h : scan cs p = .ok ts) (q : Position) :
    ∃ us, scan cs q = .ok us ∧ List.Forall₂ Token.Same ts us := by
  rcases scan_findings cs with ⟨cause, before, hscan⟩ | ⟨findings, -, hscan⟩
  · rw [hscan] at h
    cases h
  · rw [hscan] at h
    cases h
    refine ⟨_, hscan q, ?_⟩
    rw [List.forall₂_map_left_iff, List.forall₂_map_right_iff]
    exact List.forall₂_same.2 fun f _ => ⟨rfl, rfl⟩

/-- The tokens of a declaration up to its colon stand in front of those of the type. -/
theorem scan_declared {v : List Char} (hv : Lexeme.Plain .identifier v) :
    ∃ (t x c : Token) (q : Position), t.kind = .keyword .letWord ∧ x.kind = .identifier ∧
      c.kind = .mark .colon ∧ ∀ cs, scan ("let ".toList ++ (v ++ (": ".toList ++ cs))) .start =
        (scan cs q).map ([t, x, c] ++ ·) := by
  obtain ⟨hkeyword, a, as, rfl, hstart, hpart⟩ := hv
  let p := (Position.start.advanceAll "let".toList).advance ' '
  let q := p.advanceAll (a :: as)
  refine ⟨⟨.keyword .letWord, "let", .start⟩, ⟨.identifier, String.ofList (a :: as), p⟩,
    ⟨.mark .colon, ":", q⟩, (q.advance ':').advance ' ', rfl, rfl, rfl, fun cs => ?_⟩
  have hlet := scan_front .start (Lexeme.atStart_keyword (a :: as ++ ':' :: ' ' :: cs) .letWord) (by decide)
  have hname := scan_front p (Lexeme.atStart_identifier (' ' :: cs) hstart hpart hkeyword
    (show Text.isIdentifierPart ':' = false by decide)) (List.cons_ne_nil a as)
  have hcolon := scan_front q (Lexeme.atStart_mark cs .colon) (by decide)
  rw [scan_blank _ rfl] at hlet hcolon
  refine hlet.trans ((congrArg _ (hname.trans (congrArg _ hcolon))).trans ?_)
  show Except.map _ (Except.map _ (Except.map _ (scan cs ((q.advance ':').advance ' ')))) = _
  cases scan cs ((q.advance ':').advance ' ') <;> rfl

variable {v T : String} {type : List Token} {eof : Token}

/-- Neither carriage returns nor the marker stand in front of the type. -/
theorem chars_declared (hv : Lexeme.Plain .identifier v.toList) :
    ∀ c ∈ ("let " ++ v ++ ": ").toList, c ≠ '/' ∧ c ≠ '\r' := by
  obtain ⟨-, a, as, -, -, hpart⟩ := hv
  have hname : ∀ c ∈ v.toList, c ≠ '/' ∧ c ≠ '\r' := by
    intro c hc
    constructor <;>
    · rintro rfl
      exact absurd (hpart _ hc) (by decide)
  have hlet : ∀ c ∈ "let ".toList, c ≠ '/' ∧ c ≠ '\r' := by simp
  have hcolon : ∀ c ∈ ": ".toList, c ≠ '/' ∧ c ≠ '\r' := by simp
  rw [String.toList_append, String.toList_append]
  exact List.forall_mem_append.2 ⟨List.forall_mem_append.2 ⟨hlet, hname⟩, hcolon⟩

/-- The tokens of a declaration without its initializer. -/
theorem tokenize_declared (hv : Lexeme.Plain .identifier v.toList)
    (hT : tokenize (prepare T) = .ok (type ++ [eof])) :
    ∃ (t x c last : Token) (moved : List Token), t.kind = .keyword .letWord ∧ x.kind = .identifier ∧
      c.kind = .mark .colon ∧ List.Forall₂ Token.Same type moved ∧
      tokenize (prepare ("let " ++ v ++ ": " ++ T)) = .ok (t :: x :: c :: moved ++ [last]) := by
  obtain ⟨t, x, c, q, ht, hx, hc, hdeclared⟩ := scan_declared hv
  obtain ⟨us, hscan, hus⟩ := scan_moved hT q
  obtain ⟨moved, ends, hmoved, hends, rfl⟩ := forall₂_append_left_iff.1 hus
  obtain ⟨last, none, -, hnil, rfl⟩ := List.forall₂_cons_left_iff.1 hends
  obtain rfl := List.forall₂_nil_left_iff.1 hnil
  refine ⟨t, x, c, last, moved, ht, hx, hc, hmoved, ?_⟩
  rw [tokenize_eq_scan, toList_prepare_front (chars_declared hv), String.toList_append, String.toList_append,
    List.append_assoc, List.append_assoc, hdeclared, hscan]
  rfl

theorem beforeMarker_declared (hv : Lexeme.Plain .identifier v.toList) :
    beforeMarker ("let " ++ v ++ ": " ++ T).toList = ("let " ++ v ++ ": " ++ T).toList ↔
      beforeMarker T.toList = T.toList := by
  rw [String.toList_append, beforeMarker_front fun c hc => (chars_declared hv c hc).1, List.append_right_inj]

/-- The declaration ends as its type does. -/
theorem getLast?_declared (hv : Lexeme.Plain .identifier v.toList)
    (hT : tokenize (prepare T) = .ok (type ++ [eof])) (hne : type ≠ []) :
    (prepare ("let " ++ v ++ ": " ++ T)).toList.getLast? = (prepare T).toList.getLast? := by
  rw [toList_prepare_front (chars_declared hv), List.getLast?_append_of_ne_nil]
  intro hnil
  rw [tokenize_eq_scan, hnil] at hT
  exact hne (eq_nil_of_scan hT)

/-- Whether the text of a type ends with the `>` sign of its last token. Such a sign runs on: with an equals
sign behind it the two make one. -/
def RunsOn (T : String) (type : List Token) : Prop :=
  beforeMarker T.toList = T.toList ∧ (prepare T).toList.getLast? = some '>' ∧
    ∃ g ∈ type.getLast?, g.kind = .mark .greater

end Source

/-- A type that does not end with a `>` sign stays apart from what is written behind it. -/
theorem TypePart.staysApart_of_endsWith {k : Kind} (h : (item .type).endsWith k = true)
    (hk : k ≠ .mark .greater) : Lexeme.StaysApart k := by
  constructor
  · cases k with
    | lineComment => cases h
    | blockComment => cases h
    | «attribute» => cases h
    | _ => rfl
  · rintro m rfl
    obtain ⟨n, hn, heq⟩ := Kind.among_eq_true.1 (show Kind.among _ (.mark m) = true from h)
    cases heq
    simpa [show m ≠ .greater from fun hm => hk (hm ▸ rfl)] using hn

namespace File

open Source
open Token (significant)

variable {v T e : String} {type : List Token} {eof : Token}

/-- A variable is refused if the `>` that ends its type makes one sign with the equals sign of its
initializer. -/
theorem ofSource_refused {head : String} {t x c g : Token}
    (hhead : tokenize (prepare head) = .ok (t :: x :: c :: type ++ [g] ++ [eof]))
    (ht : t.kind = .keyword .letWord) (hx : x.kind = .identifier) (hc : c.kind = .mark .colon)
    (htype : Derives (.item .type) (significant (type ++ [g]))) (hg : g.kind = .mark .greater)
    (hmarker : beforeMarker head.toList = head.toList) (hlast : (prepare head).toList.getLast? = some '>')
    (e path : String) (options : Options) :
    ∃ error, ofSource (head ++ "=" ++ e) path options = .error error := by
  unfold ofSource
  rw [tokenize_eq_scan, toList_prepare_sign (by decide) (by decide), if_pos hmarker]
  show ∃ error, (scan (_ ++ '=' :: (prepare e).toList) .start >>= _) = _
  rw [scan_greaterEquals (prepare e).toList hhead hg hlast]
  cases hbehind : scan (prepare e).toList (Position.start.advanceAll ((prepare head).toList ++ ['='])) with
  | error error => exact ⟨error, rfl⟩
  | ok ts =>
    obtain ⟨behind, eof, rfl, heof, -⟩ := tokensFrom_ends (fun _ h => absurd h List.not_mem_nil) hbehind
    let sign : Token := ⟨.mark .greaterEquals, ">=", g.position⟩
    have htokens : t :: x :: c :: type ++ sign :: (behind ++ [eof]) =
        t :: x :: c :: (type ++ sign :: behind) ++ [eof] := by simp
    show ∃ error, ofTokens (t :: x :: c :: type ++ sign :: (behind ++ [eof])) path options = .error error
    rw [htokens]
    exact ofTokens_cut ht hx hc htype hg rfl heof path options

/-- An initializer may be written next to the type of its variable, unless the type ends with a `>` sign that
runs on: then there is no file. -/
theorem ofSource_initializer (hv : Lexeme.Plain .identifier v.toList)
    (hT : tokenize (prepare T) = .ok (type ++ [eof])) (htype : Derives (.item .type) (significant type))
    (hlast : ∀ t ∈ type.getLast?, t.kind.isComment = false)
    (he : ∀ c ∈ (prepare e).toList.head?, c ≠ '=' ∧ c ≠ '>')
    (hlines : (prepare e).toList.count '\n' < UInt32.size) (path : String) (options : Options) :
    (¬RunsOn T type → withoutPlaces (ofSource ("let " ++ v ++ ": " ++ T ++ "=" ++ e) path options) =
      withoutPlaces (ofSource ("let " ++ v ++ ": " ++ T ++ " = " ++ e) path options)) ∧
    (RunsOn T type →
      ∃ error, ofSource ("let " ++ v ++ ": " ++ T ++ "=" ++ e) path options = .error error) := by
  obtain ⟨front, g, rfl⟩ : ∃ front g, type = front ++ [g] := by
    rcases List.eq_nil_or_concat type with rfl | ⟨front, g, rfl⟩
    · exact absurd rfl (htype.ne_nil rfl)
    · exact ⟨front, g, List.concat_eq_append⟩
  have hkind : (TypePart.item .type).endsWith g.kind = true :=
    htype.kind_last g (by simp [significant, hlast g (by simp)])
  have hchars := getLast?_declared hv hT (by simp)
  -- The tokens of the type as they are in the declaration.
  obtain ⟨t, x, c, last, moved, ht, hx, hc, hmoved, hhead⟩ := tokenize_declared hv hT
  have hderives : Derives (.item .type) (significant moved) :=
    htype.moved (List.rel_filter (fun t u htu => by dsimp only; rw [htu.kind]) hmoved)
  obtain ⟨front', ends, -, hends, rfl⟩ := forall₂_append_left_iff.1 hmoved
  obtain ⟨g', none, hsame, hnil, rfl⟩ := List.forall₂_cons_left_iff.1 hends
  obtain rfl := List.forall₂_nil_left_iff.1 hnil
  constructor
  · intro hstops
    refine ofSource_spaced hhead (fun hmarker u hu => ?_) he hlines path options
    obtain rfl : g' = u := by simpa [List.getLast?_cons] using hu
    rw [← hsame.kind, hchars]
    by_cases hg : g.kind = .mark .greater
    · exact .inr ⟨hg, fun hsign => hstops ⟨(beforeMarker_declared hv).1 hmarker, hsign, g, by simp, hg⟩⟩
    · exact .inl (TypePart.staysApart_of_endsWith hkind hg)
  · rintro ⟨hmarker, hsign, u, hu, hg⟩
    obtain rfl : g = u := by simpa using hu
    exact ofSource_refused hhead ht hx hc hderives (hsame.kind ▸ hg) ((beforeMarker_declared hv).2 hmarker)
      (hchars.trans hsign) e path options

/-- The tokens of `Array<number>`. -/
def arrayOfNumbers : List Token := [⟨.identifier, "Array", ⟨1, 1⟩⟩, ⟨.mark .less, "<", ⟨1, 6⟩⟩,
  ⟨.identifier, "number", ⟨1, 7⟩⟩, ⟨.mark .greater, ">", ⟨1, 13⟩⟩]

theorem derives_arrayOfNumbers : Derives (.item .type) (significant arrayOfNumbers) :=
  .type (.last (.operand (.inl rfl) (.generic (v := []) rfl .pathEnd rfl (.separatedLast
    (.type (.last (.operand (.inl rfl) (.named (w := []) (by decide) .pathEnd) .plain)))) rfl) .plain))

/-- A blank behind the type is enough for both ways to be the same. -/
theorem ofSource_initializer_blank :
    (∃ error, ofSource "let v: Array<number>=5" "a.ts" ⟨false⟩ = .error error) ∧
      withoutPlaces (ofSource "let v: Array<number> =5" "a.ts" ⟨false⟩) =
        withoutPlaces (ofSource "let v: Array<number>  = 5" "a.ts" ⟨false⟩) := by
  have hv : Lexeme.Plain .identifier "v".toList :=
    ⟨by decide, 'v', [], rfl, by decide, List.forall_mem_singleton.2 (by decide)⟩
  have htokens : tokenize (prepare "Array<number>") = .ok (arrayOfNumbers ++ [.endOfFile ⟨1, 14⟩]) := by
    decide +kernel
  have hblank : tokenize (prepare "Array<number> ") = .ok (arrayOfNumbers ++ [.endOfFile ⟨1, 15⟩]) := by
    decide +kernel
  have hcloses : RunsOn "Array<number>" arrayOfNumbers := ⟨by decide +kernel, by decide +kernel, _, rfl, rfl⟩
  have hstops : ¬RunsOn "Array<number> " arrayOfNumbers := fun h => absurd h.2.1 (by decide +kernel)
  have he : ∀ c ∈ (prepare "5").toList.head?, c ≠ '=' ∧ c ≠ '>' := by
    rw [show (prepare "5").toList.head? = some '5' by decide +kernel]
    simp
  constructor
  · exact (ofSource_initializer hv htokens derives_arrayOfNumbers (by decide) he (by decide +kernel) "a.ts"
      ⟨false⟩).2 hcloses
  · exact (ofSource_initializer hv hblank derives_arrayOfNumbers (by decide) he (by decide +kernel) "a.ts"
      ⟨false⟩).1 hstops

/-- With blanks around the equals sign the variable has its value, without them its declaration is refused. -/
theorem ofSource_initializer_fused :
    tokenize (prepare "Array<number>") = .ok (arrayOfNumbers ++ [.endOfFile ⟨1, 14⟩]) ∧
      Derives (.item .type) (significant arrayOfNumbers) ∧
      ofSource "let v: Array<number>=5" "a.ts" ⟨false⟩ = .error ⟨.expecting ">" ">=", ⟨1, 20⟩⟩ ∧
      (ofSource "let v: Array<number> = 5" "a.ts" ⟨false⟩).toOption.map (·.statements) =
        some [.varDecl ⟨⟨1, 5⟩, "v", .constant ⟨1, 24⟩ .int "5", false, false⟩] :=
  ⟨by decide +kernel, derives_arrayOfNumbers, rfl, rfl⟩

end File

end ScriptFront
