import ScriptFront.Proofs.Parsed.Trees
import ScriptFront.Proofs.Token.Rescan

/-!
# The values of enums

The members of every enum in a parsed tree are numbered from the integer of the first one, or from zero
(`Token.enum_numbering`). The numbers stay in the signed 64-bit range: behind the largest integer the
counter goes on with the smallest one (`Source.enum_values`).
-/

namespace ScriptFront

open EnumMember (Literal Entry Entries Base)

variable {file c d : Cursor}

/-! ## Literals of a scanned text -/

/-- What stands at a cursor is ahead in the file, unless the file is at its end. -/
theorem Cursor.Reaches.peek_mem {n : Nat} (h : file.Reaches n c) (hfile : file.Closed)
    (hc : c.peekKind ≠ .endOfFile) : c.peek ∈ file.ahead.map (·.token) := by
  obtain ⟨hlast, taken, htaken, -, -⟩ := h
  unfold peekKind peek peekNth at hc
  unfold peek peekNth
  cases hahead : c.ahead with
  | nil =>
    rw [hahead, hlast] at hc
    exact absurd hfile hc
  | cons s rest => simp [htaken, hahead]

theorem Cursor.past_reaches (c : Cursor) (k : Kind) : c.Reaches 0 (c.past k) := by
  unfold past
  split
  · exact c.next_reaches
  · exact .refl c

namespace EnumMember

theorem Literal.Stands.reaches {l : Literal} (h : l.Stands c d) : c.Reaches 0 d := by
  cases h with
  | int => exact (c.past_reaches _).trans (Cursor.next_reaches _)
  | string => exact c.next_reaches

theorem Entry.Stands.reaches {e : Entry} (h : e.Stands c d) : c.Reaches 0 d := by
  cases h with
  | bare => exact c.next_reaches
  | given _ _ h => exact (c.next_reaches.trans c.next.next_reaches).trans h.reaches

/-- A number that an entry is given is a token of the file. -/
theorem Entries.text_mem {entries : List Entry} (h : Entries c entries d) (hfile : file.Closed)
    (hc : file.Reaches 0 c) {e : Entry} (he : e ∈ entries) {l : Literal} (hl : e.literal = some l)
    (hkind : l.kind = .int) : ∃ t ∈ file.ahead.map (·.token), t.kind = .int ∧ t.text = l.text := by
  induction h with
  | stop => cases he
  | @more c d _ e' _ _ hstands _ ih =>
    obtain rfl | he := List.mem_cons.1 he
    · cases hstands with
      | bare => cases hl
      | given _ _ hliteral =>
        cases hl
        cases hliteral with
        | string => cases hkind
        | int hint =>
          have hreach := (hc.trans (c.next_reaches.trans c.next.next_reaches)).trans
            (c.next.next.past_reaches (.mark .minus))
          have hint := eq_of_beq hint
          exact ⟨_, hreach.peek_mem hfile (by rw [hint]; simp), hint, rfl⟩
    · exact ih ((hc.trans hstands.reaches).trans (d.past_reaches _)) he

/-- Digits with a minus sign or none write an integer. -/
theorem Literal.writes {l : Literal} (h : Lexeme.AreDigits l.text.toList) :
    ∃ n, Text.Writes 10 l.value.toList n := by
  have hread := Text.readDigits_of_digits h.1 h.2
  unfold value
  cases l.negative with
  | false => exact ⟨_, .digits hread⟩
  | true =>
    have hsign : ("-" ++ l.text).toList = '-' :: l.text.toList := by simp
    rw [if_pos rfl, hsign]
    exact ⟨_, .minus hread⟩

/-! ## Members and their entries -/

variable {entries : List Entry} {base : Int} {k : Nat} {m : EnumMember} {e : Entry}

/-- A member is its entry, where the counter has come to its place. -/
theorem Entry.member_of_getElem? (hm : (Entry.members base entries)[k]? = some m)
    (he : entries[k]? = some e) : m = e.member (Text.wrap64 (base + k)) := by
  rw [members, List.getElem?_mapIdx, he] at hm
  exact (Option.some.inj hm).symm

theorem Entry.member_given {l : Literal} (h : e.literal = some l) (n : Int) :
    e.member n = ⟨e.position, e.name, l.kind, l.value⟩ := by
  rw [member, h]

theorem Entry.member_bare (h : e.literal = none) (n : Int) :
    e.member n = ⟨e.position, e.name, .int, toString n⟩ := by
  rw [member, h]

/-- The entry of a member. -/
theorem Entry.entry_of_mem (hm : m ∈ Entry.members base entries) :
    ∃ (k : Nat) (e : Entry), entries[k]? = some e ∧ m = e.member (Text.wrap64 (base + k)) := by
  obtain ⟨k, hk⟩ := List.getElem?_of_mem hm
  obtain ⟨e, he, -⟩ : ∃ e, entries[k]? = some e ∧ e.member (Text.wrap64 (base + k)) = m := by
    rw [members, List.getElem?_mapIdx] at hk
    exact Option.map_eq_some_iff.1 hk
  exact ⟨k, e, he, member_of_getElem? hk he⟩

end EnumMember

/-! ## Enums in a tree -/

/-- The enums of a tree are written in its tokens. -/
theorem Token.HasNode.enumDecl {tokens : List Token} {decl : EnumDecl}
    (h : HasNode tokens (.stmt (.enumDecl decl))) : decl.IsWritten (Cursor.ofTokens tokens) := by
  obtain hproper | ⟨f, hf, -⟩ | ⟨c, hc⟩ := h.node
  · exact hproper
  · cases hf
  · cases hc

/-- A number in an enum of a scanned text writes an integer. -/
theorem EnumDecl.Written.writes {source : String} {tokens : List Token} {decl : EnumDecl}
    {entries : List Entry} (h : decl.Written (Cursor.ofTokens tokens) entries)
    (htokens : Source.tokenize source = .ok tokens) {e : Entry} (he : e ∈ entries) {l : Literal}
    (hl : e.literal = some l) (hkind : l.kind = .int) : ∃ n, Text.Writes 10 l.value.toList n := by
  have hat := Source.tokenize_at htokens
  obtain ⟨hc, -, -, -, hentries⟩ := h
  have hreach := hc.trans ((Cursor.next_reaches _).trans
    ((Cursor.next_reaches _).trans (Cursor.next_reaches _)))
  obtain ⟨t, ht, htkind, htext⟩ := hentries.text_mem hat.last hreach he hl hkind
  rw [hat.ahead] at ht
  have hplain := Source.tokensFrom_plain (List.forall_mem_nil _) htokens t (List.mem_filter.1 ht).1
  rw [htkind, htext] at hplain
  exact Literal.writes hplain

/-- The members of every enum that is accepted are the entries it is written with, in their order. The
numbering starts from the integer of the first entry, or from zero if that has none or a string. A member
with a literal keeps it with its sign, and one without has the number of its place, whatever literals stand
before it. -/
theorem Token.enum_numbering {tokens : List Token} {decl : EnumDecl}
    (h : HasNode tokens (.stmt (.enumDecl decl))) :
    ∃ entries base, decl.Written (Cursor.ofTokens tokens) entries ∧ Base entries base ∧
      decl.members.map (fun m => (m.position, m.name)) = entries.map (fun e => (e.position, e.name)) ∧
      ∀ (k : Nat) (e : Entry) (m : EnumMember), entries[k]? = some e → decl.members[k]? = some m →
        (∀ l, e.literal = some l → m.kind = l.kind ∧ m.value = l.value) ∧
        (e.literal = none → m.kind = .int ∧
          (base + k ≤ 9223372036854775807 → m.value = toString (base + k))) := by
  obtain ⟨entries, base, hwritten, hbase, hfits, hmembers⟩ := h.enumDecl
  refine ⟨entries, base, hwritten, hbase, ?_, fun k e m he hm => ?_⟩
  · have hnames : ∀ (e : Entry) (n : Int), ((e.member n).position, (e.member n).name) =
        (e.position, e.name) := by
      intro e n
      unfold EnumMember.Entry.member
      split <;> rfl
    apply List.ext_getElem?
    intro k
    simp [hmembers, Entry.members, hnames, Function.comp_def]
  · rw [hmembers] at hm
    obtain rfl := Entry.member_of_getElem? hm he
    constructor
    · intro l hl
      rw [Entry.member_given hl]
      exact ⟨rfl, rfl⟩
    · intro hl
      rw [Entry.member_bare hl]
      refine ⟨rfl, fun hle => ?_⟩
      have hinside := (Text.fits64_iff.1 hfits).1
      rw [Text.wrap64_of_fits64 (Text.fits64_iff.2 (by omega))]

/-- An enum that a source text is read to. -/
theorem Source.HasNode.of_enum (source : String) (p : EnumDecl → Bool)
    (h : ((File.ofSource source "a.ts" ⟨false⟩).toOption.any fun file => file.statements.any fun
      | .enumDecl decl => p decl
      | _ => false) = true) :
    ∃ decl, HasNode source (.stmt (.enumDecl decl)) ∧ p decl = true := by
  cases hfile : File.ofSource source "a.ts" ⟨false⟩ with
  | error e =>
    rw [hfile] at h
    cases h
  | ok file =>
    rw [hfile] at h
    obtain ⟨_, ⟨⟩, h⟩ := (Option.any_eq_true _ _).1 h
    obtain ⟨s, hs, hp⟩ := List.any_eq_true.1 h
    cases s with
    | enumDecl decl => exact ⟨decl, .file hfile (List.mem_append_left _ hs) (.self _), hp⟩
    | _ => cases hp

/-- Numbers, a string between them and a keyword as a name. -/
theorem Token.enum_numbering_mixed :
    ∃ tokens decl, HasNode tokens (.stmt (.enumDecl decl)) ∧
      decl.members.map (·.value) = ["-007", "-6", "x y", "-4", "9", "-2"] ∧
      ∃ entries base, decl.Written (Cursor.ofTokens tokens) entries ∧ Base entries base ∧
        decl.members.map (fun m => (m.position, m.name)) =
          entries.map (fun e => (e.position, e.name)) := by
  obtain ⟨decl, hnode, hvalues⟩ := Source.HasNode.of_enum
    "enum E \x7b A = -007, B C = 'x y', D, E = 9, new \x7d"
    (fun decl => decl.members.map (·.value) = ["-007", "-6", "x y", "-4", "9", "-2"]) (by decide +kernel)
  obtain ⟨tokens, -, hnode⟩ := hnode.tokens
  obtain ⟨entries, base, hwritten, hbase, hnames, -⟩ := Token.enum_numbering hnode
  exact ⟨tokens, decl, hnode, of_decide_eq_true hvalues, entries, base, hwritten, hbase, hnames⟩

/-! ## The range of the values -/

/-- Whether the member in place `k` has no literal and its value writes `n`. -/
def EnumMember.Numbered (entries : List Entry) (members : List EnumMember) (k : Nat) (n : Int) : Prop :=
  ∃ e m, entries[k]? = some e ∧ e.literal = none ∧ members[k]? = some m ∧ m.kind = .int ∧
    Text.Writes 10 m.value.toList n

theorem EnumMember.Numbered.eq_wrap64 {entries : List Entry} {base n : Int} {k : Nat}
    (h : Numbered entries (Entry.members base entries) k n) : n = Text.wrap64 (base + k) := by
  obtain ⟨e, m, he, hl, hm, -, hn⟩ := h
  obtain rfl := Entry.member_of_getElem? hm he
  rw [Entry.member_bare hl] at hn
  exact hn.unique (Text.writes_toString _)

/-- The value of every number in an accepted enum writes an integer, and that of the first member and of
every member without a literal one in the signed 64-bit range. Such values increase up to the largest
integer, and behind it the counter starts again with the smallest one. -/
theorem Source.enum_values {source : String} {decl : EnumDecl}
    (h : HasNode source (.stmt (.enumDecl decl))) :
    ∃ tokens entries base, tokenize (prepare source) = .ok tokens ∧
      decl.Written (Cursor.ofTokens tokens) entries ∧ Base entries base ∧
      (∀ m ∈ decl.members, m.kind = .int → ∃ n, Text.Writes 10 m.value.toList n) ∧
      (∀ m, decl.members.head? = some m → m.kind = .int →
        ∃ n, Text.Writes 10 m.value.toList n ∧ -9223372036854775808 ≤ n ∧ n ≤ 9223372036854775807) ∧
      (∀ k e, entries[k]? = some e → e.literal = none →
        ∃ n, EnumMember.Numbered entries decl.members k n ∧
          -9223372036854775808 ≤ n ∧ n ≤ 9223372036854775807) ∧
      (∀ j k n n', EnumMember.Numbered entries decl.members j n →
        EnumMember.Numbered entries decl.members k n' → j < k → base + k ≤ 9223372036854775807 →
          n < n') ∧
      ∀ k n, EnumMember.Numbered entries decl.members k n → base + k = 9223372036854775808 →
        n = -9223372036854775808 := by
  obtain ⟨tokens, htokens, hnode⟩ := h.tokens
  obtain ⟨entries, base, hwritten, hbase, hfits, hmembers⟩ := hnode.enumDecl
  refine ⟨tokens, entries, base, htokens, hwritten, hbase, ?_, ?_, ?_, ?_, ?_⟩
  · intro m hm hkind
    rw [hmembers] at hm
    obtain ⟨k, e, he, rfl⟩ := Entry.entry_of_mem hm
    cases hl : e.literal with
    | none =>
      rw [Entry.member_bare hl]
      exact ⟨_, Text.writes_toString _⟩
    | some l =>
      rw [Entry.member_given hl] at hkind ⊢
      exact hwritten.writes htokens (List.mem_of_getElem? he) hl hkind
  · intro m hm hkind
    cases entries with
    | nil =>
      rw [hmembers] at hm
      cases hm
    | cons e entries =>
      rw [hmembers, Entry.members_cons] at hm
      cases hm
      cases hl : e.literal with
      | none =>
        rw [Entry.member_bare hl]
        exact ⟨_, Text.writes_toString _, Text.fits64_iff.1 (Text.fits64_wrap64 _)⟩
      | some l =>
        rw [Entry.member_given hl] at hkind ⊢
        cases hbase with
        | int _ hl' _ hn =>
          obtain rfl := Option.some.inj (hl.symm.trans hl')
          exact ⟨base, hn, Text.fits64_iff.1 hfits⟩
        | other _ hother => exact absurd hkind (hother l hl)
  · intro k e he hl
    refine ⟨Text.wrap64 (base + k), ⟨e, e.member (Text.wrap64 (base + k)), he, hl, ?_, ?_⟩,
      Text.fits64_iff.1 (Text.fits64_wrap64 _)⟩
    · rw [hmembers, Entry.members, List.getElem?_mapIdx, he]
      rfl
    · rw [Entry.member_bare hl]
      exact ⟨rfl, Text.writes_toString _⟩
  · intro j k n n' hn hn' hjk hle
    rw [hmembers] at hn hn'
    have hinside := (Text.fits64_iff.1 hfits).1
    rw [hn.eq_wrap64, hn'.eq_wrap64, Text.wrap64_of_fits64 (Text.fits64_iff.2 (by omega)),
      Text.wrap64_of_fits64 (Text.fits64_iff.2 (by omega))]
    omega
  · intro k n hn hk
    rw [hmembers] at hn
    rw [hn.eq_wrap64, Text.wrap64_of_gt (by omega) (by omega), hk]
    rfl

/-- The values of an enum that starts with the smallest integer. -/
theorem Source.enum_values_smallest :
    ∃ decl, HasNode "enum E \x7b A = -9223372036854775808, B, C = 7 \x7d" (.stmt (.enumDecl decl)) ∧
      decl.members.map (·.value) = ["-9223372036854775808", "-9223372036854775807", "7"] ∧
      ∃ entries base, Base entries base ∧ ∀ k e, entries[k]? = some e → e.literal = none →
        ∃ n, EnumMember.Numbered entries decl.members k n ∧
          -9223372036854775808 ≤ n ∧ n ≤ 9223372036854775807 := by
  obtain ⟨decl, hnode, hvalues⟩ := HasNode.of_enum "enum E \x7b A = -9223372036854775808, B, C = 7 \x7d"
    (fun decl => decl.members.map (·.value) = ["-9223372036854775808", "-9223372036854775807", "7"])
    (by decide +kernel)
  obtain ⟨_, entries, base, -, -, hbase, -, -, hrange, -⟩ := enum_values hnode
  exact ⟨decl, hnode, of_decide_eq_true hvalues, entries, base, hbase, hrange⟩

/-- Behind the largest integer comes the smallest one, although no member before it but the first has a
literal, and a literal behind the first member may write an integer that is too large. -/
theorem Source.enum_values_wrapped :
    ∃ decl, HasNode "enum E \x7b A = 9223372036854775806, B, C, D = 9223372036854775808 \x7d"
        (.stmt (.enumDecl decl)) ∧
      (∃ m ∈ decl.members, m.kind = .int ∧ Text.Writes 10 m.value.toList 9223372036854775808) ∧
      ∃ tokens entries,
        tokenize (prepare "enum E \x7b A = 9223372036854775806, B, C, D = 9223372036854775808 \x7d") =
          .ok tokens ∧
        decl.Written (Cursor.ofTokens tokens) entries ∧
        EnumMember.Numbered entries decl.members 1 9223372036854775807 ∧
        EnumMember.Numbered entries decl.members 2 (-9223372036854775808) := by
  let tokens : List Token := [⟨.keyword .enumWord, "enum", ⟨1, 1⟩⟩, ⟨.identifier, "E", ⟨1, 6⟩⟩,
    ⟨.mark .openBrace, "\x7b", ⟨1, 8⟩⟩, ⟨.identifier, "A", ⟨1, 10⟩⟩, ⟨.mark .equals, "=", ⟨1, 12⟩⟩,
    ⟨.int, "9223372036854775806", ⟨1, 14⟩⟩, ⟨.mark .comma, ",", ⟨1, 33⟩⟩, ⟨.identifier, "B", ⟨1, 35⟩⟩,
    ⟨.mark .comma, ",", ⟨1, 36⟩⟩, ⟨.identifier, "C", ⟨1, 38⟩⟩, ⟨.mark .comma, ",", ⟨1, 39⟩⟩,
    ⟨.identifier, "D", ⟨1, 41⟩⟩, ⟨.mark .equals, "=", ⟨1, 43⟩⟩, ⟨.int, "9223372036854775808", ⟨1, 45⟩⟩,
    ⟨.mark .closeBrace, "\x7d", ⟨1, 65⟩⟩, ⟨.endOfFile, "", ⟨1, 66⟩⟩]
  let members : List EnumMember := [⟨⟨1, 10⟩, "A", .int, "9223372036854775806"⟩,
    ⟨⟨1, 35⟩, "B", .int, toString (9223372036854775807 : Int)⟩,
    ⟨⟨1, 38⟩, "C", .int, toString (-9223372036854775808 : Int)⟩,
    ⟨⟨1, 41⟩, "D", .int, toString (9223372036854775808 : Int)⟩]
  obtain ⟨decl, hnode, hdecl⟩ := HasNode.of_enum
    "enum E \x7b A = 9223372036854775806, B, C, D = 9223372036854775808 \x7d"
    (fun decl => decl = ⟨(Cursor.ofTokens tokens).next.peek.position,
      (Cursor.ofTokens tokens).next.peek.text, false, members⟩) (by decide +kernel)
  obtain rfl := of_decide_eq_true hdecl
  have hentries := Entries.more (c := (Cursor.ofTokens tokens).next.next.next) (by decide +kernel)
    (.given (by decide +kernel) (by decide +kernel) (.int (by decide +kernel)))
    (.more (by decide +kernel) (.bare (by decide +kernel) (by decide +kernel))
      (.more (by decide +kernel) (.bare (by decide +kernel) (by decide +kernel))
        (.more (by decide +kernel)
          (.given (by decide +kernel) (by decide +kernel) (.int (by decide +kernel)))
          (.stop (by decide +kernel)))))
  exact ⟨_, hnode, ⟨_, List.mem_of_getElem? (i := 3) rfl, rfl, Text.writes_toString _⟩, tokens, _,
    by decide +kernel,
    .intro (.refl _) (by decide +kernel) (by decide +kernel) (by decide +kernel) hentries,
    ⟨_, _, rfl, rfl, rfl, rfl, Text.writes_toString _⟩,
    ⟨_, _, rfl, rfl, rfl, rfl, Text.writes_toString _⟩⟩

end ScriptFront
