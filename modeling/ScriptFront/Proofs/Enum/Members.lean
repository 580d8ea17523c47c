import ScriptFront.Production.Declaration
import ScriptFront.Proofs.Production.Runs
import ScriptFront.Proofs.Text.Signed

/-!
# Enum members as they are written

An enum is written as entries, each a name with a literal behind it or none. Its members are the entries in
their order: one with a literal keeps it, and one without gets the number that it has in its place, counted
from the integer of the first entry or from zero (`Production.enumMembers_ok`).
-/

namespace ScriptFront

open Production

namespace EnumMember

/-! ## Entries -/

/-- What stands behind the equals sign of a member: a number or a string, a number with a minus sign in
front of it or none. -/
structure Literal where
  negative : Bool
  kind : EnumValueKind
  text : String
deriving DecidableEq, Repr

/-- The text of a literal with its sign. -/
def Literal.value (l : Literal) : String := if l.negative then "-" ++ l.text else l.text

/-- What is written of a member. -/
structure Entry where
  position : Position
  name : String
  literal : Option Literal
deriving DecidableEq, Repr

/-- Whether a literal stands between two cursors. -/
inductive Literal.Stands (c : Cursor) : Literal → Cursor → Prop where
  | int (h : (c.past (.mark .minus)).isAt .int = true) :
      Stands c ⟨c.isAt (.mark .minus), .int, (c.past (.mark .minus)).peek.text⟩
        (c.past (.mark .minus)).next
  | string (hminus : c.isAt (.mark .minus) = false) (h : c.isAt .string = true) :
      Stands c ⟨false, .string, c.peek.text⟩ c.next

/-- Whether an entry stands between two cursors: a name, which may be a keyword, and a literal behind an
equals sign if there is one. -/
inductive Entry.Stands (c : Cursor) : Entry → Cursor → Prop where
  | bare (hname : c.peekKind.isName = true) (hequals : c.next.isAt (.mark .equals) = false) :
      Stands c ⟨c.peek.position, c.peek.text, none⟩ c.next
  | given {l : Literal} {d : Cursor} (hname : c.peekKind.isName = true)
      (hequals : c.next.isAt (.mark .equals) = true) (h : l.Stands c.next.next d) :
      Stands c ⟨c.peek.position, c.peek.text, some l⟩ d

/-- Whether entries stand between a cursor and the next closing brace, with a comma or none behind each. -/
inductive Entries : Cursor → List Entry → Cursor → Prop where
  | stop {c : Cursor} (h : c.isAt (.mark .closeBrace) = true) : Entries c [] c
  | more {c d d' : Cursor} {e : Entry} {entries : List Entry}
      (hopen : c.isAt (.mark .closeBrace) = false) (h : e.Stands c d)
      (hrest : Entries (d.past (.mark .comma)) entries d') : Entries c (e :: entries) d'

/-! ## Numbering -/

/-- The member that an entry is where the counter stands at `counter`. -/
def Entry.member (e : Entry) (counter : Int) : EnumMember :=
  match e.literal with
  | some l => ⟨e.position, e.name, l.kind, l.value⟩
  | none => ⟨e.position, e.name, .int, toString counter⟩

/-- Whether the numbering of entries starts from an integer: the one that the first entry is given, if it
is given one, and zero otherwise. -/
inductive Base : List Entry → Int → Prop where
  | int {e : Entry} {l : Literal} {n : Int} (entries : List Entry) (h : e.literal = some l)
      (hkind : l.kind = .int) (hn : Text.Writes 10 l.value.toList n) : Base (e :: entries) n
  | other {e : Entry} (entries : List Entry) (h : ∀ l ∈ e.literal, l.kind ≠ .int) : Base (e :: entries) 0
  | none : Base [] 0

/-- The members that entries are when they are counted from `n` on. -/
def Entry.members (n : Int) (entries : List Entry) : List EnumMember :=
  entries.mapIdx fun k e => e.member (Text.wrap64 (n + k))

theorem Entry.members_cons (n : Int) (e : Entry) (entries : List Entry) :
    members n (e :: entries) = e.member (Text.wrap64 n) :: members (n + 1) entries := by
  have hshift : ∀ k : Nat, n + ((k : Int) + 1) = n + 1 + k := by omega
  simp [members, List.mapIdx_cons, hshift]

end EnumMember

open EnumMember (Literal Entry Entries Base)

namespace Production

variable {ctx : Context} {c d : Cursor}

/-! ## Reading them -/

/-- A literal is read with its sign. -/
theorem enumInitializer_ok {kind : EnumValueKind} {value : String} {p : Position}
    (h : enumInitializer ctx c = .ok ((kind, value, p), d)) :
    ∃ l : Literal, l.Stands c d ∧ kind = l.kind ∧ value = l.value := by
  unfold enumInitializer at h
  obtain ⟨_, _, hskips, h⟩ := bind_ok.1 h
  obtain ⟨rfl, rfl⟩ := skips_ok.1 hskips
  rw [run_peek_bind] at h
  generalize hkind : (c.past (.mark .minus)).peek.kind = k at h
  split at h
  · cases h
    exact ⟨_, .int (beq_iff_eq.2 hkind), rfl, rfl⟩
  · cases hminus : c.isAt (.mark .minus) with
    | true =>
      rw [hminus] at h
      cases h
    | false =>
      rw [c.past_of_not hminus] at h hkind
      rw [hminus] at h
      cases h
      exact ⟨_, .string hminus (beq_iff_eq.2 hkind), rfl, rfl⟩
  · cases h

/-- What one member does to the counter: only an integer in the first one sets it, and every member counts
it up. -/
theorem enumMember_ok {isFirst : Bool} {counter next : Int} {m : EnumMember}
    (h : enumMember isFirst counter ctx c = .ok ((m, next), d)) :
    ∃ (e : Entry) (n : Int), e.Stands c d ∧ m = e.member n ∧ next = Text.next64 n ∧
      (isFirst = false → n = counter) ∧
      (isFirst = true → counter = 0 → Text.fits64 n = true ∧ ∀ entries, Base (e :: entries) n) := by
  unfold enumMember at h
  obtain ⟨_, _, hread, h⟩ := bind_ok.1 h
  obtain ⟨hname, rfl, rfl⟩ := name_ok.1 hread
  obtain ⟨_, _, hskips, h⟩ := bind_ok.1 h
  obtain ⟨rfl, rfl⟩ := skips_ok.1 hskips
  cases hequals : c.next.isAt (.mark .equals) with
  | false =>
    rw [hequals, c.next.past_of_not hequals] at h
    obtain ⟨hanswer, rfl⟩ := pure_ok.1 h
    cases hanswer
    refine ⟨_, counter, .bare hname hequals, rfl, rfl, fun _ => rfl, ?_⟩
    rintro - rfl
    exact ⟨rfl, fun entries => .other entries (by simp)⟩
  | true =>
    rw [hequals, c.next.past_of_isAt hequals] at h
    obtain ⟨⟨kind, value, p⟩, d', hvalue, h⟩ := bind_ok.1 h
    obtain ⟨l, hl, rfl, rfl⟩ := enumInitializer_ok hvalue
    dsimp only at h
    cases hsets : isFirst && l.kind == .int with
    | false =>
      rw [hsets] at h
      cases h
      refine ⟨_, counter, .given hname hequals hl, rfl, rfl, fun _ => rfl, ?_⟩
      rintro rfl rfl
      exact ⟨rfl, fun entries => .other entries (by simpa using hsets)⟩
    | true =>
      obtain ⟨rfl, hkind⟩ := Bool.and_eq_true_iff.1 hsets
      rw [hsets] at h
      cases hread : Text.readSigned64 10 l.value.toList with
      | none =>
        rw [hread] at h
        cases h
      | some n =>
        rw [hread] at h
        cases h
        obtain ⟨hwrites, hfits⟩ := Text.readSigned64_eq_some.1 hread
        refine ⟨_, n, .given hname hequals hl, rfl, rfl, nofun, fun _ _ => ⟨hfits, fun entries => ?_⟩⟩
        exact .int entries rfl (beq_iff_eq.1 hkind) hwrites

/-- One round of `enumMembers`. -/
def enumRound (s : List EnumMember × Int) :
    Production (Turn (List EnumMember × Int) (List EnumMember)) := do
  if ← isAt (.mark .closeBrace) then return .done s.1.reverse
  let (member, counter) ← enumMember s.1.isEmpty s.2
  discard (optional (.mark .comma))
  return .again (member :: s.1, counter)

theorem enumMembers_eq : enumMembers = loop enumRound ([], 0) := rfl

theorem optional_ok {k : Kind} {t : Option Token} (h : optional k ctx c = .ok (t, d)) : d = c.past k := by
  cases hk : c.isAt k with
  | true =>
    rw [run_optional_of_isAt ctx hk] at h
    cases h
    exact (c.past_of_isAt hk).symm
  | false =>
    rw [run_optional_of_not ctx hk] at h
    cases h
    exact (c.past_of_not hk).symm

/-- A round reads one entry, and goes on behind the comma if there is one. -/
theorem enumRound_ok {s : List EnumMember × Int}
    {t : Turn (List EnumMember × Int) (List EnumMember)} (h : enumRound s ctx c = .ok (t, d)) :
    (c.isAt (.mark .closeBrace) = true ∧ t = .done s.1.reverse ∧ d = c) ∨
    ∃ m next d', c.isAt (.mark .closeBrace) = false ∧
      enumMember s.1.isEmpty s.2 ctx c = .ok ((m, next), d') ∧ t = .again (m :: s.1, next) ∧
      d = d'.past (.mark .comma) := by
  unfold enumRound at h
  rw [run_isAt_bind] at h
  cases hclose : c.isAt (.mark .closeBrace) with
  | true =>
    rw [hclose] at h
    obtain ⟨rfl, rfl⟩ := pure_ok.1 h
    exact .inl ⟨rfl, rfl, rfl⟩
  | false =>
    rw [hclose] at h
    obtain ⟨⟨m, next⟩, d', hmember, h⟩ := bind_ok.1 h
    obtain ⟨_, _, hcomma, h⟩ := bind_ok.1 h
    obtain ⟨_, hcomma⟩ := discard_ok.1 hcomma
    obtain ⟨rfl, rfl⟩ := pure_ok.1 h
    exact .inr ⟨m, next, d', rfl, hmember, rfl, optional_ok hcomma⟩

/-- Behind the first member the counter runs on, whatever the entries are given. -/
theorem enumRounds_ok {rounds : List Stop} {first : EnumMember} {before members : List EnumMember}
    {n : Int} (h : loopFrom enumRound rounds (first :: before, Text.wrap64 n) ctx c = .ok (members, d)) :
    ∃ entries, Entries c entries d ∧
      members = (first :: before).reverse ++ Entry.members n entries := by
  induction rounds generalizing first before n c with
  | nil => cases h
  | cons stop rounds ih =>
    rcases loopFrom_ok.1 h with hdone | ⟨s, c', hagain, hrest⟩
    · rcases enumRound_ok hdone with ⟨hclose, hturn, rfl⟩ | ⟨_, _, _, _, _, hturn, _⟩
      · cases hturn
        exact ⟨[], .stop hclose, by simp [Entry.members]⟩
      · cases hturn
    · rcases enumRound_ok hagain with ⟨_, hturn, _⟩ | ⟨m, next, d', hopen, hmember, hturn, rfl⟩
      · cases hturn
      · cases hturn
        obtain ⟨e, n', he, rfl, rfl, hcounter, -⟩ := enumMember_ok hmember
        obtain rfl := hcounter rfl
        rw [Text.next64_wrap64] at hrest
        obtain ⟨entries, hentries, rfl⟩ := ih hrest
        refine ⟨e :: entries, .more hopen he hentries, ?_⟩
        rw [Entry.members_cons, List.reverse_cons, List.append_assoc]
        rfl

/-- The members of an enum are its entries, counted from the integer of the first one or from zero. -/
theorem enumMembers_ok {members : List EnumMember} (h : enumMembers ctx c = .ok (members, d)) :
    ∃ entries base, Entries c entries d ∧ Base entries base ∧ Text.fits64 base = true ∧
      members = Entry.members base entries := by
  rw [enumMembers_eq] at h
  rcases loopFrom_ok.1 h with hdone | ⟨s, c', hagain, hrest⟩
  · rcases enumRound_ok hdone with ⟨hclose, hturn, rfl⟩ | ⟨_, _, _, _, _, hturn, _⟩
    · cases hturn
      exact ⟨[], 0, .stop hclose, .none, rfl, rfl⟩
    · cases hturn
  · rcases enumRound_ok hagain with ⟨_, hturn, _⟩ | ⟨m, next, d', hopen, hmember, hturn, rfl⟩
    · cases hturn
    · cases hturn
      obtain ⟨e, n, he, rfl, rfl, -, hfirst⟩ := enumMember_ok hmember
      obtain ⟨hfits, hbase⟩ := hfirst rfl rfl
      have hcounter : Text.next64 n = Text.wrap64 (n + 1) := by
        rw [← Text.next64_wrap64, Text.wrap64_of_fits64 hfits]
      rw [hcounter] at hrest
      obtain ⟨entries, hentries, rfl⟩ := enumRounds_ok hrest
      refine ⟨e :: entries, n, .more hopen he hentries, hbase entries, hfits, ?_⟩
      rw [Entry.members_cons, Text.wrap64_of_fits64 hfits]
      rfl

end Production

/-! ## Enums in a file -/

/-- How an enum is written in a file: its name behind the keyword, and entries in braces. -/
inductive EnumDecl.Written (file : Cursor) : EnumDecl → List Entry → Prop where
  | intro {c d : Cursor} {exported : Bool} {entries : List Entry} {members : List EnumMember}
      (hc : file.Reaches 0 c) (henum : c.isAt (.keyword .enumWord) = true)
      (hname : c.next.isAt .identifier = true) (hopen : c.next.next.isAt (.mark .openBrace) = true)
      (hentries : Entries c.next.next.next entries d) :
      Written file ⟨c.next.peek.position, c.next.peek.text, exported, members⟩ entries

/-- Whether an enum is written somewhere in a file and its members are numbered as they are written. -/
def EnumDecl.IsWritten (file : Cursor) (decl : EnumDecl) : Prop :=
  ∃ entries base, decl.Written file entries ∧ Base entries base ∧ Text.fits64 base = true ∧
    decl.members = Entry.members base entries

theorem Production.enumDeclaration_ok {file c d : Cursor} {ctx : Context} {exported : Bool}
    {decl : EnumDecl} (hc : file.Reaches 0 c) (h : enumDeclaration exported ctx c = .ok (decl, d)) :
    decl.IsWritten file := by
  unfold enumDeclaration at h
  obtain ⟨_, _, hread, h⟩ := bind_ok.1 h
  obtain ⟨_, hread⟩ := discard_ok.1 hread
  obtain ⟨henum, -, rfl⟩ := accept_ok.1 hread
  obtain ⟨_, _, hread, h⟩ := bind_ok.1 h
  obtain ⟨hname, rfl, rfl⟩ := identifier_ok.1 hread
  obtain ⟨_, _, hread, h⟩ := bind_ok.1 h
  obtain ⟨_, hread⟩ := discard_ok.1 hread
  obtain ⟨hopen, -, rfl⟩ := accept_ok.1 hread
  obtain ⟨members, d', hmembers, h⟩ := bind_ok.1 h
  obtain ⟨entries, base, hentries, hbase, hfits, rfl⟩ := enumMembers_ok hmembers
  simp only [bind_ok, pure_ok] at h
  obtain ⟨_, _, -, _, _, -, rfl, -⟩ := h
  exact ⟨entries, base, .intro hc henum hname hopen hentries, hbase, hfits, rfl⟩

end ScriptFront
