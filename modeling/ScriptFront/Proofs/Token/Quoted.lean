import ScriptFront.Proofs.Text.Digits
import ScriptFront.Token.Lexeme

/-!
# What stands between quotes

A string is written as a sequence of items between its quotes: characters that stand for themselves, and
escapes. `Item.Fits` is the grammar of the items, and a text starts with a string just when it starts with
items in quotes (`atStart_quoted_iff`), which it does in one way at most (`items_unique`). Two of the forms
are accepted that no string should have: a sign in place of the first digit behind `\x`, and a backslash at
the end of a line.
-/

namespace ScriptFront.Lexeme

open Text (IsDigit numberOf)

/-! ## Items -/

inductive Item where
  /-- A character that stands for itself. -/
  | plain (c : Char)
  /-- A backslash and a character that stands for `value` behind it. -/
  | short (c value : Char)
  /-- `\x` with two digits. -/
  | hex (a b : Char)
  /-- A backslash with three octal digits. -/
  | octal (a b c : Char)
  /-- A backslash with a character that makes no escape. Both are kept. -/
  | kept (c : Char)
  /-- `\x` with a sign and one digit. -/
  | signedHex (a : Char)
  /-- A backslash with the line feed behind it. Both are kept. -/
  | keptLine
deriving DecidableEq, Repr

namespace Item

/-- The escapes of one character, with what they stand for. -/
def shorts : List (Char × Char) :=
  [('t', '\t'), ('n', '\n'), ('r', '\r'), ('\x27', '\x27'), ('\x22', '\x22'), ('\\', '\\')]

/-- The characters that an item is written with. -/
def source : Item → List Char
  | plain c => [c]
  | short c _ => ['\\', c]
  | hex a b => ['\\', 'x', a, b]
  | octal a b c => ['\\', a, b, c]
  | kept c => ['\\', c]
  | signedHex a => ['\\', 'x', '+', a]
  | keptLine => ['\\', '\n']

/-- The characters that an item stands for. -/
def value : Item → List Char
  | plain c => [c]
  | short _ v => [v]
  | hex a b => [Char.ofNat (numberOf 16 [a, b])]
  | octal a b c => [Char.ofNat (numberOf 8 [a, b, c])]
  | kept c => ['\\', c]
  | signedHex a => [Char.ofNat (numberOf 16 [a])]
  | keptLine => ['\\', '\n']

/-- Whether an item may stand between these quotes. -/
def Fits (quote : Char) : Item → Prop
  | plain c => c ≠ quote ∧ c ≠ '\\' ∧ c ≠ '\n'
  | short c v => (c, v) ∈ shorts
  | hex a b => IsDigit 16 a ∧ IsDigit 16 b
  | octal a b c => (IsDigit 8 a ∧ IsDigit 8 b ∧ IsDigit 8 c) ∧ numberOf 8 [a, b, c] ≤ 255
  | kept c => c ∉ shorts.map (·.1) ∧ c ≠ 'x' ∧ c.isDigit = false ∧ c ≠ '\n'
  | signedHex a => IsDigit 16 a
  | keptLine => True

instance (quote : Char) : (i : Item) → Decidable (i.Fits quote)
  | plain _ => inferInstanceAs (Decidable (_ ∧ _ ∧ _))
  | short _ _ => inferInstanceAs (Decidable (_ ∈ shorts))
  | hex _ _ => inferInstanceAs (Decidable (_ ∧ _))
  | octal _ _ _ => inferInstanceAs (Decidable ((_ ∧ _ ∧ _) ∧ _ ≤ _))
  | kept _ => inferInstanceAs (Decidable (_ ∧ _ ∧ _ ∧ _))
  | signedHex _ => inferInstanceAs (Decidable (IsDigit _ _))
  | keptLine => inferInstanceAs (Decidable True)

/-- Whether an item has one of the forms that a string is meant to have. -/
def Regular : Item → Prop
  | signedHex _ | keptLine => False
  | _ => True

end Item

/-! ## Escapes -/

variable {quote : Char}

/-- What is read behind a backslash makes an item with it, unless it ends with the text. -/
theorem item_of_escape (quote : Char) {cs value : List Char} {k : Nat}
    (h : escape cs = .ok (value, k)) (hinside : cs.drop k ≠ []) :
    ∃ i : Item, i.Fits quote ∧ '\\' :: cs = i.source ++ cs.drop k ∧ i.value = value := by
  have hshort : ∀ {c v}, (c, v) ∈ Item.shorts → (Item.short c v).Fits quote := fun h => h
  unfold escape at h
  split at h
  case h_1 => cases h
  case h_2 => cases h; exact ⟨.short 't' '\t', hshort (by decide), rfl, rfl⟩
  case h_3 => cases h; exact ⟨.short 'n' '\n', hshort (by decide), rfl, rfl⟩
  case h_4 => cases h; exact ⟨.short 'r' '\r', hshort (by decide), rfl, rfl⟩
  case h_5 => cases h; exact ⟨.short '\x27' '\x27', hshort (by decide), rfl, rfl⟩
  case h_6 => cases h; exact ⟨.short '\x22' '\x22', hshort (by decide), rfl, rfl⟩
  case h_7 => cases h; exact ⟨.short '\\' '\\', hshort (by decide), rfl, rfl⟩
  case h_8 rest =>
    dsimp only at h
    split at h
    · next v hread =>
      cases h
      match rest with
      | [] => cases hread
      | [a] => exact absurd rfl hinside
      | a :: b :: rest =>
        rw [show List.take 2 (a :: b :: rest) = [a, b] from rfl] at hread
        by_cases ha : a = '+'
        · subst ha
          rw [Text.readUnsigned_sign] at hread
          obtain ⟨-, hdigits, rfl⟩ := Text.readDigits_eq_some.1 hread
          exact ⟨.signedHex b, hdigits b (List.mem_singleton_self b), rfl, rfl⟩
        · rw [Text.readUnsigned_cons ha] at hread
          obtain ⟨-, hdigits, rfl⟩ := Text.readDigits_eq_some.1 hread
          obtain ⟨ha, hb⟩ := List.forall_mem_cons.1 hdigits
          exact ⟨.hex a b, ⟨ha, List.forall_mem_singleton.1 hb⟩, rfl, rfl⟩
    · cases h
  case h_9 c rest ht hn hr hsingle hdouble hslash hx =>
    split at h
    · dsimp only at h
      split at h
      · next v hread =>
        split at h
        · next hv =>
          cases h
          obtain ⟨-, hdigits, rfl⟩ := Text.readDigits_eq_some.1 hread
          match rest with
          | [] => cases hv.1
          | [b] => cases hv.1
          | a :: b :: rest =>
            simp only [List.take, List.forall_mem_cons] at hdigits
            exact ⟨.octal c a b, ⟨⟨hdigits.1, hdigits.2.1, hdigits.2.2.1⟩, Nat.le_of_lt_succ hv.2⟩,
              rfl, rfl⟩
        · cases h
      · cases h
    · next hdigit =>
      cases h
      by_cases hline : c = '\n'
      · subst hline
        exact ⟨.keptLine, trivial, rfl, rfl⟩
      · refine ⟨.kept c, ⟨?_, hx, Bool.eq_false_iff.2 hdigit, hline⟩, rfl, rfl⟩
        simp only [Item.shorts, List.map_cons, List.map_nil, List.mem_cons, List.not_mem_nil, or_false,
          not_or]
        exact ⟨ht, hn, hr, hsingle, hdouble, hslash⟩

theorem escape_hex (a b : Char) (rest : List Char) :
    escape ('x' :: a :: b :: rest) =
      match Text.readUnsigned 16 [a, b] with
      | some v => .ok ([Char.ofNat v], 3)
      | none => .error .invalidHexEscape := rfl

/-- An escape that is neither a short one nor a hexadecimal one. -/
theorem escape_other {c : Char} (hshort : c ∉ Item.shorts.map (·.1)) (hx : c ≠ 'x')
    (rest : List Char) :
    escape (c :: rest) =
      if c.isDigit then
        match Text.readDigits 8 (c :: rest.take 2) with
        | some v =>
          if (c :: rest.take 2).length = 3 ∧ v < 256 then .ok ([Char.ofNat v], 3)
          else .error .invalidOctalEscape
        | none => .error .invalidOctalEscape
      else .ok (['\\', c], 1) := by
  have hne : ∀ d ∈ Item.shorts.map (·.1), c ≠ d := fun d hd h => hshort (h ▸ hd)
  unfold escape
  split
  case h_1 h => cases h
  case h_2 h => exact absurd (List.cons.inj h).1 (hne _ (by decide))
  case h_3 h => exact absurd (List.cons.inj h).1 (hne _ (by decide))
  case h_4 h => exact absurd (List.cons.inj h).1 (hne _ (by decide))
  case h_5 h => exact absurd (List.cons.inj h).1 (hne _ (by decide))
  case h_6 h => exact absurd (List.cons.inj h).1 (hne _ (by decide))
  case h_7 h => exact absurd (List.cons.inj h).1 (hne _ (by decide))
  case h_8 h => exact absurd (List.cons.inj h).1 hx
  case h_9 h =>
    obtain ⟨rfl, rfl⟩ := List.cons.inj h
    rfl

/-- The items that start with a backslash are read as escapes. -/
theorem escape_of_item {i : Item} (hi : i.Fits quote) {cs : List Char} (hcs : i.source = '\\' :: cs)
    (rest : List Char) : escape (cs ++ rest) = .ok (i.value, cs.length) := by
  cases i with
  | plain c =>
    obtain ⟨rfl, -⟩ := List.cons.inj hcs
    exact absurd rfl hi.2.1
  | short c v =>
    obtain ⟨-, rfl⟩ := List.cons.inj hcs
    simp only [Item.Fits, Item.shorts, List.mem_cons, Prod.mk.injEq, List.not_mem_nil, or_false] at hi
    rcases hi with ⟨rfl, rfl⟩ | ⟨rfl, rfl⟩ | ⟨rfl, rfl⟩ | ⟨rfl, rfl⟩ | ⟨rfl, rfl⟩ | ⟨rfl, rfl⟩ <;> rfl
  | hex a b =>
    obtain ⟨-, rfl⟩ := List.cons.inj hcs
    obtain ⟨ha, hb⟩ := hi
    have hsign : a ≠ '+' := by
      rintro rfl
      exact absurd ha (by decide)
    have hread : Text.readUnsigned 16 [a, b] = some (numberOf 16 [a, b]) := by
      rw [Text.readUnsigned_cons hsign, Text.readDigits_eq_some]
      exact ⟨List.cons_ne_nil _ _, by simp [ha, hb], rfl⟩
    show escape ('x' :: a :: b :: rest) = _
    rw [escape_hex, hread]
    rfl
  | octal a b c =>
    obtain ⟨-, rfl⟩ := List.cons.inj hcs
    obtain ⟨⟨ha, hb, hc⟩, hsmall⟩ := hi
    have hdigit := ha.isDigit (by omega)
    have hshort : a ∉ Item.shorts.map (·.1) := by
      intro h
      simp only [Item.shorts, List.map_cons, List.map_nil, List.mem_cons, List.not_mem_nil, or_false] at h
      rcases h with rfl | rfl | rfl | rfl | rfl | rfl <;> cases hdigit
    have hx : a ≠ 'x' := by
      rintro rfl
      cases hdigit
    have hread : Text.readDigits 8 [a, b, c] = some (numberOf 8 [a, b, c]) :=
      Text.readDigits_eq_some.2 ⟨List.cons_ne_nil _ _, by simp [ha, hb, hc], rfl⟩
    show escape (a :: b :: c :: rest) = _
    rw [escape_other hshort hx, if_pos hdigit, show List.take 2 (b :: c :: rest) = [b, c] from rfl, hread]
    exact if_pos ⟨rfl, Nat.lt_succ_of_le hsmall⟩
  | kept c =>
    obtain ⟨-, rfl⟩ := List.cons.inj hcs
    obtain ⟨hshort, hx, hdigit, -⟩ := hi
    show escape (c :: rest) = _
    rw [escape_other hshort hx, hdigit]
    rfl
  | signedHex a =>
    obtain ⟨-, rfl⟩ := List.cons.inj hcs
    have hread : Text.readUnsigned 16 ['+', a] = some (numberOf 16 [a]) := by
      rw [Text.readUnsigned_sign, Text.readDigits_eq_some]
      exact ⟨List.cons_ne_nil _ _, List.forall_mem_singleton.2 hi, rfl⟩
    show escape ('x' :: '+' :: a :: rest) = _
    rw [escape_hex, hread]
    rfl
  | keptLine =>
    obtain ⟨-, rfl⟩ := List.cons.inj hcs
    rfl

/-! ## Strings -/

/-- What is read up to the closing quote is a sequence of items. -/
theorem items_of_quotedFrom {fuel n m : Nat} {cs text value : List Char}
    (h : quotedFrom quote fuel cs text n = .ok (value, m)) :
    ∃ (items : List Item) (behind : List Char), (∀ i ∈ items, i.Fits quote) ∧
      cs = items.flatMap Item.source ++ quote :: behind ∧
      value = text.reverse ++ items.flatMap Item.value ∧
      m = n + (items.flatMap Item.source).length + 1 := by
  induction fuel generalizing cs text n with
  | zero => cases h
  | succ fuel ih =>
    cases cs with
    | nil => cases h
    | cons c cs =>
      -- An item in front of those that are read behind it.
      have hitem : ∀ {i : Item} {rest : List Char}, i.Fits quote → c :: cs = i.source ++ rest →
          quotedFrom quote fuel rest (i.value.reverse ++ text) (n + i.source.length) = .ok (value, m) →
          ∃ (items : List Item) (behind : List Char), (∀ i ∈ items, i.Fits quote) ∧
            c :: cs = items.flatMap Item.source ++ quote :: behind ∧
            value = text.reverse ++ items.flatMap Item.value ∧
            m = n + (items.flatMap Item.source).length + 1 := by
        intro i rest hi hcs hrest
        obtain ⟨items, behind, hitems, rfl, rfl, rfl⟩ := ih hrest
        refine ⟨i :: items, behind, List.forall_mem_cons.2 ⟨hi, hitems⟩, ?_, ?_, ?_⟩
        · rw [hcs, List.flatMap_cons, List.append_assoc]
        · simp
        · rw [List.flatMap_cons, List.length_append, Nat.add_assoc n]
      unfold quotedFrom at h
      split at h
      · cases h
      · next hline =>
        split at h
        · next hquote =>
          cases h
          exact ⟨[], cs, List.forall_mem_nil _, by rw [hquote]; rfl, by simp, rfl⟩
        · next hquote =>
          split at h
          · next hslash =>
            subst hslash
            split at h
            · cases h
            · next escaped k hescape =>
              have hinside : cs.drop k ≠ [] := by
                intro hend
                rw [hend] at h
                cases fuel <;> cases h
              obtain ⟨i, hi, hcs, rfl⟩ := item_of_escape quote hescape hinside
              refine hitem hi hcs ?_
              have hlength : i.source.length = 1 + k := by
                have hk : k < cs.length := Nat.lt_of_not_le fun hle => hinside (List.drop_eq_nil_iff.2 hle)
                have := congrArg List.length hcs
                simp only [List.length_cons, List.length_append, List.length_drop] at this
                omega
              rw [hlength, ← Nat.add_assoc]
              exact h
          · next hslash => exact hitem (i := .plain c) ⟨hquote, hslash, hline⟩ rfl h

/-- A sequence of items is read up to the quote behind it. -/
theorem quotedFrom_of_items (hquote : quote = '\x22' ∨ quote = '\x27') {items : List Item}
    (hitems : ∀ i ∈ items, i.Fits quote) (behind : List Char) (fuel : Nat) (text : List Char) (n : Nat)
    (hfuel : (items.flatMap Item.source).length < fuel) :
    quotedFrom quote fuel (items.flatMap Item.source ++ quote :: behind) text n =
      .ok (text.reverse ++ items.flatMap Item.value,
        n + (items.flatMap Item.source).length + 1) := by
  have hslash : '\\' ≠ quote := by rcases hquote with rfl | rfl <;> decide
  have hline : quote ≠ '\n' := by rcases hquote with rfl | rfl <;> decide
  induction items generalizing fuel text n with
  | nil =>
    obtain ⟨fuel, rfl⟩ := Nat.exists_eq_succ_of_ne_zero (Nat.ne_of_gt hfuel)
    rw [List.flatMap_nil, List.nil_append]
    unfold quotedFrom
    rw [if_neg hline, if_pos rfl, List.flatMap_nil, List.append_nil]
    rfl
  | cons i items ih =>
    obtain ⟨fuel, rfl⟩ := Nat.exists_eq_succ_of_ne_zero (Nat.ne_of_gt (Nat.zero_lt_of_lt hfuel))
    obtain ⟨hi, hitems⟩ := List.forall_mem_cons.1 hitems
    rw [List.flatMap_cons, List.length_append] at hfuel
    -- What follows the item is read by assumption.
    have hrest : 1 ≤ i.source.length →
        quotedFrom quote fuel (items.flatMap Item.source ++ quote :: behind)
          (i.value.reverse ++ text) (n + i.source.length) =
          .ok (text.reverse ++ (i :: items).flatMap Item.value,
            n + ((i :: items).flatMap Item.source).length + 1) := by
      intro hpos
      rw [ih hitems fuel _ _ (by omega)]
      simp [Nat.add_assoc]
    by_cases hplain : ∃ c, i = .plain c
    · obtain ⟨c, rfl⟩ := hplain
      show quotedFrom quote (fuel + 1) (c :: (items.flatMap Item.source ++ quote :: behind)) text n = _
      unfold quotedFrom
      rw [if_neg hi.2.2, if_neg hi.1, if_neg hi.2.1]
      exact hrest (Nat.le_refl 1)
    · obtain ⟨cs, hcs⟩ : ∃ cs, i.source = '\\' :: cs := by
        cases i with
        | plain c => exact absurd ⟨c, rfl⟩ hplain
        | _ => exact ⟨_, rfl⟩
      have hlength : i.source.length = 1 + cs.length := by rw [hcs, List.length_cons, Nat.add_comm]
      have hsplit : (i :: items).flatMap Item.source ++ quote :: behind =
          '\\' :: (cs ++ (items.flatMap Item.source ++ quote :: behind)) := by
        rw [List.flatMap_cons, hcs, List.cons_append, List.cons_append, List.append_assoc]
      rw [hsplit]
      unfold quotedFrom
      rw [if_neg (by decide), if_neg hslash, if_pos rfl, escape_of_item hi hcs]
      dsimp only
      rw [List.drop_left, Nat.add_assoc n, ← hlength]
      exact hrest (by omega)

/-! ## One way to read -/

/-- The item that a text starts with if it starts with one. -/
def itemAt? : List Char → Option Item
  | '\\' :: c :: rest =>
    if c = '\n' then some .keptLine
    else if c = 'x' then
      match rest with
      | '+' :: a :: _ => some (.signedHex a)
      | a :: b :: _ => some (.hex a b)
      | _ => none
    else if c.isDigit then
      match rest with
      | a :: b :: _ => some (.octal c a b)
      | _ => none
    else
      match Item.shorts.lookup c with
      | some v => some (.short c v)
      | none => some (.kept c)
  | c :: _ => some (.plain c)
  | [] => none

theorem itemAt?_source {i : Item} (hi : i.Fits quote) (rest : List Char) :
    itemAt? (i.source ++ rest) = some i := by
  cases i with
  | plain c =>
    show itemAt? (c :: rest) = _
    unfold itemAt?
    split
    · next h => exact absurd (List.cons.inj h).1 hi.2.1
    · next h => rw [(List.cons.inj h).1]
    · next h => cases h
  | short c v =>
    simp only [Item.Fits, Item.shorts, List.mem_cons, Prod.mk.injEq, List.not_mem_nil, or_false] at hi
    rcases hi with ⟨rfl, rfl⟩ | ⟨rfl, rfl⟩ | ⟨rfl, rfl⟩ | ⟨rfl, rfl⟩ | ⟨rfl, rfl⟩ | ⟨rfl, rfl⟩ <;> rfl
  | hex a b =>
    show (match a :: b :: rest with
      | '+' :: a :: _ => some (Item.signedHex a)
      | a :: b :: _ => some (.hex a b)
      | _ => none) = _
    split
    · next h =>
      obtain ⟨rfl, -⟩ := List.cons.inj h
      exact absurd hi.1 (by decide)
    · next h =>
      obtain ⟨rfl, hrest⟩ := List.cons.inj h
      obtain ⟨rfl, -⟩ := List.cons.inj hrest
      rfl
    · next h => exact absurd rfl (h a b rest)
  | octal a b c =>
    have hdigit := hi.1.1.isDigit (by omega)
    have hline : a ≠ '\n' := by
      rintro rfl
      cases hdigit
    have hx : a ≠ 'x' := by
      rintro rfl
      cases hdigit
    show (if a = '\n' then some Item.keptLine else if a = 'x' then _ else if a.isDigit then _ else _) = _
    rw [if_neg hline, if_neg hx, if_pos hdigit]
    rfl
  | kept c =>
    obtain ⟨hshort, hx, hdigit, hline⟩ := hi
    have hlookup : Item.shorts.lookup c = none := by
      rw [List.lookup_eq_none_iff]
      exact fun p hp => bne_iff_ne.2 fun h => hshort (List.mem_map.2 ⟨p, hp, h.symm⟩)
    show (if c = '\n' then some Item.keptLine else if c = 'x' then _ else if c.isDigit then _ else _) = _
    rw [if_neg hline, if_neg hx, hdigit, hlookup]
    rfl
  | signedHex a => rfl
  | keptLine => rfl

/-- A text is read as items in one way only. -/
theorem items_unique (hquote : quote ≠ '\\') {items items' : List Item} {behind behind' : List Char}
    (hitems : ∀ i ∈ items, i.Fits quote) (hitems' : ∀ i ∈ items', i.Fits quote)
    (h : items.flatMap Item.source ++ quote :: behind =
      items'.flatMap Item.source ++ quote :: behind') : items = items' ∧ behind = behind' := by
  have hclosed : ∀ {i : Item} {rest rest' : List Char}, i.Fits quote →
      quote :: rest ≠ i.source ++ rest' := by
    intro i rest rest' hi h
    cases i with
    | plain c => exact hi.1 (List.cons.inj h).1.symm
    | _ => exact hquote (List.cons.inj h).1
  induction items generalizing items' with
  | nil =>
    cases items' with
    | nil => exact ⟨rfl, (List.cons.inj h).2⟩
    | cons j items' =>
      rw [List.flatMap_cons, List.append_assoc] at h
      exact absurd h (hclosed (hitems' j List.mem_cons_self))
  | cons i items ih =>
    obtain ⟨hi, hrest⟩ := List.forall_mem_cons.1 hitems
    rw [List.flatMap_cons, List.append_assoc] at h
    cases items' with
    | nil => exact absurd h.symm (hclosed hi)
    | cons j items' =>
      obtain ⟨hj, hrest'⟩ := List.forall_mem_cons.1 hitems'
      rw [List.flatMap_cons, List.append_assoc] at h
      have hread := itemAt?_source hi (items.flatMap Item.source ++ quote :: behind)
      rw [h, itemAt?_source hj] at hread
      cases hread
      obtain ⟨rfl, rfl⟩ := ih hrest hrest' (List.append_cancel_left h)
      exact ⟨rfl, rfl⟩

/-! ## Strings in a text -/

/-- Whether `rest`, behind an opening quote, starts with these items and the closing quote. -/
structure Quotes (quote : Char) (items : List Item) (behind rest : List Char) : Prop where
  fits : ∀ i ∈ items, i.Fits quote
  rest : rest = items.flatMap Item.source ++ quote :: behind

/-- The lexeme that is written as these items in quotes. -/
def ofItems (quote : Char) (items : List Item) : Lexeme :=
  let value := items.flatMap Item.value
  ⟨if quote = '\x27' ∧ value.length = 1 then .rune else .string, String.ofList value,
    (items.flatMap Item.source).length + 2⟩

/-- An item is written over the end of a line only if it keeps the line feed. -/
theorem mem_source_iff {i : Item} (hi : i.Fits quote) : '\n' ∈ i.source ↔ i = .keptLine := by
  have hdigit : ∀ {base c}, IsDigit base c → '\n' ≠ c := by
    rintro base c hc rfl
    have hnone : Text.digitValue base '\n' = none := if_neg (Nat.lt_irrefl base)
    unfold IsDigit at hc
    rw [hnone] at hc
    cases hc
  cases i with
  | plain c => simpa [Item.source] using Ne.symm hi.2.2
  | short c v =>
    have hc : '\n' ≠ c := (by decide : ∀ p ∈ Item.shorts, '\n' ≠ p.1) (c, v) hi
    simpa [Item.source] using hc
  | hex a b => simpa [Item.source] using ⟨hdigit hi.1, hdigit hi.2⟩
  | octal a b c =>
    simpa [Item.source] using ⟨hdigit hi.1.1, hdigit hi.1.2.1, hdigit hi.1.2.2⟩
  | kept c => simpa [Item.source] using Ne.symm hi.2.2.2
  | signedHex a => simpa [Item.source] using hdigit hi
  | keptLine => simp [Item.source]

/-- A text starts with a string just when it starts with items in quotes. Such a string is written as it
should be just when no item of it is irregular, and it stays on its line just when no item is a kept
line feed. -/
theorem atStart_quoted_iff (hquote : quote = '\x22' ∨ quote = '\x27') (rest : List Char) :
    (∀ l, atStart (quote :: rest) = .ok l ↔
      ∃ items behind, Quotes quote items behind rest ∧ l = ofItems quote items) ∧
    ∀ items behind, Quotes quote items behind rest →
      ((∃ items' behind', Quotes quote items' behind' rest ∧ ∀ i ∈ items', i.Regular) ↔
        ∀ i ∈ items, i.Regular) ∧
      ('\n' ∈ items.flatMap Item.source ↔ .keptLine ∈ items) := by
  have hslash : quote ≠ '\\' := by rcases hquote with rfl | rfl <;> decide
  have hstart : atStart (quote :: rest) = quoted quote rest := by rcases hquote with rfl | rfl <;> rfl
  refine ⟨fun l => ?_, fun items behind h => ⟨⟨?_, fun hregular => ⟨items, behind, h, hregular⟩⟩, ?_⟩⟩
  · rw [hstart]
    unfold quoted
    constructor
    · intro h
      split at h
      · cases h
      · next value n hread =>
        cases h
        obtain ⟨items, behind, hitems, hrest, rfl, rfl⟩ := items_of_quotedFrom hread
        refine ⟨items, behind, ⟨hitems, hrest⟩, ?_⟩
        unfold ofItems
        rw [Nat.add_comm 1]
        rfl
    · rintro ⟨items, behind, ⟨hitems, rfl⟩, rfl⟩
      rw [quotedFrom_of_items hquote hitems behind _ [] 1 (by simp)]
      unfold ofItems
      rw [Nat.add_comm 1]
      rfl
  · rintro ⟨items', behind', h', hregular⟩
    obtain ⟨rfl, -⟩ := items_unique hslash h.fits h'.fits (h.rest.symm.trans h'.rest)
    exact hregular
  · rw [List.mem_flatMap]
    constructor
    · rintro ⟨i, hi, hline⟩
      rwa [← (mem_source_iff (h.fits i hi)).1 hline]
    · exact fun hi => ⟨.keptLine, hi, List.mem_cons_of_mem _ List.mem_cons_self⟩

/-- A string with an escape of each regular form. -/
theorem atStart_quoted_iff_escapes :
    atStart "\"a\\n\\x41\\102\\q\" + b".toList =
      .ok ⟨.string, "a\nAB\\q", 15⟩ := by
  have hrest : "a\\n\\x41\\102\\q\" + b".toList =
      [Item.plain 'a', .short 'n' '\n', .hex '4' '1', .octal '1' '0' '2', .kept 'q'].flatMap
        Item.source ++ '\x22' :: " + b".toList := by decide
  have hfits : ∀ i ∈ [Item.plain 'a', .short 'n' '\n', .hex '4' '1', .octal '1' '0' '2', .kept 'q'],
      i.Fits '\x22' := by decide
  exact ((atStart_quoted_iff (.inl rfl) _).1 _).2 ⟨_, _, ⟨hfits, hrest⟩, rfl⟩

/-- A string with a sign behind `\x`, and one that goes over the end of a line. Both are accepted, and
neither is written as it should be. -/
theorem atStart_irregular :
    (atStart "\"\\x+1\"".toList = .ok ⟨.string, "\x01", 6⟩ ∧
      ¬ ∃ items behind, Quotes '\x22' items behind "\\x+1\"".toList ∧ ∀ i ∈ items, i.Regular) ∧
    atStart "\"a\\\nb\"".toList = .ok ⟨.string, "a\\\nb", 6⟩ ∧
      ¬ ∃ items behind, Quotes '\x22' items behind "a\\\nb\"".toList ∧ ∀ i ∈ items, i.Regular := by
  -- The items that a text is read as are the only ones.
  have honly : ∀ {rest : List Char} (items : List Item) {i : Item},
      rest = items.flatMap Item.source ++ ['\x22'] → (∀ j ∈ items, j.Fits '\x22') → i ∈ items →
      ¬ i.Regular → ¬ ∃ items behind, Quotes '\x22' items behind rest ∧ ∀ i ∈ items, i.Regular := by
    rintro rest items i hrest hfits hi hirregular ⟨items', behind, h, hregular⟩
    obtain ⟨rfl, -⟩ := items_unique (by decide) h.fits hfits (h.rest.symm.trans hrest)
    exact hirregular (hregular i hi)
  refine ⟨⟨rfl, ?_⟩, rfl, ?_⟩
  · exact honly [.signedHex '1'] rfl (by decide) List.mem_cons_self id
  · exact honly [.plain 'a', .keptLine, .plain 'b'] rfl (by decide)
      (List.mem_cons_of_mem _ List.mem_cons_self) id

end ScriptFront.Lexeme
