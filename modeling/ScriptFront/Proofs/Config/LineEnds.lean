import Mathlib.Data.List.TakeWhile
import ScriptFront.Config.Json
import ScriptFront.Proofs.Text.Digits

/-!
# Line ends in JSON texts

No token of a JSON text holds a line end, and a token ends where a line ends. So a text has the same tokens
when line ends are left out in front of others or at the end of the text (`Thinned`). Each reader is shown to
be blind to them (`Blind`): on two such texts it fails, or takes the same word without line ends off both.
-/

namespace ScriptFront.Json

/-! ## Texts with fewer line ends -/

def IsLineEnd (c : Char) : Prop := c = '\n' ∨ c = '\r'

instance : DecidablePred IsLineEnd := fun c => inferInstanceAs (Decidable (c = '\n' ∨ c = '\r'))

/-- Whether a line or the text ends here. -/
inductive AtLineEnd : List Char → Prop
  | last : AtLineEnd []
  | before {c : Char} {cs : List Char} (hc : IsLineEnd c) : AtLineEnd (c :: cs)

theorem AtLineEnd.cases {cs : List Char} (h : AtLineEnd cs) :
    cs = [] ∨ ∃ behind, cs = '\n' :: behind ∨ cs = '\r' :: behind := by
  cases h with
  | last => exact .inl rfl
  | @before c behind hc => exact .inr ⟨behind, hc.imp (congrArg (· :: behind)) (congrArg (· :: behind))⟩

/-- A text and the same text with line ends left out where a line or the text ends anyway. -/
inductive Thinned : List Char → List Char → Prop
  | nil : Thinned [] []
  | keep (c : Char) {cs cs' : List Char} (h : Thinned cs cs') : Thinned (c :: cs) (c :: cs')
  | drop {c : Char} {cs cs' : List Char} (hc : IsLineEnd c) (hbehind : AtLineEnd cs)
      (h : Thinned cs cs') : Thinned (c :: cs) cs'

namespace Thinned

variable {cs cs' : List Char}

theorem refl (cs : List Char) : Thinned cs cs := by
  induction cs with
  | nil => exact .nil
  | cons c cs ih => exact .keep c ih

theorem append_left (word : List Char) (h : Thinned cs cs') : Thinned (word ++ cs) (word ++ cs') := by
  induction word with
  | nil => exact h
  | cons c word ih => exact .keep c ih

theorem atLineEnd (h : Thinned cs cs') (hcs : AtLineEnd cs) : AtLineEnd cs' := by
  induction h with
  | nil => exact .last
  | keep c =>
    cases hcs with
    | before hc => exact .before hc
  | drop _ hbehind _ ih => exact ih hbehind

theorem not_atLineEnd {c : Char} (hc : ¬ IsLineEnd c) : ¬ AtLineEnd (c :: cs) := by
  rintro ⟨⟩
  contradiction

/-- Both texts go on with one character inside a line, or the line ends in both. -/
theorem front (h : Thinned cs cs') :
    (∃ c ds ds', ¬ IsLineEnd c ∧ cs = c :: ds ∧ cs' = c :: ds' ∧ Thinned ds ds') ∨
      (AtLineEnd cs ∧ AtLineEnd cs') := by
  cases h with
  | nil => exact .inr ⟨.last, .last⟩
  | @keep c ds ds' h =>
    by_cases hc : IsLineEnd c
    · exact .inr ⟨.before hc, .before hc⟩
    · exact .inl ⟨c, ds, ds', hc, rfl, rfl, h⟩
  | drop hc hbehind h => exact .inr ⟨.before hc, h.atLineEnd hbehind⟩

variable {w rest : List Char}

/-- A word without line ends stands in front of both texts if it stands in front of the first. -/
theorem word (hw : ∀ c ∈ w, ¬ IsLineEnd c) (h : Thinned (w ++ rest) cs') :
    ∃ rest', cs' = w ++ rest' ∧ Thinned rest rest' := by
  induction w generalizing cs' with
  | nil => exact ⟨cs', rfl, h⟩
  | cons c w ih =>
    obtain ⟨hc, hw⟩ := List.forall_mem_cons.1 hw
    rcases h.front with ⟨d, ds, ds', -, hcons, rfl, hds⟩ | ⟨hend, -⟩
    · obtain ⟨rfl, rfl⟩ := List.cons.inj hcons
      obtain ⟨rest', rfl, hrest⟩ := ih hw hds
      exact ⟨rest', rfl, hrest⟩
    · exact absurd hend (not_atLineEnd hc)

/-- Nor is it in front of the second only. -/
theorem word_back (hw : ∀ c ∈ w, ¬ IsLineEnd c) (h : Thinned cs (w ++ rest)) :
    ∃ rest', cs = w ++ rest' ∧ Thinned rest' rest := by
  induction w generalizing cs with
  | nil => exact ⟨cs, rfl, h⟩
  | cons c w ih =>
    obtain ⟨hc, hw⟩ := List.forall_mem_cons.1 hw
    rcases h.front with ⟨d, ds, ds', -, rfl, hcons, hds⟩ | ⟨-, hend⟩
    · obtain ⟨rfl, rfl⟩ := List.cons.inj hcons
      obtain ⟨rest', rfl, hrest⟩ := ih hw hds
      exact ⟨rest', rfl, hrest⟩
    · exact absurd hend (not_atLineEnd hc)

end Thinned

/-! ## Readers that are blind to line ends -/

variable {α β : Type}

/-- What reading from the front of two texts comes to when it fails for both, or takes the same word off
both that holds no line end, and leaves texts that differ in line ends only. -/
inductive SameReading (cs cs' : List Char) :
    Option (α × List Char) → Option (α × List Char) → Prop
  | fails : SameReading cs cs' none none
  | reads {a : α} {w rest rest' : List Char} (hword : ∀ c ∈ w, ¬ IsLineEnd c)
      (hcs : cs = w ++ rest) (hcs' : cs' = w ++ rest') (hrest : Thinned rest rest') :
      SameReading cs cs' (some (a, rest)) (some (a, rest'))

namespace SameReading

variable {cs cs' : List Char} {r r' : Option (α × List Char)}

/-- Nothing is read. -/
theorem done (h : Thinned cs cs') (a : α) : SameReading cs cs' (some (a, cs)) (some (a, cs')) :=
  .reads (w := []) (by simp) rfl rfl h

theorem bind {f f' : α × List Char → Option (β × List Char)} (h : SameReading cs cs' r r')
    (hf : ∀ a rest rest', rest <:+ cs → rest' <:+ cs' → Thinned rest rest' →
      SameReading rest rest' (f (a, rest)) (f' (a, rest'))) :
    SameReading cs cs' (r.bind f) (r'.bind f') := by
  cases h with
  | fails => exact .fails
  | @reads a word rest rest' hword hcs hcs' hrest =>
    have hbehind := hf a rest rest' ⟨word, hcs.symm⟩ ⟨word, hcs'.symm⟩ hrest
    simp only [Option.bind_some]
    generalize f (a, rest) = next at hbehind ⊢
    generalize f' (a, rest') = next' at hbehind ⊢
    cases hbehind with
    | fails => exact .fails
    | @reads b word' _ _ hword' hrest hrest' hbehind =>
      refine .reads (w := word ++ word') ?_ ?_ ?_ hbehind
      · intro c hc
        exact (List.mem_append.1 hc).elim (hword c) (hword' c)
      · rw [hcs, hrest, List.append_assoc]
      · rw [hcs', hrest', List.append_assoc]

theorem map (h : SameReading cs cs' r r') (g : α → β) :
    SameReading cs cs' (r.map fun (a, rest) => (g a, rest)) (r'.map fun (a, rest) => (g a, rest)) := by
  cases h with
  | fails => exact .fails
  | reads hword hcs hcs' hrest => exact .reads hword hcs hcs' hrest

/-- A character in front that has been read already. -/
theorem cons (h : SameReading cs cs' r r') {c : Char} (hc : ¬ IsLineEnd c) :
    SameReading (c :: cs) (c :: cs') r r' := by
  cases h with
  | fails => exact .fails
  | @reads a word _ _ hword hcs hcs' hrest =>
    refine .reads (w := c :: word) ?_ (congrArg (c :: ·) hcs) (congrArg (c :: ·) hcs') hrest
    exact List.forall_mem_cons.2 ⟨hc, hword⟩

end SameReading

/-- A reader that does not see whether line ends are left out. -/
def Blind (read : List Char → Option (α × List Char)) : Prop :=
  ∀ cs cs', Thinned cs cs' → SameReading cs cs' (read cs) (read cs')

namespace Blind

theorem suffix {read : List Char → Option (α × List Char)} (hread : Blind read) {cs rest : List Char}
    {a : α} (h : read cs = some (a, rest)) : rest <:+ cs := by
  have hsame := hread cs cs (.refl cs)
  rw [h] at hsame
  cases hsame with
  | reads _ hcs => exact ⟨_, hcs.symm⟩

/-- A reader that looks at one character first. -/
theorem of_cons {read : List Char → Option (α × List Char)}
    (hcons : ∀ c, ¬ IsLineEnd c → ∀ cs cs', Thinned cs cs' →
      SameReading (c :: cs) (c :: cs') (read (c :: cs)) (read (c :: cs')))
    (hends : ∀ cs cs', Thinned cs cs' → AtLineEnd cs → AtLineEnd cs' →
      SameReading cs cs' (read cs) (read cs')) : Blind read := by
  intro cs cs' h
  rcases h.front with ⟨c, ds, ds', hc, rfl, rfl, hds⟩ | ⟨hcs, hcs'⟩
  · exact hcons c hc ds ds' hds
  · exact hends cs cs' h hcs hcs'

/-- A reader that takes words off a text, whatever is behind them. -/
theorem of_word {read : List Char → Option (α × List Char)}
    (hread : ∀ {cs a rest}, read cs = some (a, rest) → ∃ w, cs = w ++ rest ∧
      (∀ c ∈ w, ¬ IsLineEnd c) ∧ ∀ rest', read (w ++ rest') = some (a, rest')) : Blind read := by
  intro cs cs' h
  cases hr : read cs with
  | some r =>
    obtain ⟨w, rfl, hword, hw⟩ := hread hr
    obtain ⟨rest', rfl, hrest⟩ := h.word hword
    rw [hw rest']
    exact .reads hword rfl rfl hrest
  | none =>
    cases hr' : read cs' with
    | none => exact .fails
    | some r =>
      obtain ⟨w, rfl, hword, hw⟩ := hread hr'
      obtain ⟨rest', rfl, -⟩ := h.word_back hword
      rw [hw rest'] at hr
      cases hr

/-- A reader that behind the first reader goes on with what that has read. -/
theorem bind {read : List Char → Option (α × List Char)}
    {f : α → List Char → Option (β × List Char)} (hread : Blind read) (hf : ∀ a, Blind (f a)) :
    Blind fun cs => (read cs).bind fun r => f r.1 r.2 :=
  fun cs cs' h => (hread cs cs' h).bind fun a rest rest' _ _ hrest => hf a rest rest' hrest

theorem map {read : List Char → Option (α × List Char)} (hread : Blind read) (g : α → β) :
    Blind fun cs => (read cs).map fun (a, rest) => (g a, rest) :=
  fun cs cs' h => (hread cs cs' h).map g

end Blind

/-! ## Numbers -/

theorem takeWhile_of_atLineEnd {p : Char → Bool} (hp : ∀ c, IsLineEnd c → p c = false)
    {cs : List Char} (h : AtLineEnd cs) : cs.takeWhile p = [] := by
  cases h with
  | last => rfl
  | before hc => exact List.takeWhile_cons_of_neg (by simp [hp _ hc])

/-- A run of characters ends where a line ends. -/
theorem Thinned.takeWhile {p : Char → Bool} (hp : ∀ c, IsLineEnd c → p c = false) {cs cs' : List Char}
    (h : Thinned cs cs') :
    cs'.takeWhile p = cs.takeWhile p ∧
      Thinned (cs.drop (cs.takeWhile p).length) (cs'.drop (cs.takeWhile p).length) := by
  induction h with
  | nil => exact ⟨rfl, .nil⟩
  | keep c h ih =>
    by_cases hc : p c = true
    · rw [List.takeWhile_cons_of_pos hc, List.takeWhile_cons_of_pos hc]
      exact ⟨congrArg (c :: ·) ih.1, ih.2⟩
    · rw [List.takeWhile_cons_of_neg hc, List.takeWhile_cons_of_neg hc]
      exact ⟨rfl, h.keep c⟩
  | @drop c cs cs' hc hbehind h =>
    rw [takeWhile_of_atLineEnd hp (.before hc), takeWhile_of_atLineEnd hp (h.atLineEnd hbehind)]
    exact ⟨rfl, h.drop hc hbehind⟩

theorem digits1_blind : Blind digits1 := by
  intro cs cs' h
  have hdigits : ∀ c, IsLineEnd c → c.isDigit = false := by
    rintro c (rfl | rfl) <;> decide
  obtain ⟨hrun, hrest⟩ := h.takeWhile hdigits
  unfold digits1
  dsimp only
  rw [hrun]
  split
  · exact .fails
  · refine .reads (w := cs.takeWhile Char.isDigit) ?_ ?_ ?_ hrest
    · intro c hc hend
      have hdigit := List.mem_takeWhile_imp hc
      rw [hdigits c hend] at hdigit
      cases hdigit
    · exact (List.prefix_iff_eq_append.1 (List.takeWhile_prefix _)).symm
    · rw [← hrun]
      exact (List.prefix_iff_eq_append.1 (List.takeWhile_prefix _)).symm

/-- An exponent behind its letter. -/
def signedDigits (cs : List Char) : Option (Option (Bool × List Char) × List Char) :=
  match cs with
  | '+' :: cs => (digits1 cs).map fun (ds, rest) => (some (Bool.false, ds), rest)
  | '-' :: cs => (digits1 cs).map fun (ds, rest) => (some (Bool.true, ds), rest)
  | cs => (digits1 cs).map fun (ds, rest) => (some (Bool.false, ds), rest)

theorem signedDigits_of_ne {c : Char} (hplus : c ≠ '+') (hminus : c ≠ '-') (cs : List Char) :
    signedDigits (c :: cs) = (digits1 (c :: cs)).map fun (ds, rest) => (some (Bool.false, ds), rest) := by
  unfold signedDigits
  split
  · next heq => exact absurd (List.cons.inj heq).1 hplus
  · next heq => exact absurd (List.cons.inj heq).1 hminus
  · rfl

theorem signedDigits_blind : Blind signedDigits := by
  have hplain := fun sign => digits1_blind.map fun ds => some ((sign : Bool), ds)
  have hother : ∀ {cs : List Char}, AtLineEnd cs → signedDigits cs =
      (digits1 cs).map fun (ds, rest) => (some (Bool.false, ds), rest) := by
    intro cs hcs
    rcases hcs.cases with rfl | ⟨behind, rfl | rfl⟩ <;> rfl
  apply Blind.of_cons
  · intro c hc cs cs' h
    by_cases hplus : c = '+'
    · subst hplus
      exact (hplain Bool.false cs cs' h).cons hc
    · by_cases hminus : c = '-'
      · subst hminus
        exact (hplain Bool.true cs cs' h).cons hc
      · rw [signedDigits_of_ne hplus hminus, signedDigits_of_ne hplus hminus]
        exact hplain Bool.false _ _ (h.keep c)
  · intro cs cs' h hcs hcs'
    rw [hother hcs, hother hcs']
    exact hplain Bool.false cs cs' h

theorem exponentPart_of_ne {c : Char} (hlower : c ≠ 'e') (hupper : c ≠ 'E') (cs : List Char) :
    exponentPart (c :: cs) = some (none, c :: cs) := by
  unfold exponentPart
  split
  · next heq => exact absurd (List.cons.inj heq).1 hlower
  · next heq => exact absurd (List.cons.inj heq).1 hupper
  · rfl

theorem exponentPart_blind : Blind exponentPart := by
  have hother : ∀ {cs : List Char}, AtLineEnd cs → exponentPart cs = some (none, cs) := by
    intro cs hcs
    rcases hcs.cases with rfl | ⟨behind, rfl | rfl⟩ <;> rfl
  apply Blind.of_cons
  · intro c hc cs cs' h
    by_cases hletter : c = 'e' ∨ c = 'E'
    · have hsigned := (signedDigits_blind cs cs' h).cons hc
      rcases hletter with rfl | rfl <;> exact hsigned
    · rw [not_or] at hletter
      rw [exponentPart_of_ne hletter.1 hletter.2, exponentPart_of_ne hletter.1 hletter.2]
      exact .done (h.keep c) none
  · intro cs cs' h hcs hcs'
    rw [hother hcs, hother hcs']
    exact .done h none

/-- The digits behind the point, if there is one. -/
def fractionPart (cs : List Char) : Option (List Char × List Char) :=
  match cs with
  | '.' :: cs => digits1 cs
  | cs => some ([], cs)

theorem fractionPart_of_ne {c : Char} (hpoint : c ≠ '.') (cs : List Char) :
    fractionPart (c :: cs) = some ([], c :: cs) := by
  unfold fractionPart
  split
  · next heq => exact absurd (List.cons.inj heq).1 hpoint
  · rfl

theorem fractionPart_blind : Blind fractionPart := by
  have hother : ∀ {cs : List Char}, AtLineEnd cs → fractionPart cs = some ([], cs) := by
    intro cs hcs
    rcases hcs.cases with rfl | ⟨behind, rfl | rfl⟩ <;> rfl
  apply Blind.of_cons
  · intro c hc cs cs' h
    by_cases hpoint : c = '.'
    · subst hpoint
      exact (digits1_blind cs cs' h).cons hc
    · rw [fractionPart_of_ne hpoint, fractionPart_of_ne hpoint]
      exact .done (h.keep c) []
  · intro cs cs' h hcs hcs'
    rw [hother hcs, hother hcs']
    exact .done h []

/-- A number behind its digits before the point. -/
def numberBehind (digits cs : List Char) : Option (Token × List Char) :=
  if digits.head? = some '0' ∧ digits.length ≠ 1 then none
  else (fractionPart cs).bind fun fraction =>
    (exponentPart fraction.2).bind fun exponent =>
      some (.number (numberInRange digits fraction.1 exponent.1), exponent.2)

/-- A number is read part by part. -/
theorem numberToken_eq (cs : List Char) :
    numberToken cs = (digits1 cs).bind fun digits => numberBehind digits.1 digits.2 := by
  unfold numberToken
  cases digits1 cs with
  | none => rfl
  | some digits =>
    obtain ⟨digits, rest⟩ := digits
    simp only [Option.bind_eq_bind, Option.bind_some, numberBehind]
    split
    · rfl
    · cases rest with
      | nil => rfl
      | cons c rest =>
        by_cases hpoint : c = '.'
        · subst hpoint
          rfl
        · rw [fractionPart_of_ne hpoint, Option.bind_some]
          split
          · next heq => exact absurd (List.cons.inj heq).1 hpoint
          · rfl

theorem numberBehind_blind (digits : List Char) : Blind (numberBehind digits) := by
  intro cs cs' h
  unfold numberBehind
  split
  · exact .fails
  · apply (fractionPart_blind cs cs' h).bind
    intro fraction rest rest' _ _ hrest
    apply (exponentPart_blind rest rest' hrest).bind
    intro exponent rest rest' _ _ hrest
    exact .done hrest _

theorem numberToken_blind : Blind numberToken := by
  rw [funext numberToken_eq]
  exact digits1_blind.bind numberBehind_blind

/-! ## Strings -/

theorem not_isLineEnd_of_digit {base : Nat} {c : Char} (h : Text.IsDigit base c) : ¬ IsLineEnd c := by
  rintro (rfl | rfl) <;> simp [Text.IsDigit, Text.digitValue] at h

theorem hex4_append {digits : List Char} {n : Nat} (hlength : digits.length = 4)
    (hn : Text.readDigits 16 digits = some n) (rest : List Char) :
    hex4 (digits ++ rest) = some (n, rest) := by
  simp only [hex4, Option.bind_eq_bind]
  rw [List.take_left' hlength, List.drop_left' hlength, if_neg (not_not.2 hlength), hn]
  rfl

theorem of_hex4_eq_some {cs rest : List Char} {n : Nat} (h : hex4 cs = some (n, rest)) :
    ∃ digits, cs = digits ++ rest ∧ (∀ c ∈ digits, ¬ IsLineEnd c) ∧
      ∀ rest', hex4 (digits ++ rest') = some (n, rest') := by
  simp only [hex4, Option.bind_eq_bind] at h
  split at h
  · cases h
  · next hlength =>
    rw [Option.bind_eq_some_iff] at h
    obtain ⟨m, hm, hrest⟩ := h
    cases hrest
    refine ⟨cs.take 4, (List.take_append_drop 4 cs).symm, ?_, hex4_append (not_not.1 hlength) hm⟩
    intro c hc
    exact not_isLineEnd_of_digit ((Text.readDigits_eq_some.1 hm).2.1 c hc)

theorem escapePiece_blind : Blind escapePiece := by
  apply Blind.of_word
  intro cs p rest h
  unfold escapePiece at h
  split at h
  case h_9 cs =>
    rw [Option.map_eq_some_iff] at h
    obtain ⟨⟨n, rest⟩, hn, hr⟩ := h
    cases hr
    obtain ⟨digits, rfl, hword, hdigits⟩ := of_hex4_eq_some hn
    refine ⟨'u' :: digits, rfl, List.forall_mem_cons.2 ⟨by simp [IsLineEnd], hword⟩, ?_⟩
    intro rest'
    exact congrArg (Option.map _) (hdigits rest')
  case h_10 => cases h
  -- The other escapes are one character each.
  all_goals
    cases h
    exact ⟨[_], rfl, by simp [IsLineEnd], fun _ => rfl⟩

theorem piecesFrom_of_atLineEnd {cs : List Char} (h : AtLineEnd cs) (n : Nat) (pieces : List Piece) :
    piecesFrom n cs pieces = none := by
  cases n with
  | zero => rfl
  | succ n => rcases h.cases with rfl | ⟨behind, rfl | rfl⟩ <;> rfl

theorem piecesFrom_escape (n : Nat) (cs : List Char) (pieces : List Piece) :
    piecesFrom (n + 1) ('\\' :: cs) pieces =
      (escapePiece cs).bind fun r => piecesFrom n r.2 (r.1 :: pieces) := by
  rw [piecesFrom, if_neg (by decide), if_pos rfl]
  cases escapePiece cs <;> rfl

/-- A string is read with any number that is large enough. -/
theorem piecesFrom_sameReading {n n' : Nat} {cs cs' : List Char} (h : Thinned cs cs')
    (hn : cs.length ≤ n) (hn' : cs'.length ≤ n') (pieces : List Piece) :
    SameReading cs cs' (piecesFrom n cs pieces) (piecesFrom n' cs' pieces) := by
  induction n generalizing n' cs cs' pieces with
  | zero =>
    obtain rfl := List.length_eq_zero_iff.1 (Nat.le_zero.1 hn)
    rw [piecesFrom_of_atLineEnd (h.atLineEnd .last)]
    exact .fails
  | succ n ih =>
    rcases h.front with ⟨c, ds, ds', hc, rfl, rfl, hds⟩ | ⟨hcs, hcs'⟩
    · cases n' with
      | zero => cases hn'
      | succ n' =>
        replace hn := Nat.le_of_succ_le_succ hn
        replace hn' := Nat.le_of_succ_le_succ hn'
        by_cases hescape : c = '\\'
        · subst hescape
          rw [piecesFrom_escape, piecesFrom_escape]
          refine ((escapePiece_blind ds ds' hds).bind ?_).cons hc
          intro p rest rest' hrest hrest' hthinned
          exact ih hthinned (hrest.length_le.trans hn) (hrest'.length_le.trans hn') (p :: pieces)
        · simp only [piecesFrom, hescape, if_false]
          split
          · exact (SameReading.done hds _).cons hc
          · split
            · exact .fails
            · exact (ih hds hn hn' (.char c :: pieces)).cons hc
    · rw [piecesFrom_of_atLineEnd hcs, piecesFrom_of_atLineEnd hcs']
      exact .fails

theorem stringToken_blind : Blind stringToken := by
  intro cs cs' h
  exact (piecesFrom_sameReading h le_rfl le_rfl []).map fun pieces => Token.string (textOf pieces)

/-! ## Tokens -/

theorem keyword_blind (w : List Char) (hw : ∀ c ∈ w, ¬ IsLineEnd c) (t : Token) :
    Blind fun cs => if w.isPrefixOf cs then some (t, cs.drop w.length) else none := by
  apply Blind.of_word
  intro cs a rest h
  split at h
  · next hprefix =>
    obtain ⟨rest', rfl⟩ := List.isPrefixOf_iff_prefix.1 hprefix
    rw [List.drop_left] at h
    cases h
    refine ⟨w, rfl, hw, ?_⟩
    intro rest'
    simp
  · cases h

/-- A token is read alike. -/
theorem tokenAt_sameReading {c : Char} (hc : ¬ IsLineEnd c) {cs cs' : List Char} (h : Thinned cs cs') :
    SameReading (c :: cs) (c :: cs') (tokenAt c cs) (tokenAt c cs') := by
  unfold tokenAt
  split
  case h_7 => exact (stringToken_blind cs cs' h).cons hc
  case h_8 => exact (numberToken_blind cs cs' h).cons hc
  case h_9 => exact (keyword_blind "ull".toList (by simp [IsLineEnd]) .null cs cs' h).cons hc
  case h_10 => exact (keyword_blind "rue".toList (by simp [IsLineEnd]) .true cs cs' h).cons hc
  case h_11 => exact (keyword_blind "alse".toList (by simp [IsLineEnd]) .false cs cs' h).cons hc
  case h_12 =>
    split
    · exact numberToken_blind _ _ (h.keep c)
    · exact .fails
  all_goals exact (SameReading.done h _).cons hc

theorem numberToken_suffix {c : Char} (hc : c.isDigit = true) {cs rest : List Char} {t : Token}
    (h : numberToken (c :: cs) = some (t, rest)) : rest <:+ cs := by
  rw [numberToken_eq, Option.bind_eq_some_iff] at h
  obtain ⟨⟨digits, behind⟩, hdigits, hrest⟩ := h
  apply ((numberBehind_blind digits).suffix hrest).trans
  unfold digits1 at hdigits
  rw [List.takeWhile_cons_of_pos hc] at hdigits
  cases hdigits
  exact List.drop_suffix _ cs

/-- A token has its first character at least. -/
theorem tokenAt_suffix {c : Char} {cs rest : List Char} {t : Token}
    (h : tokenAt c cs = some (t, rest)) : rest <:+ cs := by
  unfold tokenAt at h
  split at h
  case h_7 => exact stringToken_blind.suffix h
  case h_8 => exact numberToken_blind.suffix h
  case h_9 => exact (keyword_blind "ull".toList (by simp [IsLineEnd]) .null).suffix h
  case h_10 => exact (keyword_blind "rue".toList (by simp [IsLineEnd]) .true).suffix h
  case h_11 => exact (keyword_blind "alse".toList (by simp [IsLineEnd]) .false).suffix h
  case h_12 =>
    split at h
    · next hc => exact numberToken_suffix hc h
    · cases h
  all_goals
    cases h
    exact List.suffix_rfl

theorem tokensFrom_nil (n : Nat) (tokens : List Token) : tokensFrom n [] tokens = some tokens.reverse := by
  cases n <;> rfl

/-- A blank is skipped. -/
theorem tokensFrom_blank {c : Char} (hc : isBlank c = true) (n : Nat) (cs : List Char)
    (tokens : List Token) : tokensFrom (n + 1) (c :: cs) tokens = tokensFrom n cs tokens := by
  rw [tokensFrom, if_pos hc]

/-- A token is read. -/
theorem tokensFrom_token {c : Char} (hc : ¬ isBlank c = true) (n : Nat) (cs : List Char)
    (tokens : List Token) :
    tokensFrom (n + 1) (c :: cs) tokens =
      (tokenAt c cs).bind fun r => tokensFrom n r.2 (r.1 :: tokens) := by
  rw [tokensFrom, if_neg hc]
  cases tokenAt c cs <;> rfl

theorem IsLineEnd.isBlank {c : Char} (hc : IsLineEnd c) : isBlank c = true := by
  rcases hc with rfl | rfl <;> rfl

/-- The tokens are the same, with any numbers that are large enough. -/
theorem tokensFrom_of_thinned {n n' : Nat} {cs cs' : List Char} (h : Thinned cs cs')
    (hn : cs.length ≤ n) (hn' : cs'.length ≤ n') (tokens : List Token) :
    tokensFrom n cs tokens = tokensFrom n' cs' tokens := by
  induction n generalizing n' cs cs' tokens with
  | zero =>
    obtain rfl := List.length_eq_zero_iff.1 (Nat.le_zero.1 hn)
    cases h
    rw [tokensFrom_nil, tokensFrom_nil]
  | succ n ih =>
    cases h with
    | nil => rw [tokensFrom_nil, tokensFrom_nil]
    | drop hc hbehind h =>
      rw [tokensFrom_blank hc.isBlank]
      exact ih h (Nat.le_of_succ_le_succ hn) hn' tokens
    | @keep c ds ds' h =>
      cases n' with
      | zero => cases hn'
      | succ n' =>
        replace hn := Nat.le_of_succ_le_succ hn
        replace hn' := Nat.le_of_succ_le_succ hn'
        by_cases hc : isBlank c = true
        · rw [tokensFrom_blank hc, tokensFrom_blank hc]
          exact ih h hn hn' tokens
        · rw [tokensFrom_token hc, tokensFrom_token hc]
          have hsame := tokenAt_sameReading (mt IsLineEnd.isBlank hc) h
          generalize hr : tokenAt c ds = r at hsame ⊢
          generalize hr' : tokenAt c ds' = r' at hsame ⊢
          cases hsame with
          | fails => rfl
          | @reads t _ rest rest' _ _ _ hrest =>
            exact ih hrest ((tokenAt_suffix hr).length_le.trans hn)
              ((tokenAt_suffix hr').length_le.trans hn') (t :: tokens)

/-- A JSON text means the same without line ends in front of others or at its end. -/
theorem ofChars_of_thinned {cs cs' : List Char} (h : Thinned cs cs') : ofChars cs = ofChars cs' := by
  unfold ofChars tokenize
  rw [tokensFrom_of_thinned h le_rfl le_rfl]

end ScriptFront.Json
