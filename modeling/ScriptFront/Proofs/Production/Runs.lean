import ScriptFront.Proofs.Production.Reads

/-!
# When a production succeeds

For each way to read a token, what the cursor stands at if it succeeds, and where it stands then. With
`bind_ok`, a run that succeeds is taken apart and put together again with these.
-/

namespace ScriptFront

/-- Behind the current token if it has the given kind. -/
def Cursor.past (c : Cursor) (k : Kind) : Cursor := if c.isAt k then c.next else c

theorem Cursor.past_of_isAt {c : Cursor} {k : Kind} (h : c.isAt k = true) : c.past k = c.next := if_pos h

theorem Cursor.past_of_not {c : Cursor} {k : Kind} (h : c.isAt k = false) : c.past k = c :=
  if_neg (Bool.eq_false_iff.1 h)

namespace Production

variable {α β : Type} {ctx : Context} {c d : Cursor} {k : Kind} {t : Token}

theorem pure_ok {a b : α} : (pure a : Production α) ctx c = .ok (b, d) ↔ b = a ∧ d = c := by
  rw [run_pure, Except.ok.injEq, Prod.mk.injEq, eq_comm, @eq_comm _ c]

theorem map_ok {p : Production α} {f : α → β} {b : β} :
    (f <$> p) ctx c = .ok (b, d) ↔ ∃ a, p ctx c = .ok (a, d) ∧ b = f a := by
  show (p >>= fun a => pure (f a)) ctx c = .ok (b, d) ↔ _
  rw [bind_ok]
  constructor
  · rintro ⟨a, e, hp, hpure⟩
    obtain ⟨rfl, rfl⟩ := pure_ok.1 hpure
    exact ⟨a, hp, rfl⟩
  · rintro ⟨a, hp, rfl⟩
    exact ⟨a, d, hp, rfl⟩

theorem discard_ok {p : Production α} {u : Unit} :
    discard p ctx c = .ok (u, d) ↔ ∃ a, p ctx c = .ok (a, d) := by
  show (Function.const α () <$> p) ctx c = .ok (u, d) ↔ _
  rw [map_ok]
  simp

theorem accept_ok : accept k ctx c = .ok (t, d) ↔ c.isAt k = true ∧ t = c.peek ∧ d = c.next := by
  cases h : c.isAt k with
  | true => rw [run_accept_of_isAt ctx h]; simp [eq_comm]
  | false => rw [run_accept_of_not ctx h]; simp

theorem skips_ok {b : Bool} :
    skips k ctx c = .ok (b, d) ↔ b = c.isAt k ∧ d = c.past k := by
  cases h : c.isAt k with
  | true => rw [run_skips_of_isAt ctx h, c.past_of_isAt h]; simp [eq_comm]
  | false => rw [run_skips_of_not ctx h, c.past_of_not h]; simp [eq_comm]

theorem discard_optional_ok {u : Unit} : discard (optional k) ctx c = .ok (u, d) ↔ d = c.past k := by
  cases h : c.isAt k with
  | true => rw [discard_ok, run_optional_of_isAt ctx h, c.past_of_isAt h]; simp [eq_comm]
  | false => rw [discard_ok, run_optional_of_not ctx h, c.past_of_not h]; simp [eq_comm]

theorem identifier_ok :
    identifier ctx c = .ok (t, d) ↔ c.isAt .identifier = true ∧ t = c.peek ∧ d = c.next := by
  unfold identifier
  rw [run_isAt_bind]
  cases c.isAt .identifier with
  | true => simp [next, eq_comm]
  | false => simp [failHere]

theorem name_ok :
    name ctx c = .ok (t, d) ↔ c.peekKind.isName = true ∧ t = c.peek ∧ d = c.next := by
  unfold name
  rw [run_peekKind_bind]
  cases c.peekKind.isName with
  | true => simp [next, eq_comm]
  | false => simp [failHere]

/-- A repetition that succeeds is done in this round, or goes on from what the round answers. -/
theorem loopFrom_ok {σ : Type} {step : σ → Production (Turn σ β)} {stop : Stop} {rounds : List Stop}
    {s : σ} {b : β} :
    loopFrom step (stop :: rounds) s ctx c = .ok (b, d) ↔
      step s ctx c = .ok (.done b, d) ∨
        ∃ s' c', step s ctx c = .ok (.again s', c') ∧ loopFrom step rounds s' ctx c' = .ok (b, d) := by
  rw [loopFrom, bind_ok]
  constructor
  · rintro ⟨turn, c', hstep, hrest⟩
    cases turn with
    | again s' => exact .inr ⟨s', c', hstep, hrest⟩
    | done b' =>
      obtain ⟨rfl, rfl⟩ := pure_ok.1 hrest
      exact .inl hstep
  · rintro (hstep | ⟨s', c', hstep, hrest⟩)
    · exact ⟨.done b, d, hstep, rfl⟩
    · exact ⟨.again s', c', hstep, hrest⟩

end Production

end ScriptFront
