import ScriptFront.Token.Lookahead

/-!
# Productions

A production of the grammar reads tokens from a cursor and makes something of them, or says what is
wrong. Productions are put together with `do`; the first error ends them all.

Nesting is limited: `nested` runs a production one level deeper and refuses to go deeper than
`depthLimit`.
-/

namespace ScriptFront

/-- What surrounds a production. -/
structure Context where
  /-- Whether tail calls are marked. -/
  optimize : Bool
  /-- The number of nested constructs around it. -/
  depth : Nat

def Production (α : Type) : Type := Context → Cursor → Except Error (α × Cursor)

namespace Production

variable {α β : Type}

@[inline] protected def pure (a : α) : Production α := fun _ c => .ok (a, c)

@[inline] protected def bind (p : Production α) (f : α → Production β) : Production β := fun ctx c =>
  match p ctx c with
  | .error e => .error e
  | .ok (a, c) => f a ctx c

instance : Monad Production where
  pure := Production.pure
  bind := Production.bind

/-! ## Errors -/

def fail (cause : Cause) (position : Position) : Production α := fun _ _ =>
  .error ⟨cause, position⟩

/-- Fails at the current token, which the cause describes. -/
def failHere (cause : String → Cause) : Production α := fun _ c =>
  .error ⟨cause c.peek.describe, c.peek.position⟩

/-! ## Looking -/

def peek : Production Token := fun _ c => .ok (c.peek, c)

def peekNth (n : Nat) : Production Token := fun _ c => .ok (c.peekNth n, c)

def peekKind : Production Kind := fun _ c => .ok (c.peekKind, c)

def isAt (k : Kind) : Production Bool := fun _ c => .ok (c.isAt k, c)

def isAtWord (word : String) : Production Bool := fun _ c => .ok (c.peek.isWord word, c)

/-- Asks about the tokens from here on. -/
def asks (f : Cursor → α) : Production α := fun _ c => .ok (f c, c)

/-! ## Reading -/

def next : Production Token := fun _ c => .ok (c.peek, c.next)

/-- Reads `n` tokens. -/
def advance (n : Nat) : Production Unit := fun _ c => .ok ((), c.advance n)

def accept (k : Kind) : Production Token := fun _ c => c.accept k

def optional (k : Kind) : Production (Option Token) := fun _ c =>
  match c.optional k with
  | some (t, c) => .ok (some t, c)
  | none => .ok (none, c)

/-- Reads a token of the given kind if there is one, and says whether there was. -/
def skips (k : Kind) : Production Bool := do return (← optional k).isSome

/-- The semicolon that may end a construct. -/
def semicolon : Production Unit := discard (optional (.mark .semicolon))

/-- An identifier; keywords are refused. -/
def identifier : Production Token := do
  if ← isAt .identifier then next else failHere .expectingIdentifier

/-- An identifier or a keyword in its place. -/
def name : Production Token := do
  if (← peekKind).isName then next else failHere .expectingIdentifier

/-- An identifier that acts as a keyword here. -/
def word (w : String) : Production Token := do
  if ← isAtWord w then next else failHere (.expecting w)

/-! ## Nesting -/

def depthLimit : Nat := 200

/-- Runs a production one level deeper. -/
def nested (p : Production α) : Production α := fun ctx c =>
  if depthLimit ≤ ctx.depth then .error ⟨.nestingTooDeep, c.peek.position⟩
  else p { ctx with depth := ctx.depth + 1 } c

/-- Whether tail calls are marked. -/
def optimizes : Production Bool := fun ctx c => .ok (ctx.optimize, c)

/-! ## Equations -/

theorem run_pure (a : α) (ctx : Context) (c : Cursor) :
    (pure a : Production α) ctx c = .ok (a, c) := rfl

theorem run_bind (p : Production α) (f : α → Production β) (ctx : Context) (c : Cursor) :
    (p >>= f) ctx c =
      match p ctx c with
      | .error e => .error e
      | .ok (a, c) => f a ctx c := rfl

theorem run_bind_of_ok {p : Production α} {f : α → Production β} {ctx : Context} {c d : Cursor}
    {a : α} (h : p ctx c = .ok (a, d)) : (p >>= f) ctx c = f a ctx d := by
  rw [run_bind, h]

theorem run_bind_of_error {p : Production α} {f : α → Production β} {ctx : Context} {c : Cursor}
    {e : Error} (h : p ctx c = .error e) : (p >>= f) ctx c = .error e := by
  rw [run_bind, h]

/-! To look at a token or to read one, and then to go on, is to go on with it. -/

section Looking

variable (ctx : Context) (c : Cursor)

theorem run_peek_bind (f : Token → Production β) : (peek >>= f) ctx c = f c.peek ctx c := rfl

theorem run_peekKind_bind (f : Kind → Production β) :
    (peekKind >>= f) ctx c = f c.peekKind ctx c := rfl

theorem run_isAt_bind (k : Kind) (f : Bool → Production β) :
    (isAt k >>= f) ctx c = f (c.isAt k) ctx c := rfl

theorem run_isAtWord_bind (word : String) (f : Bool → Production β) :
    (isAtWord word >>= f) ctx c = f (c.peek.isWord word) ctx c := rfl

theorem run_asks_bind (h : Cursor → α) (f : α → Production β) :
    (asks h >>= f) ctx c = f (h c) ctx c := rfl

theorem run_next_bind (f : Token → Production β) : (next >>= f) ctx c = f c.peek ctx c.next := rfl

theorem run_discard_next_bind (f : Unit → Production β) :
    (discard next >>= f) ctx c = f () ctx c.next := rfl

end Looking

section Reading

variable (ctx : Context) {c : Cursor} {k : Kind}

theorem run_optional_of_isAt (h : c.isAt k = true) :
    optional k ctx c = .ok (some c.peek, c.next) := by
  unfold optional Cursor.optional
  rw [if_pos h]

theorem run_optional_of_not (h : c.isAt k = false) : optional k ctx c = .ok (none, c) := by
  unfold optional Cursor.optional
  rw [if_neg (by simp [h])]

theorem run_skips_of_isAt (h : c.isAt k = true) : skips k ctx c = .ok (true, c.next) :=
  run_bind_of_ok (run_optional_of_isAt ctx h)

theorem run_skips_of_not (h : c.isAt k = false) : skips k ctx c = .ok (false, c) :=
  run_bind_of_ok (run_optional_of_not ctx h)

theorem run_accept_of_isAt (h : c.isAt k = true) : accept k ctx c = .ok (c.peek, c.next) := by
  unfold accept Cursor.accept Cursor.optional
  rw [if_pos h]

theorem run_accept_of_not (h : c.isAt k = false) :
    accept k ctx c = .error ⟨.expecting k.text c.peek.describe, c.peek.position⟩ := by
  unfold accept Cursor.accept Cursor.optional
  rw [if_neg (by simp [h])]

end Reading

theorem run_nested (p : Production α) {ctx : Context} (c : Cursor) (h : ctx.depth < depthLimit) :
    nested p ctx c = p { ctx with depth := ctx.depth + 1 } c :=
  if_neg (Nat.not_le.2 h)

theorem run_nested_of_le (p : Production α) {ctx : Context} (c : Cursor) (h : depthLimit ≤ ctx.depth) :
    nested p ctx c = .error ⟨.nestingTooDeep, c.peek.position⟩ :=
  if_pos h

end Production

end ScriptFront
