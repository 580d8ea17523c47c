import ScriptFront.Production.Basic

/-!
# Repetition

Every repetition of the grammar goes through `loop`, which runs a step until it is done. A step that
is not done must have read a token, so there are no more rounds than tokens.
-/

namespace ScriptFront.Production

variable {α β σ : Type}

/-- How a round of a repetition ends. -/
inductive Turn (σ β : Type) where
  | again (s : σ)
  | done (b : β)

/-- Runs `step` from `s` on for at most as many rounds as the list has elements. A list in place of its
length spares counting the tokens before each repetition. -/
def loopFrom (step : σ → Production (Turn σ β)) : List Stop → σ → Production β
  | [], _ => do fail .stalled (← peek).position
  | _ :: rounds, s => do
    match ← step s with
    | .again s => loopFrom step rounds s
    | .done b => return b

def loop (step : σ → Production (Turn σ β)) (s : σ) : Production β := fun ctx c =>
  loopFrom step (c.last :: c.ahead) s ctx c

/-- Runs a production as long as it answers true. -/
def rounds (p : Production Bool) : Production Unit :=
  loop (fun _ => do if ← p then return .again () else return .done ()) ()

/-- One item or more, with commas between them. -/
def separated (item : Production α) : Production (List α) :=
  loop (fun items => do
    let items := (← item) :: items
    if ← skips (.mark .comma) then return .again items else return .done items.reverse) []

/-- Items up to a closing mark, with commas between them; a comma may stand behind the last one. -/
def listed (close : Mark) (item : Production α) : Production (List α) := do
  let items ← loop (fun items => do
    if ← isAt (.mark close) then return .done items.reverse
    let items := (← item) :: items
    if ← skips (.mark .comma) then return .again items else return .done items.reverse) []
  discard (accept (.mark close))
  return items

end ScriptFront.Production
