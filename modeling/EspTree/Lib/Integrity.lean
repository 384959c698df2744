import Mathlib.Logic.Basic

/-!
# Statements under an integrity constraint

A store whose constraint is checked at the end of every statement: a statement whose result violates it
fails.  A transaction that fails leaves what was there before it.

`Checked` is the store with the proof that its constraint holds, so that no other store can be the
result of a statement.  `execute` runs one, `transaction` a number of them that all succeed or all
have no effect.  The rules say when the result is a success and what it is then.
-/

namespace Wire

/-- A value that meets the constraint. -/
abbrev Checked {α : Type} (sound : α → Prop) := {a : α // sound a}

namespace Checked

variable {α ε β : Type} {sound : α → Prop}

/-- One statement. -/
def execute [DecidablePred sound] (failure : ε) (f : α → α) (a : Checked sound) : Except ε (Checked sound) :=
  if h : sound (f a.1) then .ok ⟨f a.1, h⟩ else .error failure

/-- `BEGIN`, the statements and `COMMIT`, or `ROLLBACK` after a failure. -/
def transaction (body : β → Except ε β) (b : β) : Except ε Unit × β :=
  match body b with
  | .ok b' => (.ok (), b')
  | .error failure => (.error failure, b)

variable [DecidablePred sound] {failure : ε} {f : α → α} {a : Checked sound}

/-- A statement goes through when the constraint holds of its result. -/
theorem execute_ok (h : sound (f a.1)) : execute failure f a = .ok ⟨f a.1, h⟩ := dif_pos h

/-- It fails when the constraint does not hold of its result. -/
theorem execute_error (h : ¬ sound (f a.1)) : execute failure f a = .error failure := dif_neg h

variable {body : β → Except ε β} {b b' : β}

/-- A transaction that goes through leaves its last state. -/
theorem transaction_ok (h : body b = .ok b') : transaction body b = (.ok (), b') := by
  rw [transaction, h]

/-- One that fails leaves the state before its first statement. -/
theorem transaction_error (h : body b = .error failure) : transaction body b = (.error failure, b) := by
  rw [transaction, h]

end Checked

end Wire
