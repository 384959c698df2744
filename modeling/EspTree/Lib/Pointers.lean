import Mathlib.Order.Basic

/-!
# Following pointers

Nodes of an arbitrary type with at most one pointer each.  `climb up n a` follows the pointers
`n` times.  A rank that falls along every pointer is a certificate that no climb returns to where
it began.

Trees that are given by the parent of each node are of this kind, and so are tables of next hops.
The certificate is all that a proof of acyclicity has to produce; where the rank comes from is left
to the caller.  It need not be a depth: any type with a well-founded order will do, and a
lexicographic pair of numbers is what a protocol with adoptions asks for.
-/

namespace Pointers

variable {α : Type*} (up : α → Option α)

/-- The node that is `n` pointers away from `a`, if there is one. -/
def climb : Nat → α → Option α
  | 0, a => some a
  | n + 1, a => (up a).bind (climb n)

variable {up} {ρ : Type*} [Preorder ρ] {rank : α → ρ} {a b : α}

/-- The rank falls along a climb. -/
theorem climb_rank_lt (h : ∀ a b, up a = some b → rank b < rank a) {n : Nat}
    (hb : climb up (n + 1) a = some b) : rank b < rank a := by
  induction n generalizing a with
  | zero =>
    obtain ⟨x, hx, hxb⟩ := Option.bind_eq_some_iff.mp hb
    rw [← Option.some.inj hxb]
    exact h a x hx
  | succ n ih =>
    obtain ⟨x, hx, hxb⟩ := Option.bind_eq_some_iff.mp hb
    exact (ih hxb).trans (h a x hx)

/-- With such a rank no climb returns. -/
theorem climb_ne_self (h : ∀ a b, up a = some b → rank b < rank a) (n : Nat) (a : α) :
    climb up (n + 1) a ≠ some a :=
  fun ha => lt_irrefl _ (climb_rank_lt h ha)

end Pointers
