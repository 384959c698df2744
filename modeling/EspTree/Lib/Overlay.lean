import EspTree.Lib.Bytes
import Mathlib.Data.List.Induction

/-!
# Pieces that are written over each other

Several pieces are written into one buffer, one after the other, and where two of them share a place
the later one wins.  All pieces can be read back if and only if any two of them have the same bytes
wherever they overlap (`slices_overlay_iff`), whatever their order.

`overlay` writes a list of pieces into a buffer, `Covers` says that a piece has a byte for a place,
and `Agrees` that two pieces have the same byte wherever both have one.  The byte at a place is that
of the last piece which covers it (`getElem?_overlay`), from which both directions of the theorem
follow.

Two pieces that do not meet agree (`Agrees.of_disjoint`), so a value that is cut into disjoint parts
can be put together in any order.
-/

namespace Wire

/-- Some bytes and the place they are written to. -/
structure Piece where
  off : Nat
  bytes : Bytes
  deriving DecidableEq

namespace Piece

/-- Place `p` is one of those that the piece is written to. -/
def Covers (w : Piece) (p : Nat) : Prop := w.off ≤ p ∧ p < w.off + w.bytes.length

/-- The two pieces have the same bytes wherever they overlap. -/
def Agrees (v w : Piece) : Prop :=
  ∀ p, v.Covers p → w.Covers p → v.bytes[p - v.off]? = w.bytes[p - w.off]?

/-- Pieces that do not overlap agree. -/
theorem Agrees.of_disjoint {v w : Piece}
    (h : v.off + v.bytes.length ≤ w.off ∨ w.off + w.bytes.length ≤ v.off) : v.Agrees w := by
  intro p hv hw
  have hvlo := hv.1
  have hvhi := hv.2
  have hwlo := hw.1
  have hwhi := hw.2
  omega

/-- The piece lies inside a buffer of `n` bytes. -/
def Within (w : Piece) (n : Nat) : Prop := w.off + w.bytes.length ≤ n

end Piece

/-- Inside the place that is written a buffer has the new bytes, outside it has the old ones. -/
theorem getElem?_overwrite {buf src : Bytes} {off : Nat} (h : off + src.length ≤ buf.length)
    (p : Nat) : (overwrite buf off src)[p]? =
      if off ≤ p ∧ p < off + src.length then src[p - off]? else buf[p]? := by
  have htake : (buf.take off).length = off := by
    rw [List.length_take]
    omega
  rw [overwrite, List.append_assoc]
  split
  · next hin =>
    rw [List.getElem?_append_right (by omega), htake, List.getElem?_append_left (by omega)]
  · next hout =>
    rcases Nat.lt_or_ge p off with hlt | hge
    · rw [List.getElem?_append_left (by omega), List.getElem?_take, if_pos hlt]
    · rw [List.getElem?_append_right (by omega), htake, List.getElem?_append_right (by omega),
        List.getElem?_drop]
      congr 1
      omega

/-- A slice is the piece if and only if the buffer has the bytes of the piece. -/
theorem slice_eq_iff {buf : Bytes} {w : Piece} :
    slice buf w.off w.bytes.length = w.bytes ↔
      ∀ p, w.Covers p → buf[p]? = w.bytes[p - w.off]? := by
  constructor
  · intro heq p hp
    have hlo := hp.1
    have hhi := hp.2
    rw [← heq, slice, List.getElem?_take, if_pos (by omega), List.getElem?_drop]
    congr 1
    omega
  · intro hall
    apply List.ext_getElem?
    intro i
    rw [slice, List.getElem?_take, List.getElem?_drop]
    split
    · next hi =>
      rw [hall (w.off + i) ⟨Nat.le_add_right _ _, by omega⟩, Nat.add_sub_cancel_left]
    · next hi => exact (List.getElem?_eq_none (Nat.not_lt.mp hi)).symm

/-- The pieces are written in their order. -/
def overlay (buf : Bytes) (ws : List Piece) : Bytes :=
  ws.foldl (fun buf w => overwrite buf w.off w.bytes) buf

/-- The last piece is written over what the others have left. -/
theorem overlay_append (buf : Bytes) (ws : List Piece) (w : Piece) :
    overlay buf (ws ++ [w]) = overwrite (overlay buf ws) w.off w.bytes := by
  rw [overlay, List.foldl_append]
  rfl

section

variable {buf : Bytes} {ws : List Piece}

theorem length_overlay (h : ∀ w ∈ ws, w.Within buf.length) :
    (overlay buf ws).length = buf.length := by
  induction ws using List.reverseRecOn with
  | nil => rfl
  | append_singleton ws w ih =>
    have hinit := ih fun v hv => h v (List.mem_append_left _ hv)
    rw [overlay_append, length_overwrite]
    · exact hinit
    · rw [hinit]
      exact h w (List.mem_append_right _ (List.mem_singleton_self w))

/-- A place that some piece covers has the byte of one that covers it. -/
theorem getElem?_overlay (h : ∀ w ∈ ws, w.Within buf.length) {p : Nat}
    (hp : ∃ w ∈ ws, w.Covers p) :
    ∃ w ∈ ws, w.Covers p ∧ (overlay buf ws)[p]? = w.bytes[p - w.off]? := by
  induction ws using List.reverseRecOn with
  | nil =>
    obtain ⟨w, hw, -⟩ := hp
    cases hw
  | append_singleton ws w ih =>
    have hinit : ∀ v ∈ ws, v.Within buf.length := fun v hv => h v (List.mem_append_left _ hv)
    have hlast : w ∈ ws ++ [w] := List.mem_append_right _ (List.mem_singleton_self w)
    have hfits : w.off + w.bytes.length ≤ (overlay buf ws).length := by
      rw [length_overlay hinit]
      exact h w hlast
    rw [overlay_append, getElem?_overwrite hfits]
    by_cases hcovers : w.Covers p
    · -- the last piece wins
      exact ⟨w, hlast, hcovers, if_pos hcovers⟩
    · obtain ⟨v, hv, hvp⟩ := hp
      rcases List.mem_append.mp hv with hv | hv
      · obtain ⟨u, hu, hup, heq⟩ := ih hinit ⟨v, hv, hvp⟩
        exact ⟨u, List.mem_append_left _ hu, hup, (if_neg hcovers).trans heq⟩
      · rw [List.mem_singleton.mp hv] at hvp
        exact absurd hvp hcovers

/-- All pieces can be read back if and only if they agree with each other. -/
theorem slices_overlay_iff (h : ∀ w ∈ ws, w.Within buf.length) :
    (∀ w ∈ ws, slice (overlay buf ws) w.off w.bytes.length = w.bytes) ↔
      ∀ v ∈ ws, ∀ w ∈ ws, v.Agrees w := by
  constructor
  · intro hall v hv w hw p hvp hwp
    have hleft := slice_eq_iff.mp (hall v hv) p hvp
    have hright := slice_eq_iff.mp (hall w hw) p hwp
    exact hleft.symm.trans hright
  · intro hagree w hw
    apply slice_eq_iff.mpr
    intro p hp
    obtain ⟨v, hv, hvp, heq⟩ := getElem?_overlay h ⟨w, hw, hp⟩
    exact heq.trans (hagree v hv w hw p hvp hp)

end

/-- Two concatenations of parts of the same lengths are equal if and only if all parts are. -/
theorem flatMap_range_eq_iff {n : Nat} {f g : Nat → Bytes}
    (h : ∀ i < n, (f i).length = (g i).length) :
    (List.range n).flatMap f = (List.range n).flatMap g ↔ ∀ i < n, f i = g i := by
  induction n with
  | zero => simp
  | succ n ih =>
    have hinit := ih fun i hi => h i (Nat.lt_succ_of_lt hi)
    rw [List.range_succ, List.flatMap_append, List.flatMap_append, List.flatMap_singleton,
      List.flatMap_singleton]
    constructor
    · intro heq i hi
      obtain ⟨hleft, hright⟩ := List.append_inj' heq (h n (Nat.lt_succ_self n))
      rcases Nat.lt_succ_iff_lt_or_eq.mp hi with hlt | rfl
      · exact hinit.mp hleft i hlt
      · exact hright
    · intro hall
      rw [hinit.mpr fun i hi => hall i (Nat.lt_succ_of_lt hi), hall n (Nat.lt_succ_self n)]

end Wire
