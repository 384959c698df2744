import EspTree.File.Receiver
import Mathlib.Data.Finset.Card

/-!
# The increment buffer's bitmap

`chunks_received` counts the bits of the bitmap, so the buffer is complete exactly when
every chunk of the increment has its bit.  The counter has 16 bits, as has the number of
chunks.

`Counted` is the invariant of the buffer: the bitmap has a bit for each chunk of the increment, and
the counter is the number of those that are set.  To mark a chunk keeps it, whether the chunk was
marked before or not, and `Counted.isComplete_iff` draws the conclusion: the comparison of two
counters, which is what the source does, says that every chunk has arrived.
-/

namespace EspTree

open Wire

namespace FileReceiver

namespace IncrementBuffer

/-- The bitmap and the counters of a buffer for `n` chunks agree. -/
structure Counted (n : Nat) (b : IncrementBuffer) : Prop where
  bitmap_length : b.receivedBitmap.length = (n + 7) / 8
  expected : b.chunksExpected = n
  received : b.chunksReceived =
    ((Finset.range n).filter fun i => b.isChunkReceived i = true).card

/-- A buffer that was reset has counted nothing. -/
theorem Counted.reset (n size : Nat) : Counted n (reset n size) where
  bitmap_length := by simp [IncrementBuffer.reset, bitmapEmpty]
  expected := rfl
  received := by simp [IncrementBuffer.reset, isChunkReceived]

variable {n i : Nat} {b : IncrementBuffer}

/-- What marking a new chunk does. -/
theorem markChunkReceived_eq (hbyte : i / 8 < b.receivedBitmap.length)
    (hnew : b.isChunkReceived i = false) :
    b.markChunkReceived i = { b with
      receivedBitmap := bitmapSet b.receivedBitmap i
      chunksReceived := (b.chunksReceived + 1) % 2 ^ 16 } := by
  have hget : bitmapGet b.receivedBitmap i = false := hnew
  simp [markChunkReceived, hbyte, hget]

theorem Counted.byte_lt (hb : Counted n b) (hi : i < n) : i / 8 < b.receivedBitmap.length := by
  rw [hb.bitmap_length]
  omega

/-- Marking a chunk sets its bit and no other. -/
theorem Counted.isChunkReceived_mark (hb : Counted n b) (hi : i < n)
    (hnew : b.isChunkReceived i = false) (j : Nat) :
    (b.markChunkReceived i).isChunkReceived j = (decide (i = j) || b.isChunkReceived j) := by
  rw [markChunkReceived_eq (hb.byte_lt hi) hnew]
  exact bitmapGet_set (hb.byte_lt hi) j

/-- Marking a new chunk keeps the count right: exactly one bit is new, and the counter stays
below its limit. -/
theorem Counted.mark (hb : Counted n b) (hn : n < 2 ^ 16) (hi : i < n)
    (hnew : b.isChunkReceived i = false) : Counted n (b.markChunkReceived i) := by
  have heq := markChunkReceived_eq (hb.byte_lt hi) hnew
  refine ⟨?_, ?_, ?_⟩
  · rw [heq]
    exact (length_bitmapSet _ _).trans hb.bitmap_length
  · rw [heq]
    exact hb.expected
  · have hset : (Finset.range n).filter (fun j => (b.markChunkReceived i).isChunkReceived j = true) =
        insert i ((Finset.range n).filter fun j => b.isChunkReceived j = true) := by
      ext j
      simp only [Finset.mem_filter, Finset.mem_insert, Finset.mem_range,
        hb.isChunkReceived_mark hi hnew, Bool.or_eq_true, decide_eq_true_eq]
      constructor
      · rintro ⟨hj, rfl | h⟩
        · exact .inl rfl
        · exact .inr ⟨hj, h⟩
      · rintro (rfl | ⟨hj, h⟩)
        · exact ⟨hi, .inl rfl⟩
        · exact ⟨hj, .inr h⟩
    have hcard : ((Finset.range n).filter fun j =>
        (b.markChunkReceived i).isChunkReceived j = true).card = b.chunksReceived + 1 := by
      rw [hset, Finset.card_insert_of_notMem (by simp [hnew]), hb.received]
    have hle : b.chunksReceived + 1 ≤ n := by
      rw [← hcard]
      exact (Finset.card_filter_le _ _).trans_eq (Finset.card_range n)
    rw [hcard, heq]
    exact Nat.mod_eq_of_lt (by omega)

/-- A buffer is complete exactly when all its chunks are there. -/
theorem Counted.isComplete_iff (hb : Counted n b) :
    b.isComplete = true ↔ ∀ i < n, b.isChunkReceived i = true := by
  have hcount : b.isComplete = true ↔
      ((Finset.range n).filter fun i => b.isChunkReceived i = true).card =
        (Finset.range n).card := by
    rw [← hb.received, Finset.card_range, ← hb.expected]
    simp [isComplete]
  rw [hcount, Finset.card_filter_eq_iff]
  simp

end IncrementBuffer

end FileReceiver

end EspTree
