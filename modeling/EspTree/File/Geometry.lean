import EspTree.Types
import Mathlib.Tactic.Set

/-!
# Chunks and increments of a file

A file is sent in chunks of the negotiated size, and the receiver flashes it in
increments of a few kilobytes.  Both ends compute the same four numbers from the file
size, the chunk size and the buffer size (`FileReceiver::compute_increment_geometry_`
and the middle of `ESPNowOTAManager::handle_accept_`), on `uint16_t` and `uint32_t`
fields; the truncations are written out here.

`Geometry.ofTransfer_spec` says what they are when the number of increments fits into
its 16-bit field, which is the only place where a truncation could bite.

The divisions round up, on fields that wrap, and one of them is cut to a byte on its way to the
other end.  So the definitions keep the casts of the source (`truncOr`, `divUp`), and the facts about
them have the bounds as hypotheses under which the casts do nothing.  `Sound` is the structure that
the other modules use: a geometry that was computed without a loss.
-/

namespace EspTree

open Wire

/-- `ESPNOW_MAX_INCREMENT_KB`. -/
def maxIncrementKb : Nat := 8

/-- The increment geometry of a transfer. -/
structure Geometry where
  chunksPerIncrement : Nat
  totalIncrements : Nat
  chunksInLastIncrement : Nat
  totalChunks : Nat
  deriving DecidableEq, Repr

namespace Geometry

/-- The all-zero geometry of a side that has no transfer. -/
def none : Geometry := ⟨0, 0, 0, 0⟩

/-- `a / b` rounded up, in the way the source writes it. -/
def divUp (a b : Nat) : Nat := a / b + if a % b ≠ 0 then 1 else 0

/-- Store into a `uint16_t` field and replace a zero result by `fallback`. -/
def truncOr (fallback x : Nat) : Nat := if x % 2 ^ 16 = 0 then fallback else x % 2 ^ 16

/-- Subtraction on `uint32_t`. -/
def sub32 (a b : Nat) : Nat := (a + 2 ^ 32 - b % 2 ^ 32) % 2 ^ 32

/-- `compute_increment_geometry_`. -/
def ofTransfer (fileSize chunkSize bufferKb : Nat) : Geometry :=
  let incrementDataSize := min bufferKb maxIncrementKb * 1024
  let cpi := truncOr 1 (incrementDataSize / chunkSize)
  let totalChunks := divUp fileSize chunkSize
  let increments := truncOr 1 (divUp totalChunks cpi)
  { chunksPerIncrement := cpi
    totalIncrements := increments
    chunksInLastIncrement := truncOr cpi (sub32 totalChunks ((increments - 1) * cpi))
    totalChunks }

def chunksInIncrement (g : Geometry) (increment : Nat) : Nat :=
  if g.totalIncrements ≤ increment + 1 then g.chunksInLastIncrement else g.chunksPerIncrement

def expectedChunkLen (g : Geometry) (fileSize chunkSize sequence : Nat) : Nat :=
  if chunkSize = 0 ∨ g.totalChunks ≤ sequence then 0
  else if fileSize ≤ sequence * chunkSize then 0
  else min (fileSize - sequence * chunkSize) chunkSize

/-- Before truncation: the number of increments that a transfer needs. -/
def incrementCount (fileSize chunkSize bufferKb : Nat) : Nat :=
  divUp (divUp fileSize chunkSize) (ofTransfer fileSize chunkSize bufferKb).chunksPerIncrement

/-- The last of the pieces is not empty, and the pieces together cover everything. -/
theorem divUp_bounds {a b : Nat} (hb : 0 < b) (ha : 0 < a) :
    (divUp a b - 1) * b < a ∧ a ≤ divUp a b * b ∧ 0 < divUp a b := by
  have hdm := Nat.div_add_mod a b
  have hmod := Nat.mod_lt a hb
  unfold divUp
  generalize a / b = q at *
  generalize a % b = r at *
  by_cases h : r = 0
  · subst h
    obtain ⟨q, rfl⟩ : ∃ k, q = k + 1 := by
      cases q with
      | zero => simp at hdm; omega
      | succ k => exact ⟨k, rfl⟩
    rw [Nat.mul_add, Nat.mul_one] at hdm
    simp only [ne_eq, not_true_eq_false, if_false, Nat.add_zero, Nat.add_sub_cancel]
    rw [Nat.add_mul, Nat.mul_comm q b]
    omega
  · simp only [ne_eq, h, not_false_eq_true, if_true, Nat.add_sub_cancel]
    rw [Nat.add_mul, Nat.mul_comm q b]
    omega

/-- What the geometry of a transfer is, as long as the increment count fits its field:
every increment but the last has `chunksPerIncrement` chunks, and the last has the
remaining ones, at least one. -/
structure Sound (g : Geometry) (fileSize chunkSize : Nat) : Prop where
  chunk_pos : 0 < chunkSize
  cpi_pos : 0 < g.chunksPerIncrement
  total_pos : 0 < g.totalChunks
  file_le : fileSize ≤ g.totalChunks * chunkSize
  lt_file : (g.totalChunks - 1) * chunkSize < fileSize
  increments_pos : 0 < g.totalIncrements
  last_pos : 0 < g.chunksInLastIncrement
  last_le : g.chunksInLastIncrement ≤ g.chunksPerIncrement
  total_eq : (g.totalIncrements - 1) * g.chunksPerIncrement + g.chunksInLastIncrement =
    g.totalChunks

/-- A number that fits its field is kept. -/
theorem truncOr_of_lt {fallback x : Nat} (h₀ : 0 < x) (h : x < 2 ^ 16) :
    truncOr fallback x = x := by
  rw [truncOr, Nat.mod_eq_of_lt h, if_neg (by omega)]

theorem sub32_of_le {a b : Nat} (h : b ≤ a) (ha : a < 2 ^ 32) : sub32 a b = a - b := by
  rw [sub32]
  omega

/-- There is at least one chunk in an increment, and their number fits its field. -/
theorem cpi_bounds (fileSize chunkSize bufferKb : Nat) :
    0 < (ofTransfer fileSize chunkSize bufferKb).chunksPerIncrement ∧
      (ofTransfer fileSize chunkSize bufferKb).chunksPerIncrement < 2 ^ 16 := by
  have hlt : min bufferKb maxIncrementKb * 1024 / chunkSize % 2 ^ 16 < 2 ^ 16 :=
    Nat.mod_lt _ (by decide)
  simp only [ofTransfer, truncOr]
  split <;> omega

theorem totalIncrements_lt (fileSize chunkSize bufferKb : Nat) :
    (ofTransfer fileSize chunkSize bufferKb).totalIncrements < 2 ^ 16 := by
  have hlt (x : Nat) : truncOr 1 x < 2 ^ 16 := by
    have : x % 2 ^ 16 < 2 ^ 16 := Nat.mod_lt _ (by decide)
    rw [truncOr]
    split <;> omega
  exact hlt _

/-- The numbers of a transfer as they are meant, when the number of increments fits its field. -/
theorem ofTransfer_spec {fileSize chunkSize bufferKb : Nat} (hc : 0 < chunkSize)
    (hf : 0 < fileSize) (hfl : fileSize < 2 ^ 32)
    (hfit : incrementCount fileSize chunkSize bufferKb < 2 ^ 16) :
    (ofTransfer fileSize chunkSize bufferKb).Sound fileSize chunkSize := by
  obtain ⟨hcpi₀, hcpi⟩ := cpi_bounds fileSize chunkSize bufferKb
  set g := ofTransfer fileSize chunkSize bufferKb with hg
  obtain ⟨hT₁, hT₂, hT₃⟩ := divUp_bounds hc hf
  obtain ⟨hI₁, hI₂, hI₃⟩ := divUp_bounds hcpi₀ hT₃
  change divUp (divUp fileSize chunkSize) g.chunksPerIncrement < 2 ^ 16 at hfit
  have htot : g.totalChunks = divUp fileSize chunkSize := rfl
  have hinc : g.totalIncrements = divUp g.totalChunks g.chunksPerIncrement :=
    truncOr_of_lt hI₃ hfit
  rw [← htot] at hT₁ hT₂ hT₃ hI₁ hI₂ hI₃
  rw [← hinc] at hI₁ hI₂ hI₃
  have hTle : g.totalChunks < 2 ^ 32 := by
    have : g.totalChunks - 1 ≤ (g.totalChunks - 1) * chunkSize := Nat.le_mul_of_pos_right _ hc
    omega
  have hsplit : g.totalIncrements * g.chunksPerIncrement =
      (g.totalIncrements - 1) * g.chunksPerIncrement + g.chunksPerIncrement := by
    obtain ⟨i, hi⟩ : ∃ i, g.totalIncrements = i + 1 := ⟨g.totalIncrements - 1, by omega⟩
    rw [hi, Nat.add_sub_cancel, Nat.add_mul, Nat.one_mul]
  have hlast : g.chunksInLastIncrement =
      g.totalChunks - (g.totalIncrements - 1) * g.chunksPerIncrement := by
    have hsub := sub32_of_le hI₁.le hTle
    change truncOr g.chunksPerIncrement
      (sub32 g.totalChunks ((g.totalIncrements - 1) * g.chunksPerIncrement)) = _
    rw [hsub]
    exact truncOr_of_lt (by omega) (by omega)
  exact ⟨hc, hcpi₀, hT₃, hT₂, hT₁, hI₃, by omega, by omega, by omega⟩

/-- The first sequence number after increment `k`. -/
theorem Sound.increment_end {g : Geometry} {fileSize chunkSize : Nat}
    (h : g.Sound fileSize chunkSize) {k : Nat} (hk : k < g.totalIncrements) :
    k * g.chunksPerIncrement + g.chunksInIncrement k =
      min ((k + 1) * g.chunksPerIncrement) g.totalChunks := by
  have htot := h.total_eq
  have hle := h.last_le
  rw [chunksInIncrement, Nat.add_mul, Nat.one_mul]
  split
  · next hlast =>
    have hke : g.totalIncrements - 1 = k := by omega
    rw [hke] at htot
    omega
  · next hlast =>
    have hmul : (k + 1) * g.chunksPerIncrement ≤ (g.totalIncrements - 1) * g.chunksPerIncrement :=
      Nat.mul_le_mul_right _ (by omega)
    rw [Nat.add_mul, Nat.one_mul] at hmul
    omega

end Geometry

end EspTree
