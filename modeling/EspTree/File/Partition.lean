import EspTree.File.Increments
import EspTree.File.Lockstep
import Mathlib.Algebra.BigOperators.Group.Finset.Basic

/-!
# The chunks of a file, as both ends count them

The receiver computes the geometry of a transfer from the buffer size that its handler has given, a
`uint16_t`, and the bridge from the byte of it that the `ACCEPT` carries.  Both keep the number of
increments in a `uint16_t`, although a file of a gigabyte can have more of them.

`geometry_agreed` says when both have the same geometry and its increments partition the file.

`Agreed` says that both ends have the same file, chunk size and geometry, that no sequence number is
in two increments and each of the file's is in one, and that the lengths of the chunks add up to the
file.  The numbers that both ends compute are the same when the quotient that is cut to a byte is the
one that is cut to sixteen bits, and the number of increments fits its field.  `geometry_agreed` has
both as its condition, and it is exact.
-/

namespace EspTree

open Wire FileReceiver OtaManager

namespace Geometry

/-! ## The fields -/

/-- The geometry in the types of its fields. -/
structure Fields where
  chunksPerIncrement : UInt16
  totalIncrements : UInt16
  chunksInLastIncrement : UInt16
  totalChunks : UInt32
  deriving DecidableEq

namespace Fields

/-- `static_cast<uint16_t>`, with `fallback` for 0. -/
def narrow (fallback : UInt16) (x : UInt32) : UInt16 := if x.toUInt16 = 0 then fallback else x.toUInt16

/-- `a / b + (a % b != 0 ? 1 : 0)`. -/
def divUp (a b : UInt32) : UInt32 := a / b + if a % b ≠ 0 then 1 else 0

/-- The arithmetic of `compute_increment_geometry_` and `handle_accept_`. -/
def compute (fileSize : UInt32) (chunkSize bufferKb : UInt16) : Fields :=
  let effectiveKb := if 8 < bufferKb then 8 else bufferKb
  let incrementDataSize := effectiveKb.toUInt32 * 1024
  let chunksPerIncrement := narrow 1 (incrementDataSize / chunkSize.toUInt32)
  let totalChunks := divUp fileSize chunkSize.toUInt32
  let totalIncrements := narrow 1 (divUp totalChunks chunksPerIncrement.toUInt32)
  let chunksInLastIncrement := narrow chunksPerIncrement
    (totalChunks - (totalIncrements.toUInt32 - 1) * chunksPerIncrement.toUInt32)
  { chunksPerIncrement, totalIncrements, chunksInLastIncrement, totalChunks }

def computeIncrementGeometry (fileSize : UInt32) (chunkPayloadSize bufferSizeKb : UInt16) : Fields :=
  compute fileSize chunkPayloadSize bufferSizeKb

/-- The geometry of `ESPNowOTAManager::handle_accept_`. -/
def acceptGeometry (fileSize : UInt32) (negotiatedChunkSize : UInt16) (remoteBufferKb : UInt8) :
    Fields :=
  compute fileSize negotiatedChunkSize remoteBufferKb.toUInt16

/-- The values of the fields. -/
def values (f : Fields) : Geometry where
  chunksPerIncrement := f.chunksPerIncrement.toNat
  totalIncrements := f.totalIncrements.toNat
  chunksInLastIncrement := f.chunksInLastIncrement.toNat
  totalChunks := f.totalChunks.toNat

theorem toNat_narrow (fallback : UInt16) (x : UInt32) :
    (narrow fallback x).toNat = truncOr fallback.toNat x.toNat := by
  have hzero : x.toUInt16 = 0 ↔ x.toNat % 2 ^ 16 = 0 := by
    rw [← UInt16.toNat_inj, UInt32.toNat_toUInt16]
    rfl
  unfold narrow truncOr
  split
  next h => rw [if_pos (hzero.mp h)]
  next h => rw [if_neg (mt hzero.mpr h), UInt32.toNat_toUInt16]

theorem toNat_divUp (a b : UInt32) : (divUp a b).toNat = Geometry.divUp a.toNat b.toNat := by
  have ha := a.toNat_lt
  have hzero : a % b = 0 ↔ a.toNat % b.toNat = 0 := by
    rw [← UInt32.toNat_inj, UInt32.toNat_mod]
    rfl
  unfold divUp Geometry.divUp
  by_cases h : a % b = 0
  · rw [if_neg (not_not.mpr h), if_neg (not_not.mpr (hzero.mp h))]
    simp
  · -- an inexact quotient leaves room for one more
    have hne := mt hzero.mpr h
    rw [if_pos h, if_pos hne, UInt32.toNat_add, UInt32.toNat_div]
    refine Nat.mod_eq_of_lt ?_
    have hdiv : a.toNat / b.toNat ≤ a.toNat := Nat.div_le_self _ _
    have hone : (1 : UInt32).toNat = 1 := rfl
    by_contra hlarge
    have hall : a.toNat / b.toNat = a.toNat := by omega
    have hb : b.toNat = 1 := by
      rcases Nat.div_eq_self.mp hall with h0 | h1
      · omega
      · exact h1
    rw [hb, Nat.mod_one] at hne
    exact hne rfl

theorem toNat_sub_mul {a : UInt32} {i c : UInt16} (hi : i ≠ 0) :
    (a - (i.toUInt32 - 1) * c.toUInt32).toNat = sub32 a.toNat ((i.toNat - 1) * c.toNat) := by
  have hpos : 0 < i.toNat := Nat.pos_of_ne_zero fun h => hi (UInt16.toNat_inj.mp h)
  have hpred : (i.toUInt32 - 1).toNat = i.toNat - 1 := by
    have hle : (1 : UInt32) ≤ i.toUInt32 := UInt32.le_iff_toNat_le.mpr (by simpa using Nat.succ_le_of_lt hpos)
    rw [UInt32.toNat_sub_of_le _ _ hle]
    rfl
  have hmul : ((i.toUInt32 - 1) * c.toUInt32).toNat = (i.toNat - 1) * c.toNat := by
    rw [UInt32.toNat_mul, hpred, UInt16.toNat_toUInt32]
    refine Nat.mod_eq_of_lt ?_
    calc (i.toNat - 1) * c.toNat ≤ 2 ^ 16 * c.toNat := Nat.mul_le_mul_right _ (by have := i.toNat_lt; omega)
      _ < 2 ^ 16 * 2 ^ 16 := Nat.mul_lt_mul_of_pos_left c.toNat_lt (by decide)
  rw [UInt32.toNat_sub, hmul, sub32]
  have ha := a.toNat_lt
  have hlt : (i.toNat - 1) * c.toNat < 2 ^ 32 := hmul ▸ UInt32.toNat_lt _
  omega

/-- On the fields, the arithmetic is that of `ofTransfer`. -/
theorem values_compute (fileSize : UInt32) (chunkSize bufferKb : UInt16) :
    (compute fileSize chunkSize bufferKb).values =
      ofTransfer fileSize.toNat chunkSize.toNat bufferKb.toNat := by
  simp only [compute, values, ofTransfer, Geometry.mk.injEq]
  have hkb : (if 8 < bufferKb then 8 else bufferKb).toNat = min bufferKb.toNat maxIncrementKb := by
    have hlt : 8 < bufferKb ↔ 8 < bufferKb.toNat := UInt16.lt_iff_toNat_lt
    split
    next h => exact (min_eq_right (hlt.mp h).le).symm
    next h => exact (min_eq_left (Nat.not_lt.mp (mt hlt.mpr h))).symm
  generalize (if 8 < bufferKb then 8 else bufferKb) = kb at *
  have hdata : (kb.toUInt32 * 1024).toNat = min bufferKb.toNat maxIncrementKb * 1024 := by
    rw [UInt32.toNat_mul, UInt16.toNat_toUInt32, hkb]
    have hle : min bufferKb.toNat maxIncrementKb ≤ 8 := Nat.min_le_right _ _
    exact Nat.mod_eq_of_lt (by rw [show (1024 : UInt32).toNat = 1024 from rfl]; omega)
  have hcpi : (narrow 1 (kb.toUInt32 * 1024 / chunkSize.toUInt32)).toNat =
      truncOr 1 (min bufferKb.toNat maxIncrementKb * 1024 / chunkSize.toNat) := by
    rw [toNat_narrow, UInt32.toNat_div, hdata, UInt16.toNat_toUInt32]
    rfl
  have htotal : (divUp fileSize chunkSize.toUInt32).toNat =
      Geometry.divUp fileSize.toNat chunkSize.toNat := by
    rw [toNat_divUp, UInt16.toNat_toUInt32]
  generalize narrow 1 (kb.toUInt32 * 1024 / chunkSize.toUInt32) = cpi at *
  generalize divUp fileSize chunkSize.toUInt32 = total at *
  have hinc : (narrow 1 (divUp total cpi.toUInt32)).toNat =
      truncOr 1 (Geometry.divUp total.toNat cpi.toNat) := by
    rw [toNat_narrow, toNat_divUp, UInt16.toNat_toUInt32]
    rfl
  have hne : narrow 1 (divUp total cpi.toUInt32) ≠ 0 := by
    unfold narrow
    split
    · decide
    next h => exact h
  generalize narrow 1 (divUp total cpi.toUInt32) = inc at *
  refine ⟨?_, ?_, ?_, ?_⟩
  · exact hcpi
  · rw [hinc, htotal, hcpi]
  · rw [toNat_narrow, toNat_sub_mul hne, hinc, htotal, hcpi]
  · exact htotal

end Fields

/-! ## Increments -/

/-- The sequence numbers of increment `k`. -/
def increment (g : Geometry) (k : Nat) : Finset Nat :=
  Finset.Ico (k * g.chunksPerIncrement) (min (k * g.chunksPerIncrement + g.chunksInIncrement k) g.totalChunks)

/-- The chunks that fit into a buffer of `bufferKb` kilobytes, at least one. -/
def capacity (chunkSize bufferKb : Nat) : Nat := max 1 (min bufferKb maxIncrementKb * 1024 / chunkSize)

theorem chunksPerIncrement_ofTransfer (fileSize chunkSize bufferKb : Nat) :
    (ofTransfer fileSize chunkSize bufferKb).chunksPerIncrement = capacity chunkSize bufferKb := by
  have hle : min bufferKb maxIncrementKb ≤ 8 := Nat.min_le_right _ _
  have hdiv := Nat.div_le_self (min bufferKb maxIncrementKb * 1024) chunkSize
  change truncOr 1 (min bufferKb maxIncrementKb * 1024 / chunkSize) = max 1 _
  generalize min bufferKb maxIncrementKb * 1024 / chunkSize = chunks at *
  unfold truncOr
  split <;> omega

/-- The geometry depends on the buffer only through the number of chunks that fit into it. -/
theorem ofTransfer_congr {fileSize chunkSize kb kb' : Nat} (h : capacity chunkSize kb = capacity chunkSize kb') :
    ofTransfer fileSize chunkSize kb = ofTransfer fileSize chunkSize kb' := by
  have hcpi : truncOr 1 (min kb maxIncrementKb * 1024 / chunkSize) =
      truncOr 1 (min kb' maxIncrementKb * 1024 / chunkSize) :=
    (chunksPerIncrement_ofTransfer fileSize chunkSize kb).trans
      (h.trans (chunksPerIncrement_ofTransfer fileSize chunkSize kb').symm)
  simp only [ofTransfer, hcpi]

namespace Sound

variable {g : Geometry} {fileSize chunkSize : Nat}

theorem chunks_le (h : g.Sound fileSize chunkSize) (k : Nat) : g.chunksInIncrement k ≤ g.chunksPerIncrement := by
  unfold chunksInIncrement
  split
  · exact h.last_le
  · exact le_rfl

/-- No sequence number is in two increments. -/
theorem disjoint (h : g.Sound fileSize chunkSize) :
    (Set.Iio g.totalIncrements).PairwiseDisjoint g.increment := by
  have hbefore {k l : Nat} (hkl : k < l) : Disjoint (g.increment k) (g.increment l) := by
    refine Finset.disjoint_left.mpr fun s hk hl => ?_
    have hend := (Finset.mem_Ico.mp hk).2.trans_le (Nat.min_le_left _ _)
    have hstart := (Finset.mem_Ico.mp hl).1
    have hmul := Nat.mul_le_mul_right g.chunksPerIncrement hkl
    rw [Nat.succ_mul] at hmul
    have hle := h.chunks_le k
    omega
  intro k _ l _ hne
  rcases Nat.lt_or_gt_of_ne hne with hlt | hgt
  · exact hbefore hlt
  · exact (hbefore hgt).symm

/-- Every sequence number of the file is in an increment. -/
theorem covers (h : g.Sound fileSize chunkSize) :
    (Finset.range g.totalIncrements).biUnion g.increment = Finset.range g.totalChunks := by
  ext s
  rw [Finset.mem_biUnion, Finset.mem_range]
  constructor
  · rintro ⟨k, -, hs⟩
    exact (Finset.mem_Ico.mp hs).2.trans_le (Nat.min_le_right _ _)
  · intro hs
    have htotal : g.totalChunks ≤ g.totalIncrements * g.chunksPerIncrement := by
      have heq := h.total_eq
      have hle := h.last_le
      have hsplit := Nat.succ_mul (g.totalIncrements - 1) g.chunksPerIncrement
      rw [Nat.succ_eq_add_one, Nat.sub_add_cancel h.increments_pos] at hsplit
      omega
    have hk : s / g.chunksPerIncrement < g.totalIncrements :=
      Nat.div_lt_of_lt_mul (by rw [Nat.mul_comm]; omega)
    refine ⟨s / g.chunksPerIncrement, Finset.mem_range.mpr hk, Finset.mem_Ico.mpr ⟨Nat.div_mul_le_self _ _, ?_⟩⟩
    rw [h.increment_end hk]
    have hnext : s < (s / g.chunksPerIncrement + 1) * g.chunksPerIncrement := by
      rw [Nat.mul_comm]
      exact Nat.lt_mul_div_succ s h.cpi_pos
    omega

/-- The offset of a chunk lies within the file. -/
theorem offset_lt (h : g.Sound fileSize chunkSize) {s : Nat} (hs : s < g.totalChunks) :
    s * chunkSize < fileSize :=
  (Nat.mul_le_mul_right _ (Nat.le_sub_one_of_lt hs)).trans_lt h.lt_file

theorem expectedChunkLen_eq (h : g.Sound fileSize chunkSize) {s : Nat} (hs : s < g.totalChunks) :
    g.expectedChunkLen fileSize chunkSize s = min (fileSize - s * chunkSize) chunkSize := by
  have hoffset := h.offset_lt hs
  have hchunk := h.chunk_pos
  rw [expectedChunkLen, if_neg (by omega), if_neg (by omega)]

theorem expectedChunkLen_bounds (h : g.Sound fileSize chunkSize) {s : Nat} (hs : s < g.totalChunks) :
    1 ≤ g.expectedChunkLen fileSize chunkSize s ∧ g.expectedChunkLen fileSize chunkSize s ≤ chunkSize := by
  have hoffset := h.offset_lt hs
  have hchunk := h.chunk_pos
  rw [h.expectedChunkLen_eq hs]
  omega

/-- The first `n` chunks have the first `n * chunkSize` bytes. -/
theorem sum_expectedChunkLen_range (h : g.Sound fileSize chunkSize) {n : Nat} (hn : n ≤ g.totalChunks) :
    ∑ s ∈ Finset.range n, g.expectedChunkLen fileSize chunkSize s = min fileSize (n * chunkSize) := by
  induction n with
  | zero => simp
  | succ n ih =>
    have hoffset := h.offset_lt (s := n) (by omega)
    rw [Finset.sum_range_succ, ih (by omega), h.expectedChunkLen_eq (by omega), Nat.succ_mul]
    omega

theorem sum_expectedChunkLen (h : g.Sound fileSize chunkSize) :
    ∑ s ∈ Finset.range g.totalChunks, g.expectedChunkLen fileSize chunkSize s = fileSize := by
  rw [h.sum_expectedChunkLen_range le_rfl]
  exact min_eq_left h.file_le

end Sound

/-- A count that does not fit its field is stored as a much smaller one. -/
theorem truncOr_far {x : Nat} (hx : 2 ^ 16 ≤ x) : truncOr 1 x + (2 ^ 16 - 1) ≤ x := by
  unfold truncOr
  split <;> omega

theorem truncOr_lt {fallback x : Nat} (hx : 2 ^ 16 ≤ x) (hf : fallback < x) : truncOr fallback x < x := by
  have hmod := Nat.mod_lt x (show 0 < 2 ^ 16 by decide)
  unfold truncOr
  split
  · exact hf
  · omega

/-- When the number of increments does not fit its field, the last sequence number is in none. -/
theorem last_uncovered {fileSize chunkSize bufferKb : Nat} (hchunk : 0 < chunkSize) (hfile : 0 < fileSize)
    (hmax : fileSize < 2 ^ 32) (hcount : 2 ^ 16 ≤ incrementCount fileSize chunkSize bufferKb) :
    (ofTransfer fileSize chunkSize bufferKb).totalChunks - 1 ∉
      (Finset.range (ofTransfer fileSize chunkSize bufferKb).totalIncrements).biUnion
        (ofTransfer fileSize chunkSize bufferKb).increment := by
  obtain ⟨hcpi, -⟩ := cpi_bounds fileSize chunkSize bufferKb
  obtain ⟨hlower, -, htotal⟩ := divUp_bounds hchunk hfile
  obtain ⟨hbelow, -, -⟩ := divUp_bounds hcpi htotal
  unfold incrementCount at hcount
  have hfits : (ofTransfer fileSize chunkSize bufferKb).Fits := ofTransfer_fits hchunk hfile hmax
  have hpos := hfits.count_pos
  set g := ofTransfer fileSize chunkSize bufferKb
  change (divUp g.totalChunks g.chunksPerIncrement - 1) * g.chunksPerIncrement < g.totalChunks at hbelow
  have hword : g.totalChunks < 2 ^ 32 := by
    have hmul : g.totalChunks - 1 ≤ (g.totalChunks - 1) * chunkSize := Nat.le_mul_of_pos_right _ hchunk
    have hlower : (g.totalChunks - 1) * chunkSize < fileSize := hlower
    omega
  -- more than 2 ^ 16 chunks are left for the last increment
  have hfar : g.totalIncrements + (2 ^ 16 - 1) ≤ divUp g.totalChunks g.chunksPerIncrement := truncOr_far hcount
  have hrest : (g.totalIncrements - 1) * g.chunksPerIncrement + (2 ^ 16 - 1) * g.chunksPerIncrement <
      g.totalChunks := by
    rw [← Nat.add_mul]
    exact (Nat.mul_le_mul_right _ (by omega)).trans_lt hbelow
  have hlast : g.chunksInLastIncrement < g.totalChunks - (g.totalIncrements - 1) * g.chunksPerIncrement := by
    have heq : g.chunksInLastIncrement = truncOr g.chunksPerIncrement
        (sub32 g.totalChunks ((g.totalIncrements - 1) * g.chunksPerIncrement)) := rfl
    rw [heq, sub32_of_le (by omega) hword]
    exact truncOr_lt (by omega) (by omega)
  rw [Finset.mem_biUnion]
  rintro ⟨k, hk, hmem⟩
  have hk := Finset.mem_range.mp hk
  have hend := (Finset.mem_Ico.mp hmem).2.trans_le (Nat.min_le_left _ _)
  unfold chunksInIncrement at hend
  split at hend
  next hle =>
    have hsame : k = g.totalIncrements - 1 := by omega
    rw [hsame] at hend
    omega
  next hmore =>
    have hmul := Nat.mul_le_mul_right g.chunksPerIncrement (Nat.le_sub_one_of_lt (Nat.not_le.mp hmore))
    rw [Nat.add_mul, Nat.one_mul] at hmul
    omega

end Geometry

/-! ## The two ends -/

variable {η : Type}

/-- Both ends have the same file, chunks and geometry; each sequence number is in one increment, and the
chunks make up the file. -/
structure Agreed (m : Manager) (r : Receiver η) : Prop where
  fileSize : m.fileSize = r.fileSize
  chunkSize : m.negotiatedChunkSize = r.chunkPayloadSize
  geometry : m.tracker.geometry = r.geometry
  disjoint : (Set.Iio r.geometry.totalIncrements).PairwiseDisjoint r.geometry.increment
  covers : (Finset.range r.geometry.totalIncrements).biUnion r.geometry.increment =
    Finset.range r.geometry.totalChunks
  lengths : ∀ sequence < r.geometry.totalChunks,
    1 ≤ r.geometry.expectedChunkLen r.fileSize r.chunkPayloadSize sequence ∧
      r.geometry.expectedChunkLen r.fileSize r.chunkPayloadSize sequence ≤ r.chunkPayloadSize
  sum : ∑ sequence ∈ Finset.range r.geometry.totalChunks,
    r.geometry.expectedChunkLen r.fileSize r.chunkPayloadSize sequence = r.fileSize

/-- The handler's answer to an `ANNOUNCE`, with the buffer size. -/
def handlerAnswer (H : ActionHandler η) (r : Receiver η) (a : Announce) : Option (AnnounceResponse × UInt16) :=
  (r.handlers a.action).map fun h =>
    (H.onAnnounce h a.fileSize a.md5 a.chunkSize a.action a.fileId (UInt16.ofNat maxIncrementKb)).2

/-- What a receiver has taken up. -/
structure Taken (r : Receiver η) (size chunk kb : Nat) : Prop where
  file_pos : 0 < size
  chunk_pos : 0 < chunk
  fileSize : r.fileSize = size
  chunkSize : r.chunkPayloadSize = chunk
  buffer : r.bufferSizeKb = kb
  geometry : r.geometry = Geometry.ofTransfer size chunk kb

section Sizes

variable {H : ActionHandler η} {e : FileReceiver.Env} {r : Receiver η} {a : Announce}

theorem beginTransfer_taken {chunkSize kb : Nat} (hfile : 0 < a.fileSize.toNat) (hchunk : 0 < chunkSize)
    (h : (r.beginTransfer (context H e) [] a chunkSize kb).1.state = .receiving) :
    Taken (r.beginTransfer (context H e) [] a chunkSize kb).1 a.fileSize.toNat chunkSize kb := by
  revert h
  unfold Receiver.beginTransfer
  dsimp only
  split
  · exact nofun
  · split
    · exact fun _ => ⟨hfile, hchunk, rfl, rfl, rfl, rfl⟩
    · exact nofun

/-- A receiver that takes up a transfer has the sizes from its handler. -/
theorem handleAnnounce_taken (hidle : r.state = .idle)
    (h : (r.handleAnnounce (context H e) [] a).1.state = .receiving) :
    ∃ response kb, handlerAnswer H r a = some (response, kb) ∧
      Taken (r.handleAnnounce (context H e) [] a).1 a.fileSize.toNat response.negotiatedChunkSize.toNat
        kb.toNat := by
  have hrefused (h : r.state = .receiving) : False := by
    rw [hidle] at h
    cases h
  generalize hy : r.handleAnnounce (context H e) [] a = y at h ⊢
  unfold Receiver.handleAnnounce at hy
  dsimp -iota -proj only at hy
  split_ifs at hy with h₁ h₂ h₃ h₄ h₅ h₆
  · exact (hrefused ((congrArg (·.1.state) hy).trans h)).elim
  · exact (hrefused ((congrArg (·.1.state) hy).trans h)).elim
  · exact (hrefused ((congrArg (·.1.state) hy).trans h)).elim
  · exact (hrefused ((congrArg (·.1.state) hy).trans h)).elim
  · exact (hrefused ((congrArg (·.1.state) hy).trans h)).elim
  · exact (hrefused ((congrArg (·.1.state) hy).trans h)).elim
  · have hfile : 0 < a.fileSize.toNat := by
      refine Nat.pos_of_ne_zero fun hzero => h₅ ?_
      have hzero : a.fileSize = 0 := UInt32.toNat_inj.mp hzero
      rw [hzero]
      rfl
    subst hy
    revert h
    split
    · exact fun h => (hrefused h).elim
    next g hg =>
      obtain ⟨g', response, kb, hann⟩ : ∃ g' response kb,
          H.onAnnounce g a.fileSize a.md5 a.chunkSize a.action a.fileId (UInt16.ofNat maxIncrementKb) =
            (g', response, kb) := ⟨_, _, _, rfl⟩
      have hanswer : handlerAnswer H r a = some (response, kb) := by
        rw [handlerAnswer, hg, Option.map_some, hann]
      rw [show (context H e).handler.onAnnounce g = H.onAnnounce g from rfl, hann]
      dsimp only
      split_ifs with _ hchunk
      · exact fun h => (hrefused h).elim
      · exact fun h => (hrefused h).elim
      · have hpos : 0 < response.negotiatedChunkSize.toNat := by
          refine Nat.pos_of_ne_zero fun hzero => hchunk ?_
          have hzero : response.negotiatedChunkSize = 0 := UInt16.toNat_inj.mp hzero
          rw [hzero]
          rfl
        exact fun h => ⟨response, kb, hanswer, beginTransfer_taken hfile hpos h⟩

end Sizes

namespace Lockstep.Opening

variable {o : Opening η} {H : ActionHandler η}

variable (o H) in
/-- The handler's answer to the `ANNOUNCE`. -/
def answer : Option (AnnounceResponse × UInt16) := handlerAnswer H o.receiver o.announce

/-- What the receiver has taken up, and how it says so. -/
theorem announced_taken (hidle : o.receiver.state = .idle) (hbusy : o.announcing.state ≠ .idle)
    (hrec : (o.announced H).1.state = .receiving) :
    ∃ response kb, o.answer H = some (response, kb) ∧
      Taken (o.announced H).1 o.offer.fileSize response.negotiatedChunkSize.toNat kb.toNat ∧
      ((o.announced H).2.getD 0 []).drop 6 = leEncode 2 response.negotiatedChunkSize.toNat ++
        [UInt8.ofNat kb.toNat, (o.announced H).1.action] := by
  obtain ⟨-, hoffer, hsize⟩ := announcing_core hbusy
  have hparse : o.announce.offer = o.offer :=
    hoffer ▸ parse_announcePayload (c := o.announcing.core) (hoffer ▸ hsize)
  obtain ⟨tx, b, hcall⟩ := announced_eq o H
  dsimp only at hcall
  set r : Receiver η := { o.receiver with
    announceTxCounter := tx, lastBlastCompleteTxCounter := b, lastActivityMs := o.env.now }
  have hanswer : o.answer H = handlerAnswer H r o.announce := rfl
  have hidle : r.state = .idle := hidle
  rw [hcall] at hrec ⊢
  obtain ⟨response, kb, hsome, htaken⟩ := handleAnnounce_taken hidle hrec
  obtain ⟨ack, hacks, hans⟩ :=
    handleAnnounce_answer (H := H) (e := ⟨o.env.now, o.env.ackSent⟩) r o.announce
  refine ⟨response, kb, hanswer.trans hsome, hparse ▸ htaken, ?_⟩
  cases hans with
  | reject _ hstate =>
    have hstate := hidle.symm.trans (hstate.symm.trans hrec)
    cases hstate
  | again _ _ hopen => exact absurd hidle hopen.1
  | begun _ _ _ _ ht =>
    obtain ⟨-, ht⟩ := ht hrec
    rw [htaken.chunkSize, htaken.buffer] at ht
    rw [hacks]
    exact ht

variable {response : AnnounceResponse} {kb : UInt16}

/-- The sizes that both ends work with. -/
structure Sizes (o : Opening η) (H : ActionHandler η) (chunk kb : Nat) : Prop where
  file_lt : o.offer.fileSize < 2 ^ 32
  fileSize : (o.opened H).manager.fileSize = o.offer.fileSize
  chunkSize : (o.opened H).manager.negotiatedChunkSize = chunk
  geometry : (o.opened H).manager.tracker.geometry =
    Geometry.ofTransfer o.offer.fileSize chunk (kb % 2 ^ 8)
  remote : Taken (o.opened H).receiver o.offer.fileSize chunk kb

theorem sizes (hidle : o.receiver.state = .idle) (hrec : (o.opened H).receiver.state = .receiving)
    (hblast : (o.opened H).manager.state = .blasting) (hanswer : o.answer H = some (response, kb)) :
    Sizes o H response.negotiatedChunkSize.toNat kb.toNat := by
  have hbusy := announcing_busy hblast
  obtain ⟨hann, hoffer, hsize⟩ := announcing_core hbusy
  obtain ⟨response', kb', hanswer', htaken, htrailing⟩ := announced_taken hidle hbusy hrec
  obtain ⟨rfl, rfl⟩ : response' = response ∧ kb' = kb := by
    rw [hanswer, Option.some.injEq, Prod.mk.injEq] at hanswer'
    exact ⟨hanswer'.1.symm, hanswer'.2.symm⟩
  -- the manager has taken the `ACCEPT`
  have haccept := o.announcing.onFileAck_accepted (e := o.env) [] o.announcing.leafMac
    (((o.announced H).2.getD 0 []).getD 0 0) (ackResult ((o.announced H).2.getD 0 []))
    (ackRef ((o.announced H).2.getD 0 [])) (((o.announced H).2.getD 0 []).drop 6) hann hblast
  have hm : (o.opened H).manager = _ := congrArg Prod.fst haccept
  rw [hm] at hblast
  obtain ⟨hcore, -, hsame, -⟩ := Manager.handleAccept_blasting (e := o.env) _ [] hblast
  rw [← hm] at hcore hsame
  have hfileSize : (o.opened H).manager.fileSize = o.announcing.core.offer.fileSize :=
    congrArg (fun c => c.offer.fileSize) hcore
  have hgeometry : (o.opened H).manager.tracker.geometry =
      o.announcing.core.negotiated (((o.announced H).2.getD 0 []).drop 6) :=
    congrArg Core.geometry hcore
  have hsmall : leDecode ((((o.announced H).2.getD 0 []).drop 6).take 2) =
      response'.negotiatedChunkSize.toNat := by
    rw [htrailing, List.take_left' (length_leEncode _ _), leDecode_leEncode]
    exact Nat.mod_eq_of_lt (UInt16.toNat_lt _)
  have hbyte : ((((o.announced H).2.getD 0 []).drop 6).getD 2 0).toNat = kb'.toNat % 2 ^ 8 := by
    rw [htrailing, List.getD_append_right _ _ _ _ (by simp)]
    simp
  rw [Core.negotiated, hsmall, hbyte, hoffer] at hgeometry
  exact ⟨hsize, hfileSize.trans (congrArg Offer.fileSize hoffer), hsame.trans hsmall, hgeometry, htaken⟩

/-- The buffer size that the bridge sees stands for as many chunks, and the number of increments fits its
field. -/
def Fitting (o : Opening η) (chunkSize kb : Nat) : Prop :=
  Geometry.capacity chunkSize (kb % 2 ^ 8) = Geometry.capacity chunkSize kb ∧
    Geometry.incrementCount o.offer.fileSize chunkSize kb < 2 ^ 16

theorem Sizes.agreed {chunk kb : Nat} (h : Sizes o H chunk kb) (hfit : Fitting o chunk kb) :
    Agreed (o.opened H).manager (o.opened H).receiver := by
  obtain ⟨hfile, hchunk, hremoteFile, hremoteChunk, -, hremote⟩ := h.remote
  have hsound := Geometry.ofTransfer_spec hchunk hfile h.file_lt hfit.2
  have hsame := h.geometry.trans ((Geometry.ofTransfer_congr hfit.1).trans hremote.symm)
  rw [← hremote, ← hremoteFile, ← hremoteChunk] at hsound
  exact {
    fileSize := h.fileSize.trans hremoteFile.symm
    chunkSize := h.chunkSize.trans hremoteChunk.symm
    geometry := hsame
    disjoint := hsound.disjoint
    covers := hsound.covers
    lengths := fun _ hs => hsound.expectedChunkLen_bounds hs
    sum := hsound.sum_expectedChunkLen }

theorem Sizes.fitting {chunk kb : Nat} (h : Sizes o H chunk kb)
    (hagreed : Agreed (o.opened H).manager (o.opened H).receiver) : Fitting o chunk kb := by
  obtain ⟨hfile, hchunk, -, -, -, hremote⟩ := h.remote
  constructor
  · have hsame := congrArg Geometry.chunksPerIncrement hagreed.geometry
    rw [h.geometry, hremote] at hsame
    rw [← Geometry.chunksPerIncrement_ofTransfer o.offer.fileSize chunk (kb % 2 ^ 8), hsame,
      Geometry.chunksPerIncrement_ofTransfer]
  · by_contra hcount
    have hlast := Geometry.last_uncovered hchunk hfile h.file_lt (Nat.not_lt.mp hcount)
    have hcovers := hagreed.covers
    have hpos := (Geometry.divUp_bounds hchunk hfile).2.2
    rw [hremote] at hcovers
    rw [hcovers, Finset.mem_range] at hlast
    exact hlast (Nat.sub_lt hpos Nat.one_pos)

/-- Both ends compute their geometry on the fields' types, and agree on the chunks of the file if
and only if the sizes fit: the byte of the `ACCEPT` stands for as many chunks an increment as the
buffer has, and the number of increments for 16 bits. -/
theorem geometry_agreed (hidle : o.receiver.state = .idle)
    (hrec : (o.opened H).receiver.state = .receiving) (hblast : (o.opened H).manager.state = .blasting)
    (hanswer : o.answer H = some (response, kb)) :
    (o.opened H).manager.tracker.geometry = (Geometry.Fields.acceptGeometry
        (UInt32.ofNat o.offer.fileSize) response.negotiatedChunkSize kb.toUInt8).values ∧
      (o.opened H).receiver.geometry = (Geometry.Fields.computeIncrementGeometry
        (UInt32.ofNat o.offer.fileSize) response.negotiatedChunkSize kb).values ∧
      (Agreed (o.opened H).manager (o.opened H).receiver ↔
        Fitting o response.negotiatedChunkSize.toNat kb.toNat) := by
  have hsizes := sizes hidle hrec hblast hanswer
  have hfile : (UInt32.ofNat o.offer.fileSize).toNat = o.offer.fileSize :=
    UInt32.toNat_ofNat_of_lt' hsizes.file_lt
  refine ⟨?_, ?_, hsizes.fitting, hsizes.agreed⟩
  · rw [hsizes.geometry, Geometry.Fields.acceptGeometry, Geometry.Fields.values_compute, hfile]
    simp
  · rw [hsizes.remote.geometry, Geometry.Fields.computeIncrementGeometry,
      Geometry.Fields.values_compute, hfile]

/-- Both ends of a small file, cut into two increments, agree. -/
theorem geometry_agreed_smallOpening :
    Agreed (smallOpening.opened smallSink).manager (smallOpening.opened smallSink).receiver := by
  have hanswer : smallOpening.answer smallSink = some (⟨true, 0, 221⟩, 1) := rfl
  have h := geometry_agreed smallOpening_accepted.idle smallOpening_accepted.receiving
    smallOpening_accepted.blasting hanswer
  refine h.2.2.mpr ⟨?_, ?_⟩
  · decide
  · decide

/-- A gigabyte in chunks of 221 bytes, 37 of them to an increment. -/
def largeOpening : Opening Unit :=
  { smallOpening with offer := ⟨2 ^ 30, Octets.zero 16, 2, Octets.zero 12⟩ }

/-- It has 131313 increments. -/
theorem not_agreed_largeOpening :
    (largeOpening.opened sink).receiver.state = .receiving ∧
      (largeOpening.opened sink).manager.state = .blasting ∧
      (largeOpening.opened sink).receiver.geometry.totalIncrements = 241 ∧
      ¬ Agreed (largeOpening.opened sink).manager (largeOpening.opened sink).receiver := by
  have hanswer : largeOpening.answer sink = some (⟨true, 0, 221⟩, 8) := rfl
  have hrec : (largeOpening.opened sink).receiver.state = .receiving := by decide +kernel
  have hblast : (largeOpening.opened sink).manager.state = .blasting := by decide +kernel
  have hsizes := sizes rfl hrec hblast hanswer
  refine ⟨hrec, hblast, ?_, fun hagreed => ?_⟩
  · rw [hsizes.remote.geometry]
    decide
  · have hcount := (hsizes.fitting hagreed).2
    revert hcount
    decide

end Lockstep.Opening

end EspTree
