import EspTree.File.Increments
import EspTree.File.OtaFlash
import EspTree.File.Replies

/-!
# The second pass over an increment

When the handler refuses a chunk, `write_increment_to_flash_` starts once more, at the first chunk of the
increment.  The handler has no use for the sequence numbers and appends what it takes, so the chunks
before the refused one are written twice.

`written_once_iff` is about any handler that appends what it takes and is left alone by a refused call, and
about any pattern of refusals.

`Appends` is what is asked of a handler: a call that it takes puts the chunk behind what it has, and
a call that it refuses leaves that alone.  `takenBefore` counts how many chunks of a pass it takes
before it refuses one.

The content after both passes is the chunks that the first one got through and then those of the
second.  When the write goes on, it is what it should be if and only if the first pass was refused at
its first chunk or not at all, since a chunk that was taken before the refusal is there twice.
-/

namespace EspTree

open Wire

namespace FileReceiver

variable {η : Type}

/-! ## Handlers that append -/

/-- An accepted call appends its bytes and a refused call changes nothing.  `fed` is what the running MD5
was fed with, and `total` is `total_written_`. -/
structure Appends (H : ActionHandler η) (fed : η → Bytes) (total : η → UInt32) : Prop where
  accepted : ∀ h sequence data, (H.onData h sequence data).2 = true →
    fed (H.onData h sequence data).1 = fed h ++ data ∧
      total (H.onData h sequence data).1 = total h + UInt32.ofNat data.length
  refused : ∀ h sequence data, (H.onData h sequence data).2 = false →
    fed (H.onData h sequence data).1 = fed h ∧ total (H.onData h sequence data).1 = total h

/-- The handler for updates is one, whatever the chip does. -/
theorem otaFlash_appends (chip : Chip) : Appends (otaFlash chip) OtaFlash.fed OtaFlash.totalWritten where
  accepted h sequence data hacc := by
    change (h.onData chip sequence data).2 = true at hacc
    change (h.onData chip sequence data).1.fed = _ ∧ (h.onData chip sequence data).1.totalWritten = _
    revert hacc
    unfold OtaFlash.onData
    dsimp only
    split_ifs
    · exact nofun
    · exact nofun
    · exact nofun
    · exact nofun
    · exact fun _ => ⟨rfl, rfl⟩
  refused h sequence data href := by
    change (h.onData chip sequence data).2 = false at href
    change (h.onData chip sequence data).1.fed = _ ∧ (h.onData chip sequence data).1.totalWritten = _
    revert href
    unfold OtaFlash.onData
    dsimp only
    split_ifs
    · exact fun _ => ⟨rfl, rfl⟩
    · exact fun _ => ⟨rfl, rfl⟩
    · exact fun _ => ⟨rfl, rfl⟩
    · exact fun _ => ⟨rfl, rfl⟩
    · exact nofun

/-- How many of the slices the handler takes before it refuses one. -/
def takenBefore (H : ActionHandler η) : η → List (Nat × Bytes) → Nat
  | _, [] => 0
  | h, (sequence, data) :: rest =>
    let (h, accepted) := H.onData h sequence data
    if accepted then takenBefore H h rest + 1 else 0

/-- The slices of the accepted calls. -/
def taken (calls : List DataCall) : List (Nat × Bytes) :=
  (calls.filter (·.accepted)).map fun d => (d.sequence, d.data)

/-- What was taken in two passes is what was taken in the first and then in the second. -/
theorem taken_append (calls calls' : List DataCall) : taken (calls ++ calls') = taken calls ++ taken calls' := by
  simp [taken]

/-- No more can be taken than there is. -/
theorem takenBefore_le (H : ActionHandler η) (h : η) (slices : List (Nat × Bytes)) :
    takenBefore H h slices ≤ slices.length := by
  induction slices generalizing h with
  | nil => exact le_rfl
  | cons slice rest ih =>
    rw [takenBefore]
    dsimp only
    split
    · exact Nat.succ_le_succ (ih _)
    · exact Nat.zero_le _

/-- The bytes of the slices. -/
def bytesOf (slices : List (Nat × Bytes)) : Bytes := slices.flatMap (·.2)

/-- A pass takes the slices before the first refusal. -/
theorem flashPass_taken {H : ActionHandler η} {fed : η → Bytes} {total : η → UInt32}
    (hH : Appends H fed total) (h : η) (log : List DataCall) (slices : List (Nat × Bytes)) :
    ∃ h' calls, flashPass (recording H) (h, log) slices =
        ((h', log ++ calls), decide (takenBefore H h slices = slices.length)) ∧
      taken calls = slices.take (takenBefore H h slices) ∧ fed h' = fed h ++ bytesOf (taken calls) ∧
      total h' = total h + UInt32.ofNat (bytesOf (taken calls)).length := by
  induction slices generalizing h log with
  | nil => exact ⟨h, [], by simp [flashPass, takenBefore], rfl, by simp [taken, bytesOf], by simp [taken, bytesOf]⟩
  | cons slice rest ih =>
    obtain ⟨sequence, data⟩ := slice
    rw [takenBefore]
    rcases hd : H.onData h sequence data with ⟨h₁, accepted⟩
    cases accepted with
    | false =>
      obtain ⟨hfed, htotal⟩ := hH.refused h sequence data (by rw [hd])
      rw [hd] at hfed htotal
      refine ⟨h₁, [⟨sequence, data, false⟩], ?_, by simp [taken], ?_, ?_⟩
      · simp [flashPass, recording, hd]
      · simpa [taken, bytesOf] using hfed
      · simpa [taken, bytesOf] using htotal
    | true =>
      obtain ⟨hfed, htotal⟩ := hH.accepted h sequence data (by rw [hd])
      rw [hd] at hfed htotal
      obtain ⟨h', calls, hpass, hcalls, hfed', htotal'⟩ := ih h₁ (log ++ [⟨sequence, data, true⟩])
      have htaken : taken (⟨sequence, data, true⟩ :: calls) = (sequence, data) :: taken calls := by
        simp [taken]
      refine ⟨h', ⟨sequence, data, true⟩ :: calls, ?_, ?_, ?_, ?_⟩
      · rw [flashPass]
        simp only [recording, hd, if_true, List.length_cons, Nat.add_right_cancel_iff]
        simpa [recording] using hpass
      · rw [htaken, hcalls]
        exact (List.take_succ_cons).symm
      · rw [htaken, hfed', hfed, bytesOf, bytesOf, List.flatMap_cons, List.append_assoc]
      · rw [htaken, htotal', htotal, bytesOf, bytesOf, List.flatMap_cons, List.length_append,
          UInt32.ofNat_add, UInt32.add_assoc]

/-! ## The chunks of an increment -/

namespace Receiver

/-- Where the current increment begins in the file. -/
def incrementOffset (r : Receiver η) : Nat :=
  r.currentIncrement * r.geometry.chunksPerIncrement * r.chunkPayloadSize

/-- The chunks of the current increment, each with its sequence number. -/
def incrementChunks (r : Receiver η) : List (Nat × Bytes) :=
  (List.range (r.geometry.chunksInIncrement r.currentIncrement)).map fun i =>
    let sequence := r.currentIncrement * r.geometry.chunksPerIncrement + i
    (sequence, slice r.incrementBuf.data (i * r.chunkPayloadSize)
      (r.geometry.expectedChunkLen r.fileSize r.chunkPayloadSize sequence))

/-- The bytes of the current increment. -/
def incrementBytes (r : Receiver η) : Bytes :=
  r.incrementBuf.data.take (min (r.geometry.chunksInIncrement r.currentIncrement * r.chunkPayloadSize)
    (r.fileSize - r.incrementOffset))

end Receiver

section Chunks

variable {r : Receiver η}

/-- Every chunk of the increment begins within the file. -/
theorem Collecting.offset_lt (hr : Collecting r) (hfile : 0 < r.fileSize) (hmax : r.fileSize < 2 ^ 32) {i : Nat}
    (hi : i < r.geometry.chunksInIncrement r.currentIncrement) :
    r.currentIncrement * r.geometry.chunksPerIncrement + i < r.geometry.totalChunks ∧
      r.incrementOffset + i * r.chunkPayloadSize < r.fileSize := by
  have hfits : r.geometry.Fits := by
    rw [hr.geometry]
    exact Geometry.ofTransfer_fits hr.chunk_pos hfile hmax
  have hwithin := hfits.within r.currentIncrement hr.more
  have hlower : (r.geometry.totalChunks - 1) * r.chunkPayloadSize < r.fileSize := by
    rw [hr.geometry]
    exact (Geometry.divUp_bounds hr.chunk_pos hfile).1
  refine ⟨by omega, ?_⟩
  rw [Receiver.incrementOffset, ← Nat.add_mul]
  exact (Nat.mul_le_mul_right _ (by omega)).trans_lt hlower

/-- The length that the receiver expects of a chunk is its length in the file. -/
theorem Collecting.expectedChunkLen_eq (hr : Collecting r) (hfile : 0 < r.fileSize) (hmax : r.fileSize < 2 ^ 32)
    {i : Nat} (hi : i < r.geometry.chunksInIncrement r.currentIncrement) :
    r.geometry.expectedChunkLen r.fileSize r.chunkPayloadSize
        (r.currentIncrement * r.geometry.chunksPerIncrement + i) =
      min (r.fileSize - (r.incrementOffset + i * r.chunkPayloadSize)) r.chunkPayloadSize := by
  obtain ⟨htotal, hoffset⟩ := hr.offset_lt hfile hmax hi
  have hpos := hr.chunk_pos
  rw [Receiver.incrementOffset, ← Nat.add_mul] at hoffset
  rw [Geometry.expectedChunkLen, if_neg (by omega), if_neg (by omega), Receiver.incrementOffset, ← Nat.add_mul]

/-- Only the last chunk of an increment can be shorter. -/
theorem Collecting.sliceLen_eq (hr : Collecting r) (hfile : 0 < r.fileSize) (hmax : r.fileSize < 2 ^ 32) {i : Nat}
    (hi : i < r.geometry.chunksInIncrement r.currentIncrement) :
    r.sliceLen (r.geometry.chunksInIncrement r.currentIncrement) i =
      r.geometry.expectedChunkLen r.fileSize r.chunkPayloadSize
        (r.currentIncrement * r.geometry.chunksPerIncrement + i) := by
  have hbegin : r.currentIncrement * r.geometry.chunksPerIncrement * r.chunkPayloadSize =
      r.incrementOffset := rfl
  obtain ⟨-, hoffset⟩ := hr.offset_lt hfile hmax hi
  rw [hr.expectedChunkLen_eq hfile hmax hi, Receiver.sliceLen, hbegin]
  dsimp only
  split
  next hlast => split <;> omega
  next hmore =>
    -- the next chunk begins within the file, too
    obtain ⟨-, hnext⟩ := hr.offset_lt hfile hmax (i := i + 1) (by omega)
    rw [Nat.succ_mul] at hnext
    omega

/-- The write loop visits the chunks of the increment. -/
theorem Collecting.incrementSlices_eq (hr : Collecting r) (hfile : 0 < r.fileSize) (hmax : r.fileSize < 2 ^ 32) :
    r.incrementSlices (r.geometry.chunksInIncrement r.currentIncrement)
      (r.geometry.chunksInIncrement r.currentIncrement) 0 = r.incrementChunks := by
  have hfrom (remaining : Nat) : ∀ i, i + remaining = r.geometry.chunksInIncrement r.currentIncrement →
      r.incrementSlices (r.geometry.chunksInIncrement r.currentIncrement) remaining i =
        (List.range' i remaining).map fun i =>
          let sequence := r.currentIncrement * r.geometry.chunksPerIncrement + i
          (sequence, slice r.incrementBuf.data (i * r.chunkPayloadSize)
            (r.geometry.expectedChunkLen r.fileSize r.chunkPayloadSize sequence)) := by
    induction remaining with
    | zero => exact fun _ _ => rfl
    | succ remaining ih =>
      intro i hi
      have hlen := hr.sliceLen_eq hfile hmax (i := i) (by omega)
      have hexp := hr.expectedChunkLen_eq hfile hmax (i := i) (by omega)
      obtain ⟨-, hoffset⟩ := hr.offset_lt hfile hmax (i := i) (by omega)
      have hpos := hr.chunk_pos
      have hroom : i * r.chunkPayloadSize + r.chunkPayloadSize ≤ r.incrementBuf.data.length := by
        rw [hr.data_length, ← Nat.succ_mul]
        exact Nat.mul_le_mul_right _ (by omega)
      rw [Receiver.incrementSlices, List.range'_succ, List.map_cons, ← ih (i + 1) (by omega), hlen]
      dsimp only
      rw [if_neg (by omega)]
  rw [hfrom _ 0 (Nat.zero_add _), ← List.range_eq_range']
  rfl

/-- The chunks of the increment make up its bytes. -/
theorem Collecting.bytesOf_incrementChunks (hr : Collecting r) (hfile : 0 < r.fileSize)
    (hmax : r.fileSize < 2 ^ 32) : bytesOf r.incrementChunks = r.incrementBytes := by
  have hfrom (n : Nat) : n ≤ r.geometry.chunksInIncrement r.currentIncrement →
      ((List.range n).map fun i =>
        let sequence := r.currentIncrement * r.geometry.chunksPerIncrement + i
        (sequence, slice r.incrementBuf.data (i * r.chunkPayloadSize)
          (r.geometry.expectedChunkLen r.fileSize r.chunkPayloadSize sequence))).flatMap (·.2) =
      r.incrementBuf.data.take (min (n * r.chunkPayloadSize) (r.fileSize - r.incrementOffset)) := by
    induction n with
    | zero => exact fun _ => by simp
    | succ n ih =>
      intro hn
      have hexp := hr.expectedChunkLen_eq hfile hmax (i := n) (by omega)
      obtain ⟨-, hoffset⟩ := hr.offset_lt hfile hmax (i := n) (by omega)
      rw [List.range_succ, List.map_append, List.flatMap_append, ih (by omega), Nat.succ_mul,
        min_eq_left (by omega), List.map_singleton, List.flatMap_singleton]
      dsimp only
      rw [hexp, slice, ← List.take_add]
      congr 1
      omega
  exact hfrom _ le_rfl

end Chunks

/-! ## Written once -/

/-- The calls of `on_data` that were accepted wrote the increment, each chunk once and in order.  So the
running MD5 and `total_written_`, if they stood at the beginning of the increment, stand at its end. -/
structure WrittenOnce (fed : η → Bytes) (total : η → UInt32) {ι : Type} (r : Receiver ι) (h h' : η)
    (calls : List DataCall) : Prop where
  chunks : taken calls = r.incrementChunks
  bytes : bytesOf (taken calls) = r.incrementBytes
  digest : fed h' = fed h ++ r.incrementBytes
  written : total h' = total h + UInt32.ofNat r.incrementBytes.length
  filePrefix : ∀ file : Bytes, fed h = file.take r.incrementOffset →
    r.incrementBytes = slice file r.incrementOffset r.incrementBytes.length →
    fed h' = file.take (r.incrementOffset + r.incrementBytes.length)

section Written

variable {H : ActionHandler η} {fed : η → Bytes} {total : η → UInt32} {e : Env}
  {r : Receiver (η × List DataCall)} {a : UInt8} {h h' : η} {log calls : List DataCall}

/-- A handler that has taken the chunks of the increment once has its bytes once. -/
theorem WrittenOnce.of_taken (hr : Collecting r) (hfile : 0 < r.fileSize) (hmax : r.fileSize < 2 ^ 32)
    (hcalls : taken calls = r.incrementChunks) (hfed : fed h' = fed h ++ bytesOf (taken calls))
    (htotal : total h' = total h + UInt32.ofNat (bytesOf (taken calls)).length) :
    WrittenOnce fed total r h h' calls := by
  have hbytes : bytesOf (taken calls) = r.incrementBytes := by
    rw [hcalls, hr.bytesOf_incrementChunks hfile hmax]
  rw [hbytes] at hfed htotal
  refine ⟨hcalls, hbytes, hfed, htotal, fun file hbefore hslice => ?_⟩
  rw [hfed, hbefore, List.take_add]
  exact congrArg (file.take r.incrementOffset ++ ·) hslice

/-- What the two passes write. -/
theorem writeIncrementToFlash_taken (hH : Appends H fed total) (hr : Collecting r) (hfile : 0 < r.fileSize)
    (hmax : r.fileSize < 2 ^ 32) (ha : r.activeHandler = some a) (hh : r.handlers a = some (h, log))
    (acks : List Bytes)
    (hgo : (r.writeIncrementToFlash (context (recording H) e) acks).1.state ≠ .idle) :
    ∃ h' calls, (r.writeIncrementToFlash (context (recording H) e) acks).1.handlers a = some (h', log ++ calls) ∧
      fed h' = fed h ++ bytesOf (taken calls) ∧
      total h' = total h + UInt32.ofNat (bytesOf (taken calls)).length ∧
      taken calls = (if takenBefore H h r.incrementChunks = r.incrementChunks.length then []
        else r.incrementChunks.take (takenBefore H h r.incrementChunks)) ++ r.incrementChunks := by
  have hact : r.active? = some (h, log) := by rw [Receiver.active?, ha]; exact hh
  revert hgo
  unfold Receiver.writeIncrementToFlash
  rw [ha, hact]
  dsimp only
  rw [if_neg (by simp [hr.data_ne_nil]), hr.incrementSlices_eq hfile hmax,
    show (context (recording H) e).handler = recording H from rfl]
  obtain ⟨h₁, calls₁, hpass₁, htaken₁, hfed₁, htotal₁⟩ := flashPass_taken hH h log r.incrementChunks
  obtain ⟨h₂, calls₂, hpass₂, htaken₂, hfed₂, htotal₂⟩ :=
    flashPass_taken hH h₁ (log ++ calls₁) r.incrementChunks
  have hset (h' : η) (calls : List DataCall) :
      ((r.setHandler a (h', calls)).finishIncrement (context (recording H) e) acks).1.handlers a =
        some (h', calls) := by
    rw [Transfer.finishIncrement_handlers]
    exact Function.update_self ..
  rw [hpass₁]
  dsimp only
  by_cases hfirst : takenBefore H h r.incrementChunks = r.incrementChunks.length
  · rw [if_pos (decide_eq_true hfirst), if_pos hfirst]
    intro _
    refine ⟨h₁, calls₁, hset _ _, hfed₁, htotal₁, ?_⟩
    rw [htaken₁, hfirst, List.take_length, List.nil_append]
  · rw [if_neg (by simpa using hfirst), if_neg hfirst, hpass₂]
    dsimp only
    by_cases hsecond : takenBefore H h₁ r.incrementChunks = r.incrementChunks.length
    · -- the second pass goes through, from the first chunk
      rw [if_pos (decide_eq_true hsecond)]
      intro _
      refine ⟨h₂, calls₁ ++ calls₂, ?_, ?_, ?_, ?_⟩
      · rw [hset, List.append_assoc]
      · rw [hfed₂, hfed₁, taken_append, bytesOf, bytesOf, bytesOf, List.flatMap_append, List.append_assoc]
      · rw [htotal₂, htotal₁, taken_append, bytesOf, bytesOf, bytesOf, List.flatMap_append,
          List.length_append, UInt32.ofNat_add, UInt32.add_assoc]
      · rw [taken_append, htaken₁, htaken₂, hsecond, List.take_length]
    · rw [if_neg (by simpa using hsecond)]
      exact fun hgo => absurd rfl hgo

/-- When the write goes on, the increment has been written once if and only if the first chunk that
the handler refused, if there is one, is the first chunk of the increment.  The second pass starts
again from there, whatever the first one has written. -/
theorem written_once_iff (hH : Appends H fed total) (hr : Collecting r) (hfile : 0 < r.fileSize)
    (hmax : r.fileSize < 2 ^ 32) (ha : r.activeHandler = some a) (hh : r.handlers a = some (h, log))
    (acks : List Bytes)
    (hgo : (r.writeIncrementToFlash (context (recording H) e) acks).1.state ≠ .idle) :
    ∃ h' calls, (r.writeIncrementToFlash (context (recording H) e) acks).1.handlers a = some (h', log ++ calls) ∧
      (WrittenOnce fed total r h h' calls ↔ takenBefore H h r.incrementChunks = 0 ∨
        takenBefore H h r.incrementChunks = r.incrementChunks.length) := by
  obtain ⟨h', calls, hset, hfed, htotal, htaken⟩ :=
    writeIncrementToFlash_taken hH hr hfile hmax ha hh acks hgo
  refine ⟨h', calls, hset, fun hwritten => ?_, fun hcond => ?_⟩
  · have hle := takenBefore_le H h r.incrementChunks
    by_cases hall : takenBefore H h r.incrementChunks = r.incrementChunks.length
    · exact .inr hall
    · have hlength := congrArg List.length (htaken.symm.trans hwritten.chunks)
      rw [if_neg hall, List.length_append, List.length_take] at hlength
      omega
  · refine .of_taken hr hfile hmax ?_ hfed htotal
    rw [htaken]
    rcases hcond with hzero | hall
    · rw [hzero, List.take_zero, ite_self, List.nil_append]
    · rw [if_pos hall, List.nil_append]

end Written

/-! ### An image of two chunks -/

/-- A chip with these outcomes of `esp_ota_write`. -/
def plainChip (writes : Nat → Bool) : Chip where
  partitionSize := some (2 ^ 20)
  begins := true
  largestFree := 2 ^ 16
  writes := writes
  ends := true
  setsBoot := true
  md5 _ := Octets.zero 16

/-- The receiver has both chunks of an image of 128 bytes, and is about to write them. -/
def twoChunks : Receiver (OtaFlash × List DataCall) :=
  let x := context (recording (otaFlash (plainChip fun _ => true))) ⟨1000, fun _ => true⟩
  let r : Receiver (OtaFlash × List DataCall) :=
    { handlers := fun a => if a == actionOtaFlash then some ({}, []) else none, otaEnabled := true }
  let r := (r.handleFileTransfer x [] (0x00 :: (leEncode 4 128 ++ List.replicate 16 0 ++ leEncode 2 64 ++
    [actionOtaFlash] ++ List.replicate 12 0))).1
  let r := (r.handleFileData x (leEncode 4 0 ++ espImageMagic :: List.replicate 63 1)).1
  let r := (r.handleFileData x (leEncode 4 1 ++ List.replicate 64 2)).1
  { r with state := .writing }

/-- Its handler. -/
def begun : OtaFlash := { state := .receiving, fileSize := 128, md5Active := true }

/-- The receiver after the write in which the call `n` of `esp_ota_write` fails. -/
def written (n : Nat) : Receiver (OtaFlash × List DataCall) :=
  (twoChunks.writeIncrementToFlash
    (context (recording (otaFlash (plainChip (· != n)))) ⟨1000, fun _ => true⟩) []).1

theorem collecting_twoChunks : Collecting twoChunks where
  off := by decide +kernel
  active := ⟨actionOtaFlash, (begun, []), by decide +kernel, by decide +kernel⟩
  chunk_pos := by decide +kernel
  geometry := by decide +kernel
  more := by decide +kernel
  unwritten := by decide +kernel
  round_le := by decide +kernel
  counted := ⟨by decide +kernel, by decide +kernel, by decide +kernel⟩
  data_length := by decide +kernel

theorem handler_twoChunks : twoChunks.handlers actionOtaFlash = some (begun, []) := by decide +kernel

theorem fileSize_twoChunks : twoChunks.fileSize = 128 := by decide +kernel

/-- When the first call fails, the second pass writes the image once. -/
theorem written_once_firstFailed : ∃ h' calls, (written 0).handlers actionOtaFlash = some (h', calls) ∧
    WrittenOnce OtaFlash.fed OtaFlash.totalWritten twoChunks begun h' calls := by
  have hgo : (written 0).state ≠ .idle := by decide +kernel
  rw [written] at hgo ⊢
  obtain ⟨h', calls, hset, hiff⟩ := written_once_iff (h := begun) (e := ⟨1000, fun _ => true⟩)
    (otaFlash_appends (plainChip (· != 0))) collecting_twoChunks (by rw [fileSize_twoChunks]; decide)
    (by rw [fileSize_twoChunks]; decide)
    (a := actionOtaFlash) (by decide +kernel) handler_twoChunks [] hgo
  exact ⟨h', calls, hset, hiff.mpr (.inl (by decide +kernel))⟩

/-- When the second call fails, the first chunk is written twice. -/
theorem not_written_once_secondFailed : (written 1).state = .waitingEnd ∧
    ∃ h' calls, (written 1).handlers actionOtaFlash = some (h', calls) ∧ h'.totalWritten = 192 ∧
      ¬ WrittenOnce OtaFlash.fed OtaFlash.totalWritten twoChunks begun h' calls := by
  have hend : (written 1).state = .waitingEnd := by decide +kernel
  have hgo : (written 1).state ≠ .idle := by rw [hend]; decide
  rw [written] at hgo
  obtain ⟨h', calls, hset, -, -, htaken⟩ := writeIncrementToFlash_taken (h := begun) (e := ⟨1000, fun _ => true⟩)
    (otaFlash_appends (plainChip (· != 1))) collecting_twoChunks (by rw [fileSize_twoChunks]; decide)
    (by rw [fileSize_twoChunks]; decide)
    (a := actionOtaFlash) (by decide +kernel) handler_twoChunks [] hgo
  rw [← written] at hset
  refine ⟨hend, h', calls, hset, ?_, fun hwritten => ?_⟩
  · have htotal : ((written 1).handlers actionOtaFlash).map (·.1.totalWritten) = some 192 := by decide +kernel
    rw [hset] at htotal
    exact Option.some.inj htotal
  · have hlength := congrArg List.length (htaken.symm.trans hwritten.chunks)
    revert hlength
    decide +kernel

end FileReceiver

end EspTree
