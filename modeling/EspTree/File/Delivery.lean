import EspTree.File.Transfer

/-!
# What the receiver flashes

The safety of one transfer: whatever the radio does with the frames, the slices that the
receiver hands to its handler are the chunks of the file, each once and in order, an
increment at a time; and the receiver waits for `END` only when it has handed over the
whole file.

The argument has two halves that meet in `Joint`.  On the bridge, every `FILE_DATA` frame
ever sent carries a chunk of the file at its sequence number (`ManagerHolds`).  On the
leaf, the increment buffer holds the file's chunks at the bits that are set, and the log
of the handler is the list of all chunks before the current increment
(`ReceiverHolds`).  A late frame of another increment is outside the current window, and
a duplicate meets a set bit, so neither half depends on the order of delivery.
-/

namespace EspTree

open Wire FileReceiver OtaManager

namespace Transfer

variable {η : Type}

/-! ## Chunks of a file -/

section Chunks

variable {file : Bytes} {c : Nat}

/-- All chunks of a file have the same length but for the last, and beyond it there are none. -/
theorem length_chunk (s : Nat) : (chunk file c s).length = min c (file.length - s * c) := by
  simp [chunk, slice]

/-- The chunks of a file, in order, are the file. -/
theorem flatMap_chunk (n : Nat) :
    (List.range n).flatMap (chunk file c) = file.take (n * c) := flatMap_slice file n c

end Chunks

/-! ## Recorded passes -/

/-- The calls of a pass, as the handler saw them. -/
def asSlices (calls : List DataCall) : List (Nat × Bytes) :=
  calls.map fun d => (d.sequence, d.data)

/-- A pass appends its calls to the log; if all of them are accepted, they are all the
slices and the pass succeeds. -/
theorem flashPass_recording (H : ActionHandler η) (h : η) (log : List DataCall)
    (slices : List (Nat × Bytes)) :
    ∃ h' calls ok, flashPass (recording H) (h, log) slices = ((h', log ++ calls), ok) ∧
      ((∀ d ∈ calls, d.accepted) → ok = true ∧ asSlices calls = slices) ∧
      (ok = false → ∃ d ∈ calls, d.accepted = false) := by
  induction slices generalizing h log with
  | nil => exact ⟨h, [], true, by simp [flashPass], by simp [asSlices], by simp⟩
  | cons slice rest ih =>
    obtain ⟨sequence, data⟩ := slice
    rcases hd : H.onData h sequence data with ⟨h₁, accepted⟩
    cases accepted with
    | false =>
      refine ⟨h₁, [⟨sequence, data, false⟩], false, ?_, by simp, by simp⟩
      simp [flashPass, recording, hd]
    | true =>
      obtain ⟨h', calls, ok, heq, hall, hfail⟩ := ih h₁ (log ++ [⟨sequence, data, true⟩])
      refine ⟨h', ⟨sequence, data, true⟩ :: calls, ok, ?_, ?_, ?_⟩
      · rw [flashPass]
        simp only [recording, hd, if_true]
        simpa [recording] using heq
      · intro hacc
        obtain ⟨hok, hs⟩ := hall fun d hd => hacc d (List.mem_cons_of_mem _ hd)
        exact ⟨hok, by simpa [asSlices] using hs⟩
      · intro hok
        obtain ⟨d, hd, hda⟩ := hfail hok
        exact ⟨d, List.mem_cons_of_mem _ hd, hda⟩

/-! ## The increment buffer -/

/-- The buffer of an increment of `n` chunks that starts at sequence number `first` holds
the file's bytes wherever a bit is set. -/
structure BufferHolds (file : Bytes) (c first n : Nat) (buf : IncrementBuffer) : Prop where
  data_length : buf.data.length = n * c
  bitmap_length : buf.receivedBitmap.length = (n + 7) / 8
  expected : buf.chunksExpected = n
  received : buf.chunksReceived =
    ((Finset.range n).filter fun i => buf.isChunkReceived i = true).card
  holds : ∀ i < n, buf.isChunkReceived i = true →
    slice buf.data (i * c) (chunk file c (first + i)).length = chunk file c (first + i)

/-- An empty buffer holds no chunk. -/
theorem BufferHolds.reset (file : Bytes) (c first n : Nat) :
    BufferHolds file c first n (IncrementBuffer.reset n (n * c)) where
  data_length := by simp [IncrementBuffer.reset]
  bitmap_length := by simp [IncrementBuffer.reset, bitmapEmpty]
  expected := rfl
  received := by simp [IncrementBuffer.reset, IncrementBuffer.isChunkReceived]
  holds i _ h := by simp [IncrementBuffer.reset, IncrementBuffer.isChunkReceived] at h

section Buffer

variable {file : Bytes} {c first n : Nat} {buf : IncrementBuffer}

/-- A complete buffer has every bit set. -/
theorem BufferHolds.complete (hb : BufferHolds file c first n buf) (hc : buf.isComplete) {i : Nat}
    (hi : i < n) : buf.isChunkReceived i = true := by
  have hcount : ((Finset.range n).filter fun i => buf.isChunkReceived i = true).card =
      (Finset.range n).card := by
    rw [← hb.received, Finset.card_range, ← hb.expected]
    simpa [IncrementBuffer.isComplete] using hc
  exact Finset.card_filter_eq_iff.mp hcount i (Finset.mem_range.mpr hi)

/-- Storing a chunk of the file at its place keeps the buffer right: the other chunks lie
outside the range that is written. -/
theorem BufferHolds.store (hb : BufferHolds file c first n buf) (hn : n < 2 ^ 16) {i : Nat}
    (hi : i < n) (hnew : buf.isChunkReceived i = false) :
    BufferHolds file c first n
      (({ buf with data := overwrite buf.data (i * c) (chunk file c (first + i)) } :
        IncrementBuffer).markChunkReceived i) := by
  have hlen : (chunk file c (first + i)).length ≤ c := by
    rw [length_chunk]
    exact Nat.min_le_left _ _
  have hroom : i * c + (chunk file c (first + i)).length ≤ buf.data.length := by
    rw [hb.data_length]
    have : (i + 1) * c ≤ n * c := Nat.mul_le_mul_right c hi
    rw [Nat.add_mul, Nat.one_mul] at this
    omega
  have hbyte : i / 8 < buf.receivedBitmap.length := by
    rw [hb.bitmap_length]
    omega
  have hget : bitmapGet buf.receivedBitmap i = false := hnew
  set buf' := ({ buf with data := overwrite buf.data (i * c) (chunk file c (first + i)) } :
    IncrementBuffer).markChunkReceived i with hbuf'
  have heq : buf' = { buf with
      data := overwrite buf.data (i * c) (chunk file c (first + i))
      receivedBitmap := bitmapSet buf.receivedBitmap i
      chunksReceived := (buf.chunksReceived + 1) % 2 ^ 16 } := by
    simp [hbuf', IncrementBuffer.markChunkReceived, hbyte, hget]
  have hbit (j : Nat) : buf'.isChunkReceived j = (decide (i = j) || buf.isChunkReceived j) := by
    rw [heq]
    exact bitmapGet_set hbyte j
  refine ⟨?_, ?_, ?_, ?_, ?_⟩
  · rw [heq]
    exact (length_overwrite hroom).trans hb.data_length
  · rw [heq]
    exact (length_bitmapSet _ _).trans hb.bitmap_length
  · rw [heq]
    exact hb.expected
  · -- exactly one new bit is counted, and the count stays below the 16-bit limit
    have hset : (Finset.range n).filter (fun j => buf'.isChunkReceived j = true) =
        insert i ((Finset.range n).filter fun j => buf.isChunkReceived j = true) := by
      ext j
      simp only [Finset.mem_filter, Finset.mem_insert, Finset.mem_range, hbit, Bool.or_eq_true,
        decide_eq_true_eq]
      constructor
      · rintro ⟨hj, rfl | h⟩
        · exact .inl rfl
        · exact .inr ⟨hj, h⟩
      · rintro (rfl | ⟨hj, h⟩)
        · exact ⟨hi, .inl rfl⟩
        · exact ⟨hj, .inr h⟩
    have hcard : ((Finset.range n).filter fun j => buf'.isChunkReceived j = true).card =
        buf.chunksReceived + 1 := by
      rw [hset, Finset.card_insert_of_notMem (by simp [hnew]), hb.received]
    have hle : buf.chunksReceived + 1 ≤ n := by
      rw [← hcard]
      exact (Finset.card_filter_le _ _).trans_eq (Finset.card_range n)
    rw [hcard, heq]
    exact Nat.mod_eq_of_lt (by omega)
  · intro j hj hjr
    rw [heq]
    by_cases hij : i = j
    · subst hij
      exact slice_overwrite_self hroom
    · have hold : buf.isChunkReceived j = true := by
        rw [hbit] at hjr
        simpa [hij] using hjr
      have hjlen : (chunk file c (first + j)).length ≤ c := by
        rw [length_chunk]
        exact Nat.min_le_left _ _
      have hdisj : j * c + (chunk file c (first + j)).length ≤ i * c ∨
          i * c + (chunk file c (first + i)).length ≤ j * c := by
        rcases Nat.lt_or_gt_of_ne hij with h | h
        · have : (i + 1) * c ≤ j * c := Nat.mul_le_mul_right c h
          rw [Nat.add_mul, Nat.one_mul] at this
          omega
        · have : (j + 1) * c ≤ i * c := Nat.mul_le_mul_right c h
          rw [Nat.add_mul, Nat.one_mul] at this
          omega
      exact (slice_overwrite_of_disjoint hroom hdisj).trans (hb.holds j hj hold)

end Buffer

/-! ## The receiver's half -/

section ReceiverHalf

variable (file : Bytes) (c : Nat) (g : Geometry) (action : UInt8)

/-- The handler's log is the list of all chunks before increment `k`. -/
def Delivered (k : Nat) (log : List DataCall) : Prop :=
  asSlices log = (List.range (min (k * g.chunksPerIncrement) g.totalChunks)).map
    fun i => (i, chunk file c i)

/-- The receiver is collecting increment `k` of the transfer. -/
structure InProgress (k : Nat) (r : Receiver (η × List DataCall)) : Prop where
  active : r.activeHandler = some action
  fileSize : r.fileSize = file.length
  chunkSize : r.chunkPayloadSize = c
  geometry : r.geometry = g
  current : r.currentIncrement = k
  more : k < g.totalIncrements
  buffer : BufferHolds file c (k * g.chunksPerIncrement) (g.chunksInIncrement k) r.incrementBuf

/-- What holds of the receiver once its log is right up to increment `k`. -/
structure Progress (k : Nat) (r : Receiver (η × List DataCall)) (log : List DataCall) :
    Prop where
  le : k ≤ g.totalIncrements
  delivered : Delivered file c g k log
  collecting : r.state = .receiving ∨ r.state = .writing → InProgress file c g action k r
  finished : r.state = .waitingEnd → k = g.totalIncrements

/-- The receiver's invariant: as long as the handler has accepted every call, the log is a
list of whole increments and the buffer belongs to the next one. -/
def ReceiverHolds (r : Receiver (η × List DataCall)) : Prop :=
  ∃ h log, r.handlers action = some (h, log) ∧
    ((∀ d ∈ log, d.accepted) → ∃ k, Progress file c g action k r log)

variable {file c g action}

/-- The fields of the receiver that the invariant reads. -/
def transferView (r : Receiver (η × List DataCall)) :=
  (r.state, r.activeHandler, r.handlers, r.incrementBuf, r.fileSize, r.chunkPayloadSize,
    r.geometry, r.currentIncrement)

/-- Changes outside of these fields (timers, counters, the round) keep the invariant. -/
theorem ReceiverHolds.congr {r r' : Receiver (η × List DataCall)}
    (hr : ReceiverHolds file c g action r) (he : transferView r' = transferView r) :
    ReceiverHolds file c g action r' := by
  simp only [transferView, Prod.mk.injEq] at he
  obtain ⟨hst, hact, hh, hbuf, hfs, hcs, hgeo, hcur⟩ := he
  obtain ⟨h, log, hlog, hprog⟩ := hr
  refine ⟨h, log, by rw [hh, hlog], fun hacc => ?_⟩
  obtain ⟨k, hk⟩ := hprog hacc
  refine ⟨k, hk.le, hk.delivered, fun hs => ?_, fun hs => hk.finished (by rw [← hst, hs])⟩
  have hin := hk.collecting (by rw [← hst]; exact hs)
  exact ⟨hact.trans hin.active, hfs.trans hin.fileSize, hcs.trans hin.chunkSize,
    hgeo.trans hin.geometry, hcur.trans hin.current, hin.more, by rw [hbuf]; exact hin.buffer⟩

/-- A call that ends the transfer keeps the log. -/
theorem ReceiverHolds.of_ended {r r' : Receiver (η × List DataCall)}
    (hr : ReceiverHolds file c g action r)
    (hlog : ∀ h log, r.handlers action = some (h, log) → ∃ h', r'.handlers action = some (h', log))
    (hstate : r'.state = .idle ∨ r'.state = .verifying) :
    ReceiverHolds file c g action r' := by
  obtain ⟨h, log, hh, hprog⟩ := hr
  obtain ⟨h', hh'⟩ := hlog h log hh
  refine ⟨h', log, hh', fun hacc => ?_⟩
  obtain ⟨k, hk⟩ := hprog hacc
  refine ⟨k, hk.le, hk.delivered, ?_, ?_⟩ <;> rcases hstate with he | he <;> simp [he]

/-- Writing back a handler state with the same log keeps every log. -/
theorem setHandler_log {r : Receiver (η × List DataCall)} {a : UInt8} {h₀ : η × List DataCall}
    (ha : r.handlers a = some h₀) (h₁ : η) {h : η} {log : List DataCall}
    (hh : r.handlers action = some (h, log)) :
    ∃ h', (r.setHandler a (h₁, h₀.2)).handlers action = some (h', log) := by
  by_cases hsame : a = action
  · subst hsame
    obtain rfl : h₀ = (h, log) := by simpa [hh] using ha.symm
    exact ⟨h₁, by simp [Receiver.setHandler]⟩
  · exact ⟨h, by simpa [Receiver.setHandler, Function.update_of_ne (Ne.symm hsame)] using hh⟩

/-- The active handler is the one under its action. -/
theorem handlers_of_active {r : Receiver (η × List DataCall)} {a : UInt8}
    {h₀ : η × List DataCall} (ha : r.activeHandler = some a) (hact : r.active? = some h₀) :
    r.handlers a = some h₀ := by simpa [Receiver.active?, ha] using hact

/-- Aborting through the handler keeps its log. -/
theorem notifyAbort_log (H : ActionHandler η) (e : Env) (r : Receiver (η × List DataCall))
    (reason : UInt8) {h : η} {log : List DataCall} (hh : r.handlers action = some (h, log)) :
    ∃ h', (r.notifyAbort (receiverContext H e) reason).handlers action = some (h', log) := by
  unfold Receiver.notifyAbort
  split
  · next a h₀ ha hact => exact setHandler_log (handlers_of_active ha hact) _ hh
  · exact ⟨h, hh⟩

/-- `abort` ends the transfer. -/
theorem ReceiverHolds.abort {H : ActionHandler η} {e : Env} {r : Receiver (η × List DataCall)}
    (hr : ReceiverHolds file c g action r) (acks : List Bytes) (reason : UInt8) (notify : Bool) :
    ReceiverHolds file c g action (r.abort (receiverContext H e) acks reason notify).1 := by
  exact hr.of_ended (fun h log hh => notifyAbort_log H e r reason hh) (.inl rfl)

/-! ### Data frames -/

/-- A `FILE_DATA` payload that carries a chunk of the file at its sequence number. -/
def Genuine (file : Bytes) (c : Nat) (payload : Bytes) : Prop :=
  ∃ s < 2 ^ 32, payload = Manager.chunkPayload s (chunk file c s)

/-- What `handle_file_data` can do: drop the frame, or store a chunk of the current
increment that has the expected length and was not there. -/
theorem handleFileData_cases {π : Type} (x : FileReceiver.Context η π) (r : Receiver η)
    (payload : Bytes) :
    (∃ now, (r.handleFileData x payload).1 = { r with lastActivityMs := now }) ∨
      ∃ s i, s = leDecode (payload.take 4) ∧ i = s % r.geometry.chunksPerIncrement % 2 ^ 16 ∧
        r.state = .receiving ∧ s < r.geometry.totalChunks ∧
        r.currentIncrement * r.geometry.chunksPerIncrement ≤ s ∧
        s < r.currentIncrement * r.geometry.chunksPerIncrement +
          r.geometry.chunksInIncrement r.currentIncrement ∧
        r.incrementBuf.isChunkReceived i = false ∧
        (r.handleFileData x payload).1 = { r with
          lastActivityMs := x.now
          incrementBuf := ({ r.incrementBuf with
            data := overwrite r.incrementBuf.data (i * r.chunkPayloadSize) (payload.drop 4) } :
              IncrementBuffer).markChunkReceived i } := by
  generalize ho : r.handleFileData x payload = o
  unfold Receiver.handleFileData at ho
  dsimp only at ho
  split at ho
  · exact .inl ⟨r.lastActivityMs, ho ▸ rfl⟩
  split at ho
  · exact .inl ⟨r.lastActivityMs, ho ▸ rfl⟩
  next h₂ =>
  split at ho
  · exact .inl ⟨r.lastActivityMs, ho ▸ rfl⟩
  next h₃ =>
  split at ho
  · exact .inl ⟨r.lastActivityMs, ho ▸ rfl⟩
  next h₄ =>
  split at ho
  · exact .inl ⟨r.lastActivityMs, ho ▸ rfl⟩
  next h₅ =>
  split at ho
  · exact .inl ⟨x.now, ho ▸ rfl⟩
  next h₆ =>
  split at ho
  · exact .inl ⟨x.now, ho ▸ rfl⟩
  · have hstate : r.state = .receiving := by
      by_contra hne
      simp [hne] at h₂
    subst ho
    exact .inr ⟨_, _, rfl, rfl, hstate, by omega, by omega, by omega, by simpa using h₆, rfl⟩

/-- A genuine data frame, whatever increment it belongs to, keeps the receiver's
invariant. -/
theorem ReceiverHolds.fileData (hg : g.Sound file.length c) (hcpi : g.chunksPerIncrement < 2 ^ 16)
    {H : ActionHandler η} {e : Env} {r : Receiver (η × List DataCall)}
    (hr : ReceiverHolds file c g action r) {payload : Bytes} (hp : Genuine file c payload) :
    ReceiverHolds file c g action (r.handleFileData (receiverContext H e) payload).1 := by
  rcases handleFileData_cases (receiverContext H e) r payload with
    ⟨now, heq⟩ | ⟨s, i, hs, hi, hrec, htot, hlo, hhi, hnew, heq⟩
  · rw [heq]
    exact hr.congr rfl
  obtain ⟨h, log, hh, hprog⟩ := hr
  rw [heq]
  refine ⟨h, log, hh, fun hacc => ?_⟩
  obtain ⟨k, hk⟩ := hprog hacc
  have hin := hk.collecting (.inl hrec)
  rw [hin.geometry, hin.current] at hlo hhi
  rw [hin.geometry] at hi
  -- the frame carries chunk `s` of the file, which is chunk `i` of the increment
  obtain ⟨s', hs32, rfl⟩ := hp
  have hseq : s = s' := by
    rw [hs, Manager.chunkPayload, List.take_left' (length_leEncode 4 s'), leDecode_leEncode]
    exact Nat.mod_eq_of_lt hs32
  subst hseq
  have hdata : (Manager.chunkPayload s (chunk file c s)).drop 4 = chunk file c s :=
    List.drop_left' (length_leEncode 4 s)
  have hn : g.chunksInIncrement k ≤ g.chunksPerIncrement := by
    rw [Geometry.chunksInIncrement]
    split
    · exact hg.last_le
    · exact le_rfl
  have hidx : i = s - k * g.chunksPerIncrement := by
    have hmod : s % g.chunksPerIncrement = s - k * g.chunksPerIncrement := by
      obtain ⟨d, rfl⟩ := Nat.exists_eq_add_of_le hlo
      rw [Nat.add_comm, Nat.add_mul_mod_self_right, Nat.add_sub_cancel_right]
      exact Nat.mod_eq_of_lt (by omega)
    rw [hi, hmod]
    exact Nat.mod_eq_of_lt (by omega)
  have hsi : s = k * g.chunksPerIncrement + i := by omega
  refine ⟨k, hk.le, hk.delivered, fun hst => ?_, hk.finished⟩
  refine ⟨hin.active, hin.fileSize, hin.chunkSize, hin.geometry, hin.current, hin.more, ?_⟩
  have hstored := hin.buffer.store (by omega) (i := i) (by omega) hnew
  rw [hin.chunkSize, hdata, hsi]
  exact hstored

/-! ### Flashing an increment -/

/-- With a complete buffer, the write loop visits every chunk of the increment and hands
over the file's bytes; only the last chunk of the file is shorter than the others. -/
theorem incrementSlices_eq (hg : g.Sound file.length c) {k : Nat}
    {r : Receiver (η × List DataCall)} (hin : InProgress file c g action k r)
    (hfull : r.incrementBuf.isComplete) {remaining i : Nat}
    (hri : i + remaining = g.chunksInIncrement k) :
    r.incrementSlices (g.chunksInIncrement k) remaining i =
      (List.range' i remaining).map fun j =>
        (k * g.chunksPerIncrement + j, chunk file c (k * g.chunksPerIncrement + j)) := by
  induction remaining generalizing i with
  | zero => rfl
  | succ remaining ih =>
    have hi : i < g.chunksInIncrement k := by omega
    set s := k * g.chunksPerIncrement + i with hs
    have hend := hg.increment_end hin.more
    have hlt : s < g.totalChunks := by omega
    have hmul : (s + 1) * c ≤ g.totalChunks * c := Nat.mul_le_mul_right c hlt
    have hsc : s * c = k * g.chunksPerIncrement * c + i * c := by rw [hs, Nat.add_mul]
    rw [Nat.add_mul, Nat.one_mul] at hmul
    have hbefore : s * c < file.length := by
      have : s * c ≤ (g.totalChunks - 1) * c := Nat.mul_le_mul_right c (by omega)
      exact lt_of_le_of_lt this hg.lt_file
    have hlen : r.sliceLen (g.chunksInIncrement k) i = (chunk file c s).length := by
      rw [length_chunk, Receiver.sliceLen, hin.chunkSize, hin.fileSize, hin.current, hin.geometry]
      split
      · dsimp only
        rw [← hsc]
        split <;> omega
      · -- not the last chunk of the increment, so not the last chunk of the file
        next hne =>
        have hle : (s + 1) * c ≤ (g.totalChunks - 1) * c := Nat.mul_le_mul_right c (by omega)
        have := hg.lt_file
        rw [Nat.add_mul, Nat.one_mul] at hle
        omega
    have hpos : 0 < (chunk file c s).length := by
      rw [length_chunk]
      have := hg.chunk_pos
      omega
    have hroom : i * c + (chunk file c s).length ≤ r.incrementBuf.data.length := by
      have : (i + 1) * c ≤ g.chunksInIncrement k * c := Nat.mul_le_mul_right c hi
      rw [Nat.add_mul, Nat.one_mul] at this
      rw [hin.buffer.data_length, length_chunk]
      omega
    have hslice : slice r.incrementBuf.data (i * c) (chunk file c s).length = chunk file c s :=
      hin.buffer.holds i hi (hin.buffer.complete hfull hi)
    rw [Receiver.incrementSlices, List.range'_succ, List.map_cons, ← ih (by omega)]
    simp only [hlen, hin.chunkSize, hin.current, hin.geometry, hslice]
    rw [if_neg (by omega)]

/-- The log after increment `k` is the log before it and the chunks of the increment. -/
theorem Delivered.increment (hg : g.Sound file.length c) {k : Nat} (hk : k < g.totalIncrements)
    {log calls : List DataCall} (hlog : Delivered file c g k log)
    (hcalls : asSlices calls = (List.range' 0 (g.chunksInIncrement k)).map fun j =>
      (k * g.chunksPerIncrement + j, chunk file c (k * g.chunksPerIncrement + j))) :
    Delivered file c g (k + 1) (log ++ calls) := by
  have hend := hg.increment_end hk
  have hmin : min (k * g.chunksPerIncrement) g.totalChunks = k * g.chunksPerIncrement := by
    have hle : k * g.chunksPerIncrement ≤ (g.totalIncrements - 1) * g.chunksPerIncrement :=
      Nat.mul_le_mul_right _ (by omega)
    have := hg.total_eq
    omega
  have happ : asSlices (log ++ calls) = asSlices log ++ asSlices calls := List.map_append
  rw [Delivered, happ, hlog, hcalls, hmin, ← hend, List.range_add, List.map_append, List.map_map,
    List.range_eq_range']
  rw [List.range_eq_range']
  rfl

/-- After the last slice of increment `k`, the receiver is ready for the next increment or
waits for `END`. -/
theorem finishIncrement_progress (hinc : g.totalIncrements < 2 ^ 16) {H : ActionHandler η}
    {e : Env} {k : Nat} {r : Receiver (η × List DataCall)} {log : List DataCall}
    (hin : InProgress file c g action k r) (hlog : Delivered file c g (k + 1) log)
    (acks : List Bytes) :
    Progress file c g action (k + 1) (r.finishIncrement (receiverContext H e) acks).1 log := by
  have hmore := hin.more
  unfold Receiver.finishIncrement
  dsimp only
  split
  · next hlast =>
    rw [hin.geometry, hin.current] at hlast
    exact ⟨hmore, hlog, by simp, fun _ => by omega⟩
  · next hlast =>
    rw [hin.geometry, hin.current] at hlast
    have hnext : (r.currentIncrement + 1) % 2 ^ 16 = k + 1 := by
      rw [hin.current]
      exact Nat.mod_eq_of_lt (by omega)
    refine ⟨hmore, hlog, fun _ => ?_, by simp⟩
    refine ⟨hin.active, hin.fileSize, hin.chunkSize, hin.geometry, hnext, by omega, ?_⟩
    dsimp only
    rw [hnext, hin.geometry, hin.chunkSize]
    exact BufferHolds.reset file c _ _

/-- Going on to the next increment tells the handler nothing. -/
theorem finishIncrement_handlers {π : Type} (x : FileReceiver.Context η π) (r : Receiver η)
    (p : π) : (r.finishIncrement x p).1.handlers = r.handlers := by
  unfold Receiver.finishIncrement
  dsimp only
  split <;> rfl

/-- The rule for a call that may append to the log: what it appends is compared with the
progress it makes only when every call was accepted. -/
theorem ReceiverHolds.of_grows {r r' : Receiver (η × List DataCall)}
    (hr : ReceiverHolds file c g action r)
    (hgrow : ∀ h log, r.handlers action = some (h, log) →
      ∃ h' calls, r'.handlers action = some (h', log ++ calls) ∧
        ∀ k, Progress file c g action k r log → (∀ d ∈ calls, d.accepted) →
          ∃ k', Progress file c g action k' r' (log ++ calls)) :
    ReceiverHolds file c g action r' := by
  obtain ⟨h, log, hh, hprog⟩ := hr
  obtain ⟨h', calls, hh', hk⟩ := hgrow h log hh
  refine ⟨h', log ++ calls, hh', fun hacc => ?_⟩
  obtain ⟨k, hp⟩ := hprog fun d hd => hacc d (List.mem_append_left _ hd)
  exact hk k hp fun d hd => hacc d (List.mem_append_right _ hd)

/-- `write_increment_to_flash_` on a complete buffer hands over exactly the current
increment, or the handler has refused a call. -/
theorem ReceiverHolds.write (hg : g.Sound file.length c) (hinc : g.totalIncrements < 2 ^ 16)
    {H : ActionHandler η} {e : Env} {r : Receiver (η × List DataCall)}
    (hr : ReceiverHolds file c g action r) (hfull : r.incrementBuf.isComplete)
    (hstate : r.state = .writing) (acks : List Bytes) :
    ReceiverHolds file c g action (r.writeIncrementToFlash (receiverContext H e) acks).1 := by
  set x := receiverContext H e with hx
  refine hr.of_grows fun h log hh => ?_
  unfold Receiver.writeIncrementToFlash
  split
  case h_2 => exact ⟨h, [], by simpa using hh, fun k hk _ => ⟨k, by simpa using hk⟩⟩
  next a h₀ ha hact =>
  have hact' : r.handlers a = some h₀ := handlers_of_active ha hact
  dsimp only
  split
  · exact ⟨h, [], by simpa using hh, fun k hk _ => ⟨k, by simpa using hk⟩⟩
  by_cases hsame : a = action
  case neg =>
    -- the active handler is another one: impossible while the log is right
    have hother (h' : η × List DataCall) : (r.setHandler a h').handlers action = some (h, log) := by
      simpa [Receiver.setHandler, Function.update_of_ne (Ne.symm hsame)] using hh
    have hcontra (k : Nat) (hk : Progress file c g action k r log) : False := by
      have := (hk.collecting (.inr hstate)).active
      rw [ha] at this
      exact hsame (Option.some.inj this)
    split
    · exact ⟨h, [], by rw [finishIncrement_handlers, hother]; simp, fun k hk => (hcontra k hk).elim⟩
    · split
      · exact ⟨h, [], by rw [finishIncrement_handlers, hother]; simp,
          fun k hk => (hcontra k hk).elim⟩
      · obtain ⟨h', hh'⟩ := notifyAbort_log H e _ abortFlashError (hother _)
        exact ⟨h', [], by rw [List.append_nil]; exact hh', fun k hk => (hcontra k hk).elim⟩
  subst hsame
  obtain rfl : h₀ = (h, log) := by simpa [hh] using hact'.symm
  obtain ⟨h₁, calls₁, ok₁, hpass₁, hall₁, hfail₁⟩ := flashPass_recording H h log
    (r.incrementSlices (r.geometry.chunksInIncrement r.currentIncrement)
      (r.geometry.chunksInIncrement r.currentIncrement) 0)
  rw [show x.handler = recording H from rfl, hpass₁]
  cases ok₁ with
  | true =>
    refine ⟨h₁, calls₁, ?_, fun k hk hacc => ?_⟩
    · simp [finishIncrement_handlers, Receiver.setHandler]
    · have hin := hk.collecting (.inr hstate)
      have hin' : InProgress file c g a k (r.setHandler a (h₁, log ++ calls₁)) :=
        ⟨hin.active, hin.fileSize, hin.chunkSize, hin.geometry, hin.current, hin.more, hin.buffer⟩
      have hcalls : asSlices calls₁ = _ := (hall₁ hacc).2
      rw [hin.geometry, hin.current, incrementSlices_eq hg hin hfull (by simp)] at hcalls
      have hnext := hk.delivered.increment hg hin.more hcalls
      exact ⟨k + 1, finishIncrement_progress (H := H) (e := e) hinc hin' hnext acks⟩
  | false =>
    -- a refused call is in the log from here on
    obtain ⟨d, hd, hda⟩ := hfail₁ rfl
    obtain ⟨h₂, calls₂, ok₂, hpass₂, -, -⟩ := flashPass_recording H h₁ (log ++ calls₁)
      (r.incrementSlices (r.geometry.chunksInIncrement r.currentIncrement)
        (r.geometry.chunksInIncrement r.currentIncrement) 0)
    rw [hpass₂]
    have hrefused (hacc : ∀ d ∈ calls₁ ++ calls₂, d.accepted) : False := by
      have := hacc d (List.mem_append_left _ hd)
      rw [hda] at this
      exact Bool.false_ne_true this
    cases ok₂ with
    | true =>
      refine ⟨h₂, calls₁ ++ calls₂, ?_, fun _ _ hacc => (hrefused hacc).elim⟩
      simp [finishIncrement_handlers, Receiver.setHandler]
    | false =>
      have hset : (r.setHandler a (h₂, log ++ calls₁ ++ calls₂)).handlers a =
          some (h₂, log ++ calls₁ ++ calls₂) := by simp [Receiver.setHandler]
      obtain ⟨h', hh'⟩ := notifyAbort_log H e _ abortFlashError hset
      refine ⟨h', calls₁ ++ calls₂, ?_, fun _ _ hacc => (hrefused hacc).elim⟩
      rw [← List.append_assoc]
      exact hh'

/-! ### Control packets and time -/

/-- Entering `WRITING` from `RECEIVING` keeps the invariant. -/
theorem ReceiverHolds.startWriting {r : Receiver (η × List DataCall)}
    (hr : ReceiverHolds file c g action r) (hstate : r.state = .receiving) :
    ReceiverHolds file c g action { r with state := .writing } := by
  refine hr.of_grows fun h log hh => ⟨h, [], by simpa using hh, fun k hk _ => ⟨k, ?_⟩⟩
  have hin := hk.collecting (.inl hstate)
  rw [List.append_nil]
  exact ⟨hk.le, hk.delivered, fun _ => ⟨hin.active, hin.fileSize, hin.chunkSize, hin.geometry,
    hin.current, hin.more, hin.buffer⟩, by simp⟩

/-- `BLAST_COMPLETE`, for any increment index. -/
theorem ReceiverHolds.blastComplete (hg : g.Sound file.length c)
    (hinc : g.totalIncrements < 2 ^ 16) {H : ActionHandler η} {e : Env}
    {r : Receiver (η × List DataCall)} (hr : ReceiverHolds file c g action r)
    (acks : List Bytes) (increment : Nat) :
    ReceiverHolds file c g action
      (r.handleBlastComplete (receiverContext H e) acks increment).1 := by
  unfold Receiver.handleBlastComplete
  split
  · exact hr
  next hrec =>
  have hstate : r.state = .receiving := by
    by_contra hne
    simp [hne] at hrec
  have hr₁ : ReceiverHolds file c g action { r with lastActivityMs := e.now } := hr.congr rfl
  dsimp only
  split_ifs with h₁ h₂ hfull hok hround
  · exact hr₁
  · exact hr₁
  · exact (hr₁.startWriting hstate).write hg hinc hfull rfl _
  · exact hr₁.startWriting hstate
  · exact hr₁.abort acks abortTimeout true
  · exact hr.congr (by simp [transferView, hstate])

/-- `END` ends the transfer or is ignored. -/
theorem ReceiverHolds.endTransfer {H : ActionHandler η} {e : Env}
    {r : Receiver (η × List DataCall)} (hr : ReceiverHolds file c g action r)
    (acks : List Bytes) :
    ReceiverHolds file c g action (r.handleEnd (receiverContext H e) acks).1 := by
  unfold Receiver.handleEnd
  split
  · exact hr
  split
  case h_2 => exact hr
  next a h₀ ha hact =>
  have hkeep {h : η} {log : List DataCall} (hh : r.handlers action = some (h, log)) :=
    setHandler_log (handlers_of_active ha hact) (H.onEnd h₀.1).1 hh
  dsimp only
  split
  · exact hr.of_ended (fun h log hh => hkeep hh) (.inr rfl)
  · exact hr.of_ended (fun h log hh => hkeep hh) (.inl rfl)

/-- A peer's `ABORT` ends the transfer or is ignored. -/
theorem ReceiverHolds.peerAbort {H : ActionHandler η} {e : Env}
    {r : Receiver (η × List DataCall)} (hr : ReceiverHolds file c g action r) (reason : UInt8) :
    ReceiverHolds file c g action (r.handleAbort (receiverContext H e) reason) := by
  unfold Receiver.handleAbort
  split
  · exact hr
  · exact hr.of_ended (fun h log hh => notifyAbort_log H e r reason hh) (.inl rfl)

/-- Every control packet but an `ANNOUNCE`. -/
theorem ReceiverHolds.control (hg : g.Sound file.length c)
    (hinc : g.totalIncrements < 2 ^ 16) {H : ActionHandler η} {e : Env}
    {r : Receiver (η × List DataCall)} (hr : ReceiverHolds file c g action r)
    (acks : List Bytes) {payload : Bytes} (hp : payload.head? ≠ some 0x00) :
    ReceiverHolds file c g action
      (r.handleFileTransfer (receiverContext H e) acks payload).1 := by
  unfold Receiver.handleFileTransfer
  cases payload with
  | nil => exact hr
  | cons phase body =>
    have hphase : (phase == 0x00) = false := by simpa using hp
    have hr₁ : ReceiverHolds file c g action { r with lastActivityMs := e.now } := hr.congr rfl
    dsimp only
    rw [hphase]
    simp only [Bool.false_eq_true, if_false]
    split_ifs
    · exact hr₁.endTransfer acks
    · exact hr₁
    · exact hr₁.peerAbort _
    · exact hr₁
    · exact hr₁.blastComplete hg hinc acks _
    · exact hr₁
    · exact hr₁

/-- The periodic part: time can only end the transfer. -/
theorem ReceiverHolds.loop {H : ActionHandler η} {e : Env} {r : Receiver (η × List DataCall)}
    (hr : ReceiverHolds file c g action r) (acks : List Bytes) :
    ReceiverHolds file c g action (r.loop (receiverContext H e) acks).1 := by
  have hr₁ : ReceiverHolds file c g action (r.performRestartIfDue (receiverContext H e)) := by
    unfold Receiver.performRestartIfDue
    split
    · exact hr
    · exact hr.congr rfl
  unfold Receiver.loop
  set r₁ := r.performRestartIfDue (receiverContext H e)
  dsimp only
  split
  · split <;> split
    · exact hr₁.of_ended (fun h log hh => ⟨h, hh⟩) (.inl rfl)
    · exact hr₁.congr rfl
    · exact hr₁.of_ended (fun h log hh => ⟨h, hh⟩) (.inl rfl)
    · exact hr₁
  · split
    · exact hr₁
    · split
      · split
        · exact hr₁.abort acks abortTimeout true
        · exact hr₁
      · exact hr₁
      · exact hr₁
      · split
        · exact hr₁.abort acks abortTimeout true
        · exact hr₁

end ReceiverHalf

/-! ## The manager's half -/

section ManagerHalf

/-- A frame that the manager may send once the transfer is open: a chunk of the file, or a
control packet other than `ANNOUNCE`. -/
def Sendable (file : Bytes) (c : Nat) (f : Down) : Prop :=
  (f.type = .fileData ∧ Genuine file c f.payload) ∨
    (f.type = .fileTransfer ∧ f.payload.head? ≠ some 0x00)

/-- The manager's invariant: every queued chunk and every frame ever sent carries bytes of
the file. -/
structure ManagerHolds (file : Bytes) (c : Nat) (m : Manager) (frames : List Down) : Prop where
  opened : m.state ≠ .announcing
  chunkSize : m.state ≠ .idle → m.negotiatedChunkSize = c
  bounded : m.state ≠ .idle → m.tracker.geometry.totalChunks ≤ 2 ^ 32
  pending : ∀ q ∈ m.pendingChunks, q.sequence < 2 ^ 32 ∧ q.data = chunk file c q.sequence
  sent : ∀ f ∈ frames, Sendable file c f

variable {file : Bytes} {c : Nat} {m m' : Manager} {frames : List Down} {e : Env}

/-- The rule for a step that neither sends nor queues. -/
theorem ManagerHolds.keep (h : ManagerHolds file c m frames) (hst : m'.state ≠ .announcing)
    (hbusy : m'.state ≠ .idle → m.state ≠ .idle ∧
      m'.negotiatedChunkSize = m.negotiatedChunkSize ∧ m'.tracker.geometry = m.tracker.geometry)
    (hpend : ∀ q ∈ m'.pendingChunks, q ∈ m.pendingChunks) : ManagerHolds file c m' frames where
  opened := hst
  chunkSize hi := by rw [(hbusy hi).2.1]; exact h.chunkSize (hbusy hi).1
  bounded hi := by rw [(hbusy hi).2.2]; exact h.bounded (hbusy hi).1
  pending q hq := h.pending q (hpend q hq)
  sent := h.sent

/-- Sending a sendable frame. -/
theorem ManagerHolds.push (h : ManagerHolds file c m frames) {f : Down}
    (hf : Sendable file c f) : ManagerHolds file c m (frames ++ [f]) := by
  refine ⟨h.opened, h.chunkSize, h.bounded, h.pending, fun f' hf' => ?_⟩
  rcases List.mem_append.mp hf' with hmem | hmem
  · exact h.sent f' hmem
  · rw [List.mem_singleton.mp hmem]
    exact hf

/-- Sending a control packet other than `ANNOUNCE`. -/
theorem ManagerHolds.control (h : ManagerHolds file c m frames) (e : Env) (mac : Mac)
    {p : Bytes} (hp : p.head? ≠ some 0x00) :
    ManagerHolds file c m ((managerContext e).sendFrameFn frames mac .fileTransfer p).1 :=
  h.push (.inr ⟨rfl, hp⟩)

/-- A failed transfer leaves an idle manager with an empty queue. -/
theorem ManagerHolds.fail (h : ManagerHolds file c m frames) (reason : UInt8) (message : String)
    (notify : Bool) :
    ManagerHolds file c (m.failTransfer (managerContext e) frames reason message notify).1
      (m.failTransfer (managerContext e) frames reason message notify).2 := by
  have hidle : ManagerHolds file c
      (m.failTransfer (managerContext e) frames reason message notify).1 frames :=
    h.keep (by simp) (by simp) (by simp)
  rcases m.failTransfer_snd (managerContext e) frames reason message notify with heq | heq
  · rw [heq]
    exact hidle
  · rw [heq]
    exact hidle.control e m.leafMac (by simp)

/-- `send_blast_complete_`, for any increment index. -/
theorem ManagerHolds.blastComplete (h : ManagerHolds file c m frames) :
    ManagerHolds file c (m.sendBlastComplete (managerContext e) frames).1
      (m.sendBlastComplete (managerContext e) frames).2.1 := by
  have hsent := h.control e m.leafMac (p := [0x03] ++ leEncode 2 m.tracker.currentIncrement)
    (by simp)
  have hopen := h.opened
  unfold Manager.sendBlastComplete Manager.sendControl
  dsimp only
  split
  · exact hsent.keep (by simpa using hopen) (by simp) (by simp)
  · exact hsent.keep (by simpa using hopen) (by simp) (by simp)
  · have hclear : ManagerHolds file c m.clearNoMemBackoff _ :=
      hsent.keep (by simpa using hopen) (by simp) (by simp)
    exact hclear.fail (e := e) 0x02 "target unreachable during BLAST_COMPLETE" false
  · exact hsent.keep (by simpa using hopen) (by simp) (by simp)

/-- `send_end_`. -/
theorem ManagerHolds.endTransfer (h : ManagerHolds file c m frames) :
    ManagerHolds file c (m.sendEnd (managerContext e) frames).1
      (m.sendEnd (managerContext e) frames).2 := by
  unfold Manager.sendEnd
  split
  · exact h
  next hst =>
  split
  · exact h.fail _ _ _
  have hsent := h.control e m.leafMac (p := [0x01]) (by simp)
  have hopen := h.opened
  have hbusy : m.state ≠ .idle := by
    intro hidle
    exact hst ⟨by simp [hidle], by simp [hidle]⟩
  have hclear : ManagerHolds file c m.clearNoMemBackoff
      (m.sendControl (managerContext e) frames [0x01]).1 :=
    hsent.keep (by simpa using hopen) (by simp) (by simp)
  dsimp only
  split
  · have hmark : ManagerHolds file c (m.markNoMemBackoff (managerContext e)) _ :=
      hsent.keep (by simpa using hopen) (by simp) (by simp)
    exact hmark.fail _ _ _
  · exact hsent.keep (by simp) (by simp [hbusy]) (by simp)
  · exact hclear.fail _ _ _
  · exact hclear.fail _ _ _

/-- `send_chunk_` of a chunk of the file. -/
theorem ManagerHolds.sendChunk (h : ManagerHolds file c m frames) {q : QueuedChunk}
    (hq : q.sequence < 2 ^ 32 ∧ q.data = chunk file c q.sequence) :
    ManagerHolds file c (m.sendChunk (managerContext e) frames q).1
      (m.sendChunk (managerContext e) frames q).2.1 := by
  unfold Manager.sendChunk
  dsimp only
  split
  · exact h.fail _ _ _
  have hsent := h.push (f := ⟨(e.frameSent frames.length).2, .fileData,
    Manager.chunkPayload q.sequence q.data⟩) (.inl ⟨rfl, q.sequence, hq.1, by rw [hq.2]⟩)
  have hopen := h.opened
  split
  · exact hsent.keep (by simpa using hopen) (by simp) (by simp)
  · exact hsent.keep (by simpa using hopen) (by simp; split <;> simp) (by simp)
  · exact hsent.keep (by simpa using hopen) (by simp) (by simp)

/-- `request_increment_chunks_` only changes which chunks are asked for. -/
theorem ManagerHolds.request (h : ManagerHolds file c m frames) :
    ManagerHolds file c m.requestIncrementChunks frames :=
  h.keep h.opened (fun hi => ⟨hi, rfl, rfl⟩) fun _ hq => hq

/-- `on_source_chunk` with the bytes of the file. -/
theorem ManagerHolds.source (h : ManagerHolds file c m frames) (sequence : Nat) :
    ManagerHolds file c
      (m.onSourceChunk sequence (chunk file m.negotiatedChunkSize sequence)).1 frames := by
  unfold Manager.onSourceChunk
  split
  · exact h
  next hst =>
  split
  · exact h
  dsimp only
  split
  · exact h
  next hlen =>
  have hstate : m.state = .blasting := not_not.mp hst
  have hbusy : m.state ≠ .idle := by simp [hstate]
  refine ⟨h.opened, h.chunkSize, h.bounded, fun q hq => ?_, h.sent⟩
  rcases List.mem_append.mp hq with hmem | hmem
  · exact h.pending q hmem
  · -- a sequence number with a positive expected length is one of the file's
    rw [List.mem_singleton.mp hmem]
    refine ⟨?_, by rw [h.chunkSize hbusy]⟩
    have hlt : sequence < m.tracker.geometry.totalChunks := by
      by_contra hge
      apply hlen
      left
      simp [Manager.expectedChunkLen, Geometry.expectedChunkLen, not_lt.mp hge]
    exact lt_of_lt_of_le hlt (h.bounded hbusy)

/-- The end of a round sends no chunk. -/
theorem ManagerHolds.closeBlast (h : ManagerHolds file c m frames) (hst : m.state = .blasting) :
    ManagerHolds file c (m.closeBlast (managerContext e) frames).1
      (m.closeBlast (managerContext e) frames).2 := by
  have hsent := h.blastComplete (e := e)
  unfold Manager.closeBlast
  dsimp only
  split
  · next hok =>
    have hstate := Manager.sendBlastComplete_state (managerContext e) hok
    refine hsent.keep (by simp) (fun _ => ⟨?_, rfl, rfl⟩) fun _ hq => hq
    rw [hstate, hst]
    decide
  · exact hsent

/-- `pump_queued_chunks_`: the queue shrinks, and what leaves it is sent. -/
theorem ManagerHolds.pump (h : ManagerHolds file c m frames) :
    ManagerHolds file c (m.pumpQueuedChunks (managerContext e) frames).1
      (m.pumpQueuedChunks (managerContext e) frames).2 := by
  unfold Manager.pumpQueuedChunks
  split
  · exact h
  next hst =>
  have hstate : m.state = .blasting := not_not.mp (not_or.mp hst).1
  split
  · split
    · exact h.closeBlast hstate
    · exact h
  next q rest hpend =>
  have hq := h.pending q (by rw [hpend]; exact List.mem_cons_self)
  have hsent := h.sendChunk (e := e) hq
  dsimp only
  split
  · exact hsent
  next hok =>
  obtain ⟨hst₁, hpend₁⟩ := Manager.sendChunk_state (managerContext e)
    (m := m) (p := frames) (q := q) (by simpa using hok)
  have hrest : ManagerHolds file c
      ((m.sendChunk (managerContext e) frames q).1.popChunk q.sequence rest)
      (m.sendChunk (managerContext e) frames q).2.1 := by
    refine hsent.keep hsent.opened (fun hi => ⟨hi, rfl, rfl⟩) fun q' hq' => ?_
    rw [hpend₁, hpend]
    exact List.mem_cons_of_mem _ hq'
  split
  · exact hrest.closeBlast (hst₁.trans hstate)
  · exact hrest

/-- `handle_gaps_ack_`, for any bitmap. -/
theorem ManagerHolds.gapsAck (h : ManagerHolds file c m frames) (hst : m.state = .waitingGaps)
    (trailing : Bytes) :
    ManagerHolds file c (m.handleGapsAck (managerContext e) frames trailing).1
      (m.handleGapsAck (managerContext e) frames trailing).2 := by
  have hbusy : m.state ≠ .idle := by simp [hst]
  unfold Manager.handleGapsAck
  split
  · exact h.fail _ _ _
  dsimp only
  split_ifs
  · exact h.fail _ _ _
  · refine ManagerHolds.endTransfer ?_
    exact h.keep (by simp) (fun _ => ⟨hbusy, rfl, rfl⟩) fun _ hq => hq
  · refine ManagerHolds.request ?_
    exact h.keep (by simp) (fun _ => ⟨hbusy, rfl, rfl⟩) fun _ hq => hq
  · exact h.fail _ _ _
  · refine ManagerHolds.request ?_
    exact h.keep (by simp) (fun _ => ⟨hbusy, rfl, rfl⟩) fun _ hq => hq
  · exact h.keep (by simp) (fun _ => ⟨hbusy, rfl, rfl⟩) fun _ hq => hq

/-- `on_file_ack`, for any acknowledgement: an `ACCEPT` is late and changes nothing. -/
theorem ManagerHolds.fileAck (h : ManagerHolds file c m frames) (mac : Mac)
    (ackType result : UInt8) (ref : UInt32) (trailing : Bytes) :
    ManagerHolds file c
      (m.onFileAck (managerContext e) frames mac ackType result ref trailing).1.1
      (m.onFileAck (managerContext e) frames mac ackType result ref trailing).1.2 := by
  unfold Manager.onFileAck
  split
  · exact h
  have h₁ : ManagerHolds file c (m.noteActivity (managerContext e)) frames :=
    h.keep h.opened (fun hi => ⟨hi, rfl, rfl⟩) fun _ hq => hq
  unfold Manager.dispatchFileAck
  split_ifs with hacc hann href hrej hgaps hwait hhist hcomp hab
  · exact h₁
  · exact h₁
  · exact absurd (not_not.mp hann) h₁.opened
  · exact h₁.fail _ _ _
  · exact h₁
  · exact h₁.gapsAck (not_not.mp hwait) trailing
  · exact h₁
  · unfold Manager.handleComplete
    split_ifs
    · exact h₁.fail _ _ _
    · exact h₁.fail _ _ _
    · exact h₁.keep (by simp [Manager.reset]) (by simp [Manager.reset]) (by simp [Manager.reset])
    · exact h₁.fail _ _ _
  · exact h₁.fail _ _ _
  · exact h₁

/-- What the loop sends are chunks that the source has given for their sequence numbers. -/
theorem ManagerHolds.advance (h : ManagerHolds file c m frames) :
    ManagerHolds file c (m.advance (managerContext e) frames).1
      (m.advance (managerContext e) frames).2 := by
  unfold Manager.advance
  split
  · next hst => exact absurd hst h.opened
  · have hblast : ManagerHolds file c (m.pumpBlasting (managerContext e)) frames := by
      unfold Manager.pumpBlasting
      split_ifs
      · exact h
      · exact h.request
      · exact h
    exact hblast.pump
  · split_ifs
    · exact h.fail _ _ _
    · exact h.blastComplete
    · exact h
  · split
    · exact h.endTransfer
    · exact h
  · exact h
  · exact h

/-- The periodic part of the manager. -/
theorem ManagerHolds.loop (h : ManagerHolds file c m frames) :
    ManagerHolds file c (m.loop (managerContext e) frames).1
      (m.loop (managerContext e) frames).2 := by
  unfold Manager.loop
  split_ifs
  · exact h
  · exact h.fail _ _ _
  · exact h.fail _ _ _
  · exact h
  · exact h.fail _ _ _
  · exact h.advance

end ManagerHalf

/-! ## The joint invariant -/

/-- Both halves: the leaf's buffer and log, and the bridge's queue and frames. -/
structure Joint (file : Bytes) (c : Nat) (g : Geometry) (action : UInt8) (s : State η) : Prop where
  receiver : ReceiverHolds file c g action s.receiver
  manager : ManagerHolds file c s.manager s.downlink

/-! ## The opening -/

section Opening

/-- What an accepted announce leaves behind: the fields of the transfer, an empty buffer
for increment 0, and the `ACCEPT` on its way. -/
structure Begun {η π : Type} (x : FileReceiver.Context η π) (r : Receiver η) (p : π)
    (a : Announce) (c kb : Nat) (r' : Receiver η) (p' : π) : Prop where
  active : r'.activeHandler = some a.action
  handlers : r'.handlers = r.handlers
  fileSize : r'.fileSize = a.fileSize.toNat
  chunkSize : r'.chunkPayloadSize = c
  bufferKb : r'.bufferSizeKb = kb
  geometry : r'.geometry = Geometry.ofTransfer a.fileSize.toNat c kb
  current : r'.currentIncrement = 0
  buffer : r'.incrementBuf = IncrementBuffer.reset
    ((Geometry.ofTransfer a.fileSize.toNat c kb).chunksInIncrement 0)
    ((Geometry.ofTransfer a.fileSize.toNat c kb).chunksInIncrement 0 * c)
  ack : p' = (x.sendAckFn p ([PacketType.fileTransfer.code, ackAccept] ++
    leEncode 4 r.announceTxCounter.toNat ++ (leEncode 2 c ++ [UInt8.ofNat kb, a.action]))).1

/-- A transfer that has begun has the geometry of its announcement and an empty buffer. -/
theorem beginTransfer_begun {π : Type} (x : FileReceiver.Context η π) {r : Receiver η} {p : π}
    {a : Announce} {c kb : Nat} (h : (r.beginTransfer x p a c kb).1.state = .receiving) :
    Begun x r p a c kb (r.beginTransfer x p a c kb).1 (r.beginTransfer x p a c kb).2.1 := by
  revert h
  unfold Receiver.beginTransfer
  dsimp only
  split
  · intro h
    simp [Receiver.reset] at h
  · split
    · intro _
      exact ⟨rfl, rfl, rfl, rfl, rfl, rfl, rfl, rfl, rfl⟩
    · intro h
      simp [Receiver.reset] at h

/-- From an idle receiver, only an accepted announce leads to `RECEIVING`. -/
theorem handleAnnounce_begun {H : ActionHandler η} {e : Env} {r : Receiver (η × List DataCall)}
    {acks : List Bytes} {a : Announce} (hidle : r.state = .idle)
    (hfresh : ∀ b h, r.handlers b = some h → h.2 = [])
    (h : (r.handleAnnounce (receiverContext H e) acks a).1.state = .receiving) :
    ∃ r₁ h₁ c kb, 0 < c ∧ c < 2 ^ 16 ∧ r₁.handlers a.action = some (h₁, []) ∧
      r₁.announceTxCounter = r.announceTxCounter ∧ 0 < a.fileSize.toNat ∧
      Begun (receiverContext H e) r₁ acks a c kb
        (r.handleAnnounce (receiverContext H e) acks a).1
        (r.handleAnnounce (receiverContext H e) acks a).2.1 := by
  have hrefused : r.state ≠ .receiving := by
    rw [hidle]
    nofun
  generalize ho : r.handleAnnounce (receiverContext H e) acks a = o at h ⊢
  unfold Receiver.handleAnnounce at ho
  dsimp only at ho
  split at ho
  · subst ho
    exact absurd h hrefused
  split at ho
  · subst ho
    exact absurd h hrefused
  split at ho
  · split at ho
    · subst ho
      exact absurd h hrefused
    · subst ho
      exact absurd h hrefused
  split at ho
  · subst ho
    exact absurd h hrefused
  next h₅ =>
  split at ho
  · subst ho
    exact absurd h hrefused
  split at ho
  · subst ho
    exact absurd h hrefused
  next h₀ hh₀ =>
  split at ho
  · subst ho
    exact absurd h hrefused
  split at ho
  · subst ho
    exact absurd h hrefused
  next h₈ =>
  · subst ho
    simp only [Bool.or_eq_true, beq_iff_eq, not_or] at h₅ h₈
    have hb := beginTransfer_begun (receiverContext H e) (p := acks) h
    refine ⟨_, (H.onAnnounce h₀.1 a.fileSize a.md5 a.chunkSize a.action a.fileId
      (UInt16.ofNat maxIncrementKb)).1, _, _, ?_, UInt16.toNat_lt _, ?_, ?_, ?_, hb⟩
    · have hne := h₈.1.1
      rw [← UInt16.toNat_inj] at hne
      exact Nat.pos_of_ne_zero hne
    · have hlog := hfresh _ _ hh₀
      simp [Receiver.setHandler, receiverContext, recording, hlog]
    · rfl
    · have hne := h₅.1
      rw [← UInt32.toNat_inj] at hne
      exact Nat.pos_of_ne_zero hne

/-- What `start_transfer` leaves in a fresh manager that is still announcing. -/
theorem startTransfer_spec {config : OtaManager.Config} {e : Env} {mac : Mac} {size : Nat}
    {md5 : Octets 16} {action : UInt8} {maxFrame : Nat} {fileId : Octets 12} {m : Manager}
    (hm : m = (({ config := config } : Manager).startTransfer (managerContext e) [] mac size md5
      action maxFrame fileId).1) :
    m.state = .idle ∨ (m.state = .announcing ∧ m.fileSize = size ∧ m.action = action ∧
      m.pendingChunks = [] ∧ size ≤ 1073741824) := by
  subst hm
  unfold Manager.startTransfer
  split_ifs with h₁ h₂ h₃ h₄
  · exact .inl rfl
  · exact .inl rfl
  · exact .inl rfl
  · exact .inl rfl
  · unfold Manager.sendAnnounce
    dsimp only
    rw [if_neg (by simp), if_neg (by simp [maxRetries])]
    split
    · exact .inr ⟨by simp, by simp [Manager.markNoMemBackoff], by simp [Manager.markNoMemBackoff],
        by simp, by omega⟩
    · exact .inr ⟨rfl, rfl, rfl, rfl, by omega⟩
    · exact .inl rfl
    · exact .inl rfl

/-- The manager's side of an accepted opening: the chunk size it reads is the one that was
sent, and its queue is empty. -/
theorem handleAccept_blasting {e : Env} {m : Manager} {frames : List Down} {c : Nat} {kb b : UInt8}
    (hc : c < 2 ^ 16)
    (h : (m.handleAccept (managerContext e) frames (leEncode 2 c ++ [kb, b])).1.state =
      .blasting) :
    (m.handleAccept (managerContext e) frames (leEncode 2 c ++ [kb, b])).1.negotiatedChunkSize = c ∧
      (m.handleAccept (managerContext e) frames (leEncode 2 c ++ [kb, b])).1.tracker.geometry =
        Geometry.ofTransfer m.fileSize c kb.toNat ∧
      (m.handleAccept (managerContext e) frames (leEncode 2 c ++ [kb, b])).1.pendingChunks =
        m.pendingChunks := by
  have hsize : leDecode ((leEncode 2 c ++ [kb, b]).take 2) = c := by
    rw [List.take_left' (length_leEncode 2 c), leDecode_leEncode]
    exact Nat.mod_eq_of_lt hc
  have hkb : (leEncode 2 c ++ [kb, b]).getD 2 0 = kb := by
    rw [List.getD_append_right _ _ _ _ (by simp)]
    simp
  revert h
  unfold Manager.handleAccept
  rw [hsize, hkb]
  split
  · simp
  dsimp only
  split_ifs
  · simp
  · simp
  · simp
  · simp
  · intro _
    exact ⟨rfl, rfl, rfl⟩

/-- An announcing manager starts to blast only through `handleAccept`. -/
theorem dispatchAccept_blasting {m : Manager} {e : Env}
    {frames : List Down} {ref : UInt32} {c : Nat} {kb b : UInt8} (hc : c < 2 ^ 16)
    (hm : m.state = .announcing)
    (h : (m.dispatchFileAck (managerContext e) frames ackAccept ref
      (leEncode 2 c ++ [kb, b])).1.1.state = .blasting) :
    let m' := (m.dispatchFileAck (managerContext e) frames ackAccept ref
      (leEncode 2 c ++ [kb, b])).1.1
    m'.negotiatedChunkSize = c ∧
      m'.tracker.geometry = Geometry.ofTransfer m.fileSize c kb.toNat ∧
      m'.pendingChunks = m.pendingChunks := by
  have heq : m.dispatchFileAck (managerContext e) frames ackAccept ref
      (leEncode 2 c ++ [kb, b]) =
      if ref ≠ m.announceTxCounter then ((m, frames), false)
      else (m.handleAccept (managerContext e) frames (leEncode 2 c ++ [kb, b]), true) := by
    simp only [Manager.dispatchFileAck, ackAccept, hm, ne_eq, not_true_eq_false, if_true, if_false]
  rw [heq] at h ⊢
  by_cases href : ref ≠ m.announceTxCounter
  · rw [if_pos href] at h
    exact absurd (hm.symm.trans h) (by decide)
  · rw [if_neg href] at h ⊢
    exact handleAccept_blasting hc h

/-- The announce that the manager packs is the one that the receiver reads. -/
theorem announcePayload_parse (m : Manager) (hsize : m.fileSize < 2 ^ 32) :
    ∃ body, m.announcePayload = 0x00 :: body ∧ body.length = 35 ∧
      (Receiver.parseAnnounce body).fileSize.toNat = m.fileSize ∧
      (Receiver.parseAnnounce body).action = m.action := by
  refine ⟨leEncode 4 m.fileSize ++ m.md5.bytes ++ leEncode 2 m.requestedChunkSize ++
    [m.action] ++ m.fileId.bytes, rfl, by simp, ?_, ?_⟩
  · simp only [Receiver.parseAnnounce, List.append_assoc, List.take_left' (length_leEncode _ _),
      leDecode_leEncode, UInt32.toNat_ofNat']
    omega
  · have hlen : (leEncode 4 m.fileSize ++ m.md5.bytes ++ leEncode 2 m.requestedChunkSize).length =
        22 := by simp
    simp only [Receiver.parseAnnounce]
    rw [List.append_assoc, List.getD_append_right _ _ _ _ (by omega), hlen]
    rfl

namespace Handshake

variable {hs : Handshake η} {H : ActionHandler η} {file : Bytes}

/-- In an accepted opening the manager was announcing the file. -/
theorem Accepted.announcing (h : hs.Accepted H file) :
    (hs.announcing file).state = .announcing ∧ (hs.announcing file).fileSize = file.length ∧
      (hs.announcing file).action = hs.action ∧ (hs.announcing file).pendingChunks = [] ∧
      file.length ≤ 1073741824 := by
  rcases startTransfer_spec (m := hs.announcing file) rfl with hidle | hann
  · have hblast := h.blasting
    have hsame : (hs.opened H file).manager = hs.announcing file := by
      simp [opened, deliverUp, announced, deliverDown, Handshake.announce, Manager.onFileAck,
        Manager.isBusy, hidle]
    rw [hsame, hidle] at hblast
    cases hblast
  · exact hann

/-- The receiver of an accepted opening has begun the transfer of this file. -/
theorem Accepted.begun (h : hs.Accepted H file) :
    ∃ r₁ h₁ c kb a, 0 < c ∧ c < 2 ^ 16 ∧ r₁.handlers hs.action = some (h₁, []) ∧
      a.action = hs.action ∧ a.fileSize.toNat = file.length ∧ 0 < file.length ∧
      Begun (receiverContext H hs.env) r₁ [] a c kb (hs.announced H file).receiver
        (hs.announced H file).uplink := by
  obtain ⟨-, hsize, haction, -, hle⟩ := h.announcing
  obtain ⟨body, hpay, hlen, hfs, hact⟩ :=
    announcePayload_parse (hs.announcing file) (by rw [hsize]; omega)
  set r₀ : Receiver (η × List DataCall) := { hs.receiver with
    announceTxCounter := (hs.announcing file).announceTxCounter
    lastActivityMs := hs.env.now } with hr₀
  have hstep : (hs.announced H file).receiver =
        (r₀.handleAnnounce (receiverContext H hs.env) [] (Receiver.parseAnnounce body)).1 ∧
      (hs.announced H file).uplink =
        (r₀.handleAnnounce (receiverContext H hs.env) [] (Receiver.parseAnnounce body)).2.1 := by
    simp only [announced, Handshake.announce, deliverDown, hpay, noteTxCounter, beq_self_eq_true,
      if_true, Receiver.handleFileTransfer, hlen]
    exact ⟨rfl, rfl⟩
  have hrec : (r₀.handleAnnounce (receiverContext H hs.env) []
      (Receiver.parseAnnounce body)).1.state = .receiving := by
    rw [← hstep.1]
    exact h.receiving
  obtain ⟨r₁, h₁, c, kb, hc₀, hc, hh, -, hpos, hb⟩ := 
    handleAnnounce_begun (r := r₀) h.idle h.fresh hrec
  rw [hact, haction] at hh
  rw [hfs, hsize] at hpos
  rw [← hstep.1, ← hstep.2] at hb
  exact ⟨r₁, h₁, c, kb, _, hc₀, hc, hh, hact.trans haction, hfs.trans hsize, hpos, hb⟩

/-- The manager of an accepted opening has read the `ACCEPT` that the receiver sent. -/
theorem Accepted.manager (h : hs.Accepted H file) {n c : Nat} {kb b : UInt8} (hc : c < 2 ^ 16)
    (hack : (hs.announced H file).uplink = [[PacketType.fileTransfer.code, ackAccept] ++
      leEncode 4 n ++ (leEncode 2 c ++ [kb, b])]) :
    (hs.opened H file).manager.negotiatedChunkSize = c ∧
      (hs.opened H file).manager.tracker.geometry =
        Geometry.ofTransfer file.length c kb.toNat ∧
      (hs.opened H file).manager.pendingChunks = [] := by
  obtain ⟨hann, hsize, haction, hpend, -⟩ := h.announcing
  set m := (hs.announcing file).noteActivity (managerContext hs.env) with hm
  have hdrop : ([PacketType.fileTransfer.code, ackAccept] ++ leEncode 4 n ++
      (leEncode 2 c ++ [kb, b])).drop 6 = leEncode 2 c ++ [kb, b] :=
    List.drop_left' (by simp)
  have hopened : (hs.opened H file).manager =
      (m.dispatchFileAck (managerContext hs.env) [] ackAccept
        (UInt32.ofNat (leDecode (([PacketType.fileTransfer.code, ackAccept] ++ leEncode 4 n ++
          (leEncode 2 c ++ [kb, b])).drop 2 |>.take 4))) (leEncode 2 c ++ [kb, b])).1.1 := by
    simp only [opened, deliverUp, hack, List.getD_cons_zero, hdrop]
    rw [Manager.onFileAck, if_neg (by simp [announced, deliverDown, Handshake.announce,
      Manager.isBusy, hann])]
    rfl
  have hblast := h.blasting
  rw [hopened] at hblast ⊢
  have hmstate : m.state = .announcing := hann
  obtain ⟨hneg, hgeo, hq⟩ := dispatchAccept_blasting hc hmstate hblast
  refine ⟨hneg, ?_, ?_⟩
  · rw [hgeo]
    exact congrArg (Geometry.ofTransfer · c kb.toNat) hsize
  · rw [hq]
    exact hpend

/-- The answer to the announce does not reach the receiver. -/
theorem opened_receiver : (hs.opened H file).receiver = (hs.announced H file).receiver := rfl

/-- An accepted opening establishes the joint invariant. -/
theorem Accepted.joint (h : hs.Accepted H file) :
    (hs.geometry H file).Sound file.length (hs.chunkSize H file) ∧
      Joint file (hs.chunkSize H file) (hs.geometry H file) hs.action (hs.opened H file) := by
  obtain ⟨-, -, -, -, hle⟩ := h.announcing
  obtain ⟨r₁, h₁, c, kb, a, hc₀, hc, hh, ha, hfs, hpos, hb⟩ := h.begun
  have hcs : hs.chunkSize H file = c := by rw [chunkSize, opened_receiver, hb.chunkSize]
  have hkb : (hs.opened H file).receiver.bufferSizeKb = kb := by rw [opened_receiver, hb.bufferKb]
  have hgeo : hs.geometry H file = Geometry.ofTransfer file.length c kb := by
    rw [geometry, hcs, hkb]
  have hsound : (hs.geometry H file).Sound file.length (hs.chunkSize H file) := by
    rw [hgeo, hcs]
    have hfits := h.fits
    rw [hcs, hkb] at hfits
    exact Geometry.ofTransfer_spec hc₀ hpos (by omega) hfits
  refine ⟨hsound, ?_, ?_⟩
  · -- nothing is flashed yet, and the buffer of increment 0 is empty
    rw [opened_receiver]
    refine ⟨h₁, [], ?_, fun _ => ⟨0, Nat.zero_le _, by simp [Delivered, asSlices], fun _ => ?_, ?_⟩⟩
    · exact (congrFun hb.handlers hs.action).trans hh
    · refine ⟨hb.active.trans (by rw [ha]), hb.fileSize.trans hfs, hb.chunkSize.trans hcs.symm,
        ?_, hb.current, hsound.increments_pos, ?_⟩
      · rw [hgeo, ← hfs]
        exact hb.geometry
      · have hbuf := hb.buffer
        rw [hfs, ← hgeo, ← hcs] at hbuf
        rw [hbuf]
        exact BufferHolds.reset _ _ _ _
    · intro hwait
      rw [← opened_receiver, h.receiving] at hwait
      cases hwait
  · obtain ⟨hneg, hmgeo, hq⟩ := h.manager (n := r₁.announceTxCounter.toNat) hc hb.ack
    have hblast := h.blasting
    refine ⟨by rw [hblast]; decide, fun _ => hneg.trans hcs.symm, fun _ => ?_, ?_, ?_⟩
    · rw [hmgeo]
      have hup := (Geometry.divUp_bounds hc₀ hpos).1
      have : Geometry.divUp file.length c - 1 ≤ (Geometry.divUp file.length c - 1) * c :=
        Nat.le_mul_of_pos_right _ hc₀
      change Geometry.divUp file.length c ≤ 2 ^ 32
      omega
    · rw [hq]
      simp
    · simp [opened]

end Handshake

end Opening

/-! ## Runs -/

section Run

variable {file : Bytes} {c : Nat} {g : Geometry} {action : UInt8} {H : ActionHandler η}

/-- One step of the transfer keeps the joint invariant, whichever frame it delivers. -/
theorem Joint.step (hg : g.Sound file.length c) (hcpi : g.chunksPerIncrement < 2 ^ 16)
    (hinc : g.totalIncrements < 2 ^ 16) {s : State η} (hs : Joint file c g action s) (ev : Event) :
    Joint file c g action (step H file s ev) := by
  cases ev with
  | source sequence => exact ⟨hs.receiver, hs.manager.source sequence⟩
  | sourceAbort e reason =>
    refine ⟨hs.receiver, ?_⟩
    unfold Transfer.step Manager.onSourceAbort
    dsimp only
    split
    · exact hs.manager.fail _ _ _
    · exact hs.manager
  | managerLoop e => exact ⟨hs.receiver, hs.manager.loop⟩
  | receiverLoop e => exact ⟨hs.receiver.loop s.uplink, hs.manager⟩
  | up e i =>
    change Joint file c g action ((s.uplink[i]?).elim s fun ack => deliverUp e ack s)
    cases hi : s.uplink[i]? with
    | none => exact hs
    | some ack => exact ⟨hs.receiver, hs.manager.fileAck _ _ _ _ _⟩
  | down e i =>
    change Joint file c g action ((s.downlink[i]?).elim s fun f => deliverDown H e f s)
    cases hi : s.downlink[i]? with
    | none => exact hs
    | some f =>
      have hf := hs.manager.sent f (List.mem_of_getElem? hi)
      rcases hf with ⟨htype, hgen⟩ | ⟨htype, hctl⟩
      · simp only [Option.elim_some, deliverDown, htype]
        exact ⟨hs.receiver.fileData hg hcpi hgen, hs.manager⟩
      · simp only [Option.elim_some, deliverDown, htype]
        refine ⟨ReceiverHolds.control hg hinc ?_ s.uplink hctl, hs.manager⟩
        refine hs.receiver.congr ?_
        unfold noteTxCounter
        split
        · rfl
        · split <;> split <;> rfl

/-- Every state of a run satisfies the joint invariant. -/
theorem Handshake.Reachable.joint {hs : Handshake η} (ha : hs.Accepted H file) {s : State η}
    (h : hs.Reachable H file s) :
    Joint file (hs.chunkSize H file) (hs.geometry H file) hs.action s := by
  obtain ⟨hsound, hopen⟩ := ha.joint
  have hcpi : (hs.geometry H file).chunksPerIncrement < 2 ^ 16 := (Geometry.cpi_bounds _ _ _).2
  have hinc : (hs.geometry H file).totalIncrements < 2 ^ 16 :=
    Geometry.totalIncrements_lt _ _ _
  refine Transition.Reachable.invariant (I := Joint file _ _ _) ?_ ?_ h
  · rintro _ rfl
    exact hopen
  · intro s ev hj _
    exact hj.step hsound hcpi hinc ev

/-- The delivery guarantee of a transfer.  Whatever the radio loses, repeats, delays or
reorders, as long as the handler accepts every `on_data` call, the calls so far are the
chunks of the first `k` increments, each once and in order, so the bytes handed over are a
prefix of the file made of whole increments; and a receiver that waits for `END` has handed
over the whole file. -/
theorem flashed_whole_increments (H : ActionHandler η) (file : Bytes) (hs : Handshake η)
    (ha : hs.Accepted H file) (s : State η) (h : hs.Reachable H file s)
    (hacc : ∀ d ∈ calls s hs.action, d.accepted = true) :
    (∃ k ≤ (hs.geometry H file).totalIncrements,
      asSlices (calls s hs.action) =
        (List.range (min (k * (hs.geometry H file).chunksPerIncrement)
          (hs.geometry H file).totalChunks)).map (fun i => (i, chunk file (hs.chunkSize H file) i)) ∧
      flashed s hs.action =
        file.take (k * (hs.geometry H file).chunksPerIncrement * hs.chunkSize H file)) ∧
    (s.receiver.state = .waitingEnd → flashed s hs.action = file) := by
  obtain ⟨hsound, -⟩ := ha.joint
  obtain ⟨h₁, log, hlog, hprog⟩ := (h.joint ha).receiver
  have hcalls : calls s hs.action = log := by simp [calls, hlog]
  rw [hcalls] at hacc
  obtain ⟨k, hk⟩ := hprog hacc
  set c := hs.chunkSize H file
  set g := hs.geometry H file
  have hbytes : flashed s hs.action = file.take (k * g.chunksPerIncrement * c) := by
    have hmap : log.map (·.data) = (List.range (min (k * g.chunksPerIncrement) g.totalChunks)).map
        (chunk file c) := by
      have := congrArg (List.map Prod.snd) hk.delivered
      simpa [asSlices, Function.comp_def] using this
    rw [flashed, hcalls, List.flatMap_def, hmap, ← List.flatMap_def, flatMap_chunk]
    rcases Nat.le_total (k * g.chunksPerIncrement) g.totalChunks with hle | hle
    · rw [Nat.min_eq_left hle]
    · have hall := hsound.file_le
      have hmul : g.totalChunks * c ≤ k * g.chunksPerIncrement * c := Nat.mul_le_mul_right c hle
      rw [Nat.min_eq_right hle, List.take_of_length_le hall,
        List.take_of_length_le (hall.trans hmul)]
  refine ⟨⟨k, hk.le, by rw [hcalls]; exact hk.delivered, hbytes⟩, fun hwait => ?_⟩
  rw [hbytes, hk.finished hwait]
  apply List.take_of_length_le
  have hend : g.totalChunks ≤ g.totalIncrements * g.chunksPerIncrement := by
    have hsplit : g.totalIncrements * g.chunksPerIncrement =
        (g.totalIncrements - 1) * g.chunksPerIncrement + g.chunksPerIncrement := by
      obtain ⟨i, hi⟩ : ∃ i, g.totalIncrements = i + 1 :=
        ⟨g.totalIncrements - 1, by have := hsound.increments_pos; omega⟩
      rw [hi, Nat.add_sub_cancel, Nat.add_mul, Nat.one_mul]
    have := hsound.total_eq
    have := hsound.last_le
    omega
  exact hsound.file_le.trans (Nat.mul_le_mul_right c hend)

/-- An environment at time `now` in which every send succeeds. -/
def quiet (now : UInt32) : Env where
  now := now
  ackSent _ := true
  frameSent n := (.ok, UInt32.ofNat (n + 1))
  targetReachable := true

/-- The opening of a transfer into `sink`. -/
def sinkHandshake : Handshake Unit where
  receiver := { handlers := fun a => if a == 2 then some ((), []) else none }
  config := {}
  leafMac := Octets.zero 6
  md5 := Octets.zero 16
  action := 2
  maxFramePayload := 250
  fileId := Octets.zero 12
  env := quiet 0

/-- A run in which the only chunk arrives twice before its `BLAST_COMPLETE`. -/
def sinkRun : List Event :=
  [.source 0, .managerLoop (quiet 10), .managerLoop (quiet 20), .managerLoop (quiet 30),
    .down (quiet 40) 0, .down (quiet 40) 0, .down (quiet 40) 1]

theorem sinkHandshake_accepted : sinkHandshake.Accepted sink [1, 2, 3] where
  idle := rfl
  fresh a h ha := by
    simp only [sinkHandshake] at ha
    split at ha
    · rw [← Option.some.inj ha]
    · cases ha
  receiving := by decide
  blasting := by decide
  fits := by decide

theorem sinkRun_reachable : sinkHandshake.Reachable sink [1, 2, 3]
    (Transition.runFrom (step sink [1, 2, 3]) (sinkHandshake.opened sink [1, 2, 3]) sinkRun) := by
  have hstart : sinkHandshake.Reachable sink [1, 2, 3] (sinkHandshake.opened sink [1, 2, 3]) :=
    .start rfl
  refine Transition.Reachable.runFrom hstart ?_
  simp [sinkRun, Transition.Admits]

/-- Three bytes go to a handler that takes everything.  The only chunk arrives twice, and the bytes
are handed over once. -/
theorem flashed_whole_increments_sink :
    flashed (Transition.runFrom (step sink [1, 2, 3]) (sinkHandshake.opened sink [1, 2, 3]) sinkRun)
      sinkHandshake.action = [1, 2, 3] := by
  have hrun : (∀ d ∈ calls (Transition.runFrom (step sink [1, 2, 3]) (sinkHandshake.opened sink [1, 2, 3]) sinkRun)
        sinkHandshake.action, d.accepted = true) ∧
      (Transition.runFrom (step sink [1, 2, 3]) (sinkHandshake.opened sink [1, 2, 3]) sinkRun).receiver.state =
        .waitingEnd := by
    decide +kernel
  exact (flashed_whole_increments sink [1, 2, 3] sinkHandshake sinkHandshake_accepted _ sinkRun_reachable
    hrun.1).2 hrun.2

end Run

end Transfer

end EspTree
