import EspTree.File.Host

/-!
# Batches of chunks

What the host sends, and what the bridge reads of it: the pieces of a request are the request
(`flatten_pieces`), the reader of the bridge gets back the batch that was encoded, with the zeros that
were left out (`parseOtaChunkBatch_fields`), and both ends compute the same checksum
(`crc32Bytes_eq`).

The reader of the bridge is the fold of `File.Host`, so the proofs are by induction over the fields
of the message.  `OtaChunk.Fits` and `OtaChunkBatch.Fits` are what the types of the schema ask for,
numbers of 32 bits and bytes of bounded length; the batches of the client meet them because it cuts
the chunks to the size that it was told (`Client.cut_fits`).

The two checksums are the same polynomial, computed bit by bit on one side and with a table on the
other.
-/

namespace EspTree

open Wire OtaManager

namespace Host

/-! ## Messages -/

/-- The masked shift of the bridge. -/
theorem masked_shift (poly crc : UInt32) :
    (crc >>> 1) ^^^ (poly &&& (0 - (crc &&& 1))) = Crc.shift poly crc := by
  have hbit : crc &&& 1 = 0 ∨ crc &&& 1 = 1 := by
    have hmod : (crc &&& 1).toNat = crc.toNat % 2 := by
      rw [UInt32.toNat_and]
      exact Nat.and_one_is_mod _
    rcases Nat.mod_two_eq_zero_or_one crc.toNat with h | h
    · exact .inl (UInt32.toNat_inj.1 (hmod.trans h))
    · exact .inr (UInt32.toNat_inj.1 (hmod.trans h))
  unfold Crc.shift
  rcases hbit with h | h
  · simp [h]
  · have hall : (0 : UInt32) - 1 = -1 := by decide
    simp [h, hall]

theorem crc32Bytes_eq (data : Bytes) : crc32Bytes data = zlibCrc32 data := by
  have hbyte (crc : UInt32) (b : UInt8) :
      (fun crc : UInt32 => (crc >>> 1) ^^^ (0xEDB88320 &&& (0 - (crc &&& 1))))^[8]
        (crc ^^^ b.toUInt32) = Crc.byTable crcPolynomial crc b := by
    rw [Crc.byTable_eq_byBits, Crc.byBits]
    congr 1
    funext crc
    exact masked_shift crcPolynomial crc
  unfold crc32Bytes zlibCrc32
  simp only [hbyte]

/-- What the bridge reads of a chunk. -/
def OtaChunk.parsed (c : OtaChunk) : ParsedOtaChunk :=
  ⟨c.sequence, c.offset, some c.payload, c.flags, c.crc32⟩

/-- The numbers of a message have 32 bits. -/
structure OtaChunk.Fits (c : OtaChunk) : Prop where
  sequence : c.sequence < 2 ^ 32
  offset : c.offset < 2 ^ 32
  flags : c.flags < 2 ^ 32
  crc32 : c.crc32 < 2 ^ 32
  payload : c.payload ≠ []
  length : c.payload.length < 2 ^ 32

theorem OtaChunk.checked_of_fits {c : OtaChunk} (h : c.Fits) : c.checked = some c :=
  if_pos ⟨h.sequence, h.offset, h.flags, h.crc32⟩

theorem uint32Field_valid {number n : Nat} (hnumber : number < 2 ^ 29) (hn : n < 2 ^ 32)
    {f : Proto.Field} (hf : f ∈ uint32Field number n) : f.Valid := by
  unfold uint32Field at hf
  split at hf
  · cases hf
  · cases List.mem_singleton.1 hf
    exact ⟨hnumber, Nat.lt_trans hn (by decide)⟩

theorem bytesField_valid {number : Nat} {b : Bytes} (hnumber : number < 2 ^ 29)
    (hb : b.length < 2 ^ 64) {f : Proto.Field} (hf : f ∈ bytesField number b) : f.Valid := by
  unfold bytesField at hf
  split at hf
  · cases hf
  · cases List.mem_singleton.1 hf
    exact ⟨hnumber, hb⟩

/-- A number that is left out is read as the zero that was there. -/
theorem foldl_uint32Field {σ : Type} (take : σ → Proto.Field → σ) (set : σ → Nat → σ) {number n : Nat}
    (out : σ) (htake : ∀ m, take out ⟨number, .varint m⟩ = set out (m % 2 ^ 32)) (hzero : set out 0 = out)
    (hn : n < 2 ^ 32) : (uint32Field number n).foldl take out = set out n := by
  unfold uint32Field
  split
  next h => rw [h, hzero, List.foldl_nil]
  next => rw [List.foldl_cons, List.foldl_nil, htake, Nat.mod_eq_of_lt hn]

theorem OtaChunk.fields_valid {c : OtaChunk} (h : c.Fits) {f : Proto.Field} (hf : f ∈ c.fields) :
    f.Valid := by
  simp only [fields, List.mem_append] at hf
  rcases hf with (((hf | hf) | hf) | hf) | hf
  · exact uint32Field_valid (by decide) h.sequence hf
  · exact uint32Field_valid (by decide) h.offset hf
  · exact bytesField_valid (by decide) (Nat.lt_trans h.length (by decide)) hf
  · exact uint32Field_valid (by decide) h.flags hf
  · exact uint32Field_valid (by decide) h.crc32 hf

/-- The bridge reads the chunk that the host has built. -/
theorem parseOtaChunkMessage_fields {c : OtaChunk} (h : c.Fits) :
    parseOtaChunkMessage (Proto.encodeFields c.fields) = some c.parsed := by
  have hfold : c.fields.foldl ParsedOtaChunk.take {} = c.parsed := by
    simp only [OtaChunk.fields, List.foldl_append]
    rw [foldl_uint32Field _ (fun out n => { out with sequence := n }) _ (fun _ => rfl) rfl h.sequence,
      foldl_uint32Field _ (fun out n => { out with offset := n }) _ (fun _ => rfl) rfl h.offset,
      bytesField, if_neg h.payload, List.foldl_cons, List.foldl_nil,
      foldl_uint32Field _ (fun out n => { out with flags := n }) _ (fun _ => rfl) rfl h.flags,
      foldl_uint32Field _ (fun out n => { out with crc32 := n }) _ (fun _ => rfl) rfl h.crc32]
    rfl
  unfold parseOtaChunkMessage
  rw [Proto.readFields_encode fun f hf => OtaChunk.fields_valid h hf]
  dsimp only
  rw [hfold]
  rfl

theorem length_uint32Field_le (number n : Nat) : (uint32Field number n).length ≤ 1 := by
  unfold uint32Field
  split
  · exact Nat.zero_le _
  · exact le_rfl

theorem length_bytesField_le (number : Nat) (b : Bytes) : (bytesField number b).length ≤ 1 := by
  unfold bytesField
  split
  · exact Nat.zero_le _
  · exact le_rfl

theorem size_uint32Field {number n : Nat} {f : Proto.Field} (hf : f ∈ uint32Field number n) :
    f.value.size = 0 := by
  unfold uint32Field at hf
  split at hf
  · cases hf
  · cases List.mem_singleton.1 hf
    rfl

theorem size_bytesField {number : Nat} {b : Bytes} {f : Proto.Field} (hf : f ∈ bytesField number b) :
    f.value.size = b.length := by
  unfold bytesField at hf
  split at hf
  · cases hf
  · cases List.mem_singleton.1 hf
    rfl

theorem OtaChunk.length_encode_lt {c : OtaChunk} (h : c.Fits) :
    (Proto.encodeFields c.fields).length < 2 ^ 35 := by
  have hsize : ∀ f ∈ c.fields, f.value.size ≤ c.payload.length := by
    intro f hf
    simp only [fields, List.mem_append] at hf
    rcases hf with (((hf | hf) | hf) | hf) | hf
    · exact (size_uint32Field hf).trans_le (Nat.zero_le _)
    · exact (size_uint32Field hf).trans_le (Nat.zero_le _)
    · exact (size_bytesField hf).le
    · exact (size_uint32Field hf).trans_le (Nat.zero_le _)
    · exact (size_uint32Field hf).trans_le (Nat.zero_le _)
  have hcount : c.fields.length ≤ 5 := by
    have h₁ := length_uint32Field_le 1 c.sequence
    have h₂ := length_uint32Field_le 2 c.offset
    have h₃ := length_bytesField_le 3 c.payload
    have h₄ := length_uint32Field_le 4 c.flags
    have h₅ := length_uint32Field_le 5 c.crc32
    simp only [fields, List.length_append]
    omega
  have hpayload := h.length
  calc (Proto.encodeFields c.fields).length ≤ c.fields.length * (20 + c.payload.length) :=
        Proto.length_encodeFields_le hsize
    _ ≤ 5 * (20 + c.payload.length) := Nat.mul_le_mul_right _ hcount
    _ < 2 ^ 35 := by omega

/-- A batch that the reader of the bridge takes. -/
structure OtaChunkBatch.Fits (b : OtaChunkBatch) : Prop where
  job : b.jobId ≠ []
  jobLength : b.jobId.length < 2 ^ 32
  request : b.responseRequestId ≠ []
  requestLength : b.responseRequestId.length < 2 ^ 32
  chunks : ∀ c ∈ b.chunks, c.Fits
  nonempty : b.chunks ≠ []
  count : b.chunks.length < 2 ^ 16

theorem OtaChunkBatch.fields_valid {b : OtaChunkBatch} (h : b.Fits) {f : Proto.Field}
    (hf : f ∈ b.fields) : f.Valid ∧ f.value.size < 2 ^ 35 := by
  simp only [fields, List.mem_append, List.mem_map] at hf
  rcases hf with (hf | hf) | ⟨c, hc, rfl⟩
  · have hjob := h.jobLength
    exact ⟨bytesField_valid (by decide) (by omega) hf, by rw [size_bytesField hf]; omega⟩
  · have hrequest := h.requestLength
    exact ⟨bytesField_valid (by decide) (by omega) hf, by rw [size_bytesField hf]; omega⟩
  · have hlt := OtaChunk.length_encode_lt (h.chunks c hc)
    exact ⟨⟨(by decide : 3 < 2 ^ 29), Nat.lt_trans hlt (by decide)⟩, hlt⟩

theorem foldlM_chunks (cs : List OtaChunk) (h : ∀ c ∈ cs, c.Fits) (out : ParsedOtaChunkBatch) :
    (cs.map fun c => (⟨3, .bytes (Proto.encodeFields c.fields)⟩ : Proto.Field)).foldlM
        ParsedOtaChunkBatch.take out =
      some { out with chunks := out.chunks ++ cs.map OtaChunk.parsed } := by
  induction cs generalizing out with
  | nil => simp
  | cons c cs ih =>
    have hc := parseOtaChunkMessage_fields (h c List.mem_cons_self)
    have htake : out.take ⟨3, .bytes (Proto.encodeFields c.fields)⟩ =
        some { out with chunks := out.chunks ++ [c.parsed] } := by
      change (parseOtaChunkMessage _).map _ = _
      rw [hc]
      rfl
    rw [List.map_cons, List.foldlM_cons, htake]
    change List.foldlM _ _ _ = _
    rw [ih fun d hd => h d (List.mem_cons_of_mem _ hd)]
    simp

/-- The bridge reads the batch that the host has sent. -/
theorem parseOtaChunkBatch_fields {b : OtaChunkBatch} (h : b.Fits) :
    parseOtaChunkBatch (Proto.encodeFields b.fields) =
      some ⟨b.jobId, b.responseRequestId, b.chunks.map OtaChunk.parsed⟩ := by
  have hfold : b.fields.foldlM ParsedOtaChunkBatch.take {} =
      some ⟨b.jobId, b.responseRequestId, b.chunks.map OtaChunk.parsed⟩ := by
    rw [OtaChunkBatch.fields, bytesField, bytesField, if_neg h.job, if_neg h.request]
    exact foldlM_chunks b.chunks h.chunks ⟨b.jobId, b.responseRequestId, []⟩
  have hsome : b.chunks.map OtaChunk.parsed ≠ [] := by simpa using h.nonempty
  unfold parseOtaChunkBatch
  rw [Proto.readFields_encode fun f hf => (OtaChunkBatch.fields_valid h hf).1]
  dsimp only
  rw [hfold]
  exact if_pos ⟨h.job, h.request, hsome⟩

/-- The bridge opens the envelope of a batch. -/
theorem parseEnvelope_envelope {b : OtaChunkBatch} (h : b.Fits) :
    parseEnvelope b.envelope = some ⟨apiVersion, 31, Proto.encodeFields b.fields⟩ := by
  have hlength : (Proto.encodeFields b.fields).length < 2 ^ 64 := by
    have hcount : b.fields.length ≤ 2 ^ 17 := by
      have h₁ := length_bytesField_le 1 b.jobId
      have h₂ := length_bytesField_le 2 b.responseRequestId
      have h₃ := h.count
      simp only [OtaChunkBatch.fields, List.length_append, List.length_map]
      omega
    calc (Proto.encodeFields b.fields).length ≤ b.fields.length * (20 + 2 ^ 35) :=
          Proto.length_encodeFields_le fun f hf => (OtaChunkBatch.fields_valid h hf).2.le
      _ ≤ 2 ^ 17 * (20 + 2 ^ 35) := Nat.mul_le_mul_right _ hcount
      _ < 2 ^ 64 := by decide
  have hvalid : ∀ f ∈ uint32Field 2 apiVersion ++
      [(⟨31, .bytes (Proto.encodeFields b.fields)⟩ : Proto.Field)], f.Valid := by
    intro f hf
    rcases List.mem_append.1 hf with hf | hf
    · exact uint32Field_valid (by decide) (by decide) hf
    · cases List.mem_singleton.1 hf
      exact ⟨(by decide : 31 < 2 ^ 29), hlength⟩
  unfold parseEnvelope OtaChunkBatch.envelope
  rw [Proto.readFields_encode hvalid]
  rfl

/-! ## The client -/

theorem flatten_pieces_from (sequences : List Nat) (size start n : Nat) :
    ((List.range' start n size).map fun first => (sequences.drop first).take size).flatten =
      (sequences.drop start).take (n * size) := by
  induction n generalizing start with
  | zero => simp
  | succ n ih =>
    rw [List.range'_succ, List.map_cons, List.flatten_cons, ih, Nat.succ_mul, Nat.add_comm (n * size),
      List.take_add, List.drop_drop]

/-- The pieces are the list. -/
theorem flatten_pieces {size : Nat} (hsize : 0 < size) (sequences : List Nat) :
    (pieces size sequences).flatten = sequences := by
  have hle : sequences.length ≤ (sequences.length + size - 1) / size * size := by
    have hdiv := Nat.div_add_mod' (sequences.length + size - 1) size
    have hmod := Nat.mod_lt (sequences.length + size - 1) hsize
    omega
  rw [pieces, flatten_pieces_from, List.drop_zero, List.take_of_length_le hle]

theorem of_mem_pieces {size : Nat} (hsize : 0 < size) {sequences piece : List Nat}
    (h : piece ∈ pieces size sequences) : piece ≠ [] ∧ piece.length ≤ size := by
  obtain ⟨start, hstart, rfl⟩ := List.mem_map.1 h
  obtain ⟨i, hi, rfl⟩ := List.mem_range'.1 hstart
  have hlt : 0 + size * i < sequences.length := by
    have hle := Nat.mul_le_mul_right size (Nat.succ_le_of_lt hi)
    have hdiv := Nat.div_mul_le_self (sequences.length + size - 1) size
    rw [Nat.succ_mul, Nat.mul_comm i] at hle
    omega
  refine ⟨?_, ?_⟩
  · rw [← List.length_pos_iff, List.length_take, List.length_drop]
    omega
  · rw [List.length_take]
    exact Nat.min_le_left _ _

/-- The chunk that the host cuts out of the file. -/
def Client.cut (c : Client) (file : Bytes) (sequence : Nat) : OtaChunk where
  sequence
  offset := sequence * c.maxChunkSize
  payload := slice file (sequence * c.maxChunkSize) c.maxChunkSize
  flags := if c.totalChunks ≠ 0 ∧ sequence = c.totalChunks - 1 then 0x0001 else 0
  crc32 := (zlibCrc32 (slice file (sequence * c.maxChunkSize) c.maxChunkSize)).toNat

theorem length_slice_chunk (file : Bytes) (size sequence : Nat) :
    (slice file (sequence * size) size).length = min (file.length - sequence * size) size := by
  rw [slice, List.length_take, List.length_drop, Nat.min_comm]

/-- A sequence number below the number of chunks starts inside the file. -/
theorem start_lt_of_lt_divUp {size fileSize sequence : Nat} (hsize : 0 < size) (hfile : 0 < fileSize)
    (h : sequence < Geometry.divUp fileSize size) : sequence * size < fileSize := by
  obtain ⟨hlt, -, -⟩ := Geometry.divUp_bounds hsize hfile
  have hle : sequence * size ≤ (Geometry.divUp fileSize size - 1) * size :=
    Nat.mul_le_mul_right _ (Nat.le_sub_one_of_lt h)
  exact Nat.lt_of_le_of_lt hle hlt

theorem Client.cut_fits {c : Client} {file : Bytes} {sequence : Nat} (hsize : 0 < c.maxChunkSize)
    (hfile : file.length < 2 ^ 32) (hstart : sequence * c.maxChunkSize < file.length) :
    (c.cut file sequence).Fits := by
  have hlength := length_slice_chunk file c.maxChunkSize sequence
  have hsequence : sequence ≤ sequence * c.maxChunkSize := Nat.le_mul_of_pos_right _ hsize
  refine ⟨?_, ?_, ?_, UInt32.toNat_lt _, ?_, ?_⟩
  · change sequence < 2 ^ 32
    omega
  · change sequence * c.maxChunkSize < 2 ^ 32
    omega
  · change (if _ then _ else _) < _
    split <;> decide
  · change slice file _ _ ≠ []
    rw [← List.length_pos_iff, hlength]
    omega
  · change (slice file _ _).length < _
    rw [hlength]
    omega

theorem mapM_eq_some {α β : Type} {f : α → Option β} {g : α → β} {l : List α}
    (h : ∀ a ∈ l, f a = some (g a)) : l.mapM f = some (l.map g) := by
  induction l with
  | nil => rfl
  | cons a l ih =>
    rw [List.mapM_cons, h a List.mem_cons_self, ih fun b hb => h b (List.mem_cons_of_mem _ hb)]
    rfl

/-- What the host sends, as long as the chunks start inside the file. -/
theorem Client.sendChunks_eq {c : Client} {file request : Bytes} {sequences : List Nat}
    (hjob : c.jobId ≠ []) (hsize : 0 < c.maxChunkSize) (hfile : file.length < 2 ^ 32)
    (hstart : ∀ q ∈ sequences, q * c.maxChunkSize < file.length) :
    c.sendChunks file request sequences =
      some ((pieces (max 1 (orElse c.maxChunksPerBatch 1)) sequences).map fun piece =>
        ⟨c.jobId, request, piece.map (c.cut file)⟩) := by
  rw [sendChunks, if_neg hjob]
  refine mapM_eq_some fun piece hpiece => ?_
  have hchunks : piece.mapM (c.buildChunk file) = some (piece.map (c.cut file)) := by
    refine mapM_eq_some fun q hq => ?_
    have hmem : q ∈ sequences := by
      have hsize : 0 < max 1 (orElse c.maxChunksPerBatch 1) := by omega
      rw [← flatten_pieces hsize sequences]
      exact List.mem_flatten.2 ⟨piece, hpiece, hq⟩
    exact OtaChunk.checked_of_fits (cut_fits hsize hfile (hstart q hmem))
  rw [hchunks]
  rfl

end Host

end EspTree
