import EspTree.Runtime.Messages

/-!
# The readers of the host's messages

`EspTree.Host` has `parse_envelope`, `parse_ota_chunk_message` and `parse_ota_chunk_batch` as functions of the
fields of a message, and what is said about the transfer of a file rests on those.  Here each of them is what the
parser that works on the memory does: the loop of a parser is a fold over the fields (`scan_refines`), each branch
one step of the fold, and so the results agree (`readers_agree`).

The fold ends where the parser stops: a field that no branch takes is skipped, a varint of a known
number is stored, and a nested message that cannot be parsed ends the fold with a failure, as in the
source.  The views that the parser returns are replaced by what they show, which loses nothing, since
`Runtime.Messages` has shown that they are inside the memory.
-/

namespace EspTree

open Wire

namespace Runtime

/-- A result that is accepted stands for what is read on the fields, and one that is refused for nothing. -/
def Answers {σ τ : Type} (R : σ → τ → Prop) (r : Bool × σ) : Option τ → Prop
  | none => r.1 = false
  | some t => r.1 = true ∧ R r.2 t

section

variable {m : Bytes} {v : View} {σ τ : Type} {R : σ → τ → Prop} {take : τ → Proto.Field → Option τ}

/-- The loop of a parser is a fold over the fields. -/
theorem scan_refines {body : RawField → σ → Except Fault (Bool × σ)} {out : σ} {t : τ} (hv : v.Inside m)
    (hbody : ∀ {raw f out t}, raw.Represents m v f → R out t →
      ∃ r, body raw out = .ok r ∧ Answers R r (take t f)) (hout : R out t) :
    ∃ r, scan m v body out = .ok r ∧
      Answers R r ((Proto.readFields (v.bytes m)).bind fun fs => fs.foldlM take t) := by
  have hloop : ∀ fuel pos out t, pos ≤ v.length → v.length < fuel + pos → R out t →
      ∃ r, scanLoop m v body fuel pos out = .ok r ∧
        Answers R r ((Proto.readFields ((v.bytes m).drop pos)).bind fun fs => fs.foldlM take t) := by
    intro fuel
    induction fuel with
    | zero => intro pos out t hpos hfuel; omega
    | succ fuel ih =>
      intro pos out t hpos hfuel hout
      rw [scanLoop]
      split
      next hlt =>
        obtain ⟨r, hread, hfield⟩ := readField_eq hv hpos
        have hne : (v.bytes m).drop pos ≠ [] := by
          obtain ⟨b, -, hdrop⟩ := View.drop_bytes hv hlt
          rw [hdrop]
          exact List.cons_ne_nil _ _
        rw [hread, Proto.readFields_of_ne_nil hne]
        cases hfield with
        | none hnone =>
          rw [hnone]
          exact ⟨_, rfl, rfl⟩
        | @some f raw pos' hsome hraw hlt hle =>
          obtain ⟨⟨go, out'⟩, hbody', hanswers⟩ := hbody hraw hout
          rw [hsome]
          dsimp only
          rw [hbody']
          cases htake : take t f with
          | none =>
            rw [htake] at hanswers
            have hgo : go = false := hanswers
            subst hgo
            refine ⟨_, rfl, ?_⟩
            cases Proto.readFields ((v.bytes m).drop pos') with
            | none => exact rfl
            | some fs =>
              show Answers R _ ((f :: fs).foldlM take t)
              rw [List.foldlM_cons, htake]
              exact rfl
          | some t' =>
            rw [htake] at hanswers
            obtain ⟨hgo, hout'⟩ := hanswers
            have hgo' : go = true := hgo
            subst hgo'
            obtain ⟨r, hr, hrest⟩ := ih pos' out' t' hle (by omega) hout'
            refine ⟨r, hr, ?_⟩
            cases hfields : Proto.readFields ((v.bytes m).drop pos') with
            | none =>
              rw [hfields] at hrest
              exact hrest
            | some fs =>
              rw [hfields] at hrest
              show Answers R _ ((f :: fs).foldlM take t)
              rw [List.foldlM_cons, htake]
              exact hrest
      next hge =>
        rw [List.drop_eq_nil_of_le (by rw [View.length_bytes hv]; omega), Proto.readFields_nil]
        exact ⟨_, rfl, rfl, hout⟩
  have hscan := hloop (v.length + 1) 0 out t (Nat.zero_le _) (Nat.lt_succ_self _) hout
  rwa [List.drop_zero] at hscan

/-- The same for a parser. -/
theorem parse_refines {bs : List (Branch σ)} {out : σ} {t : τ} {accepts : σ → Bool} {accepted : τ → Bool}
    (hv : v.Inside m)
    (hbody : ∀ {raw f out t}, raw.Represents m v f → R out t →
      ∃ r, branches bs raw out = .ok r ∧ Answers R r (take t f))
    (hout : R out t) (haccepts : ∀ {out t}, R out t → accepts out = accepted t) :
    ∃ r, parse m v out bs accepts = .ok r ∧
      Answers R r (((Proto.readFields (v.bytes m)).bind fun fs => fs.foldlM take t).filter accepted) := by
  obtain ⟨⟨ok, out'⟩, hscan, hanswers⟩ := scan_refines hv hbody hout
  refine ⟨(ok && accepts out', out'), by rw [parse, hscan]; rfl, ?_⟩
  generalize (Proto.readFields (v.bytes m)).bind _ = read at hanswers
  cases read with
  | none =>
    have hok : ok = false := hanswers
    rw [hok]
    exact rfl
  | some t' =>
    obtain ⟨hok, hout'⟩ := hanswers
    have hok' : ok = true := hok
    rw [Option.filter_some, hok', haccepts hout']
    cases accepted t' with
    | false => exact rfl
    | true => exact ⟨rfl, hout'⟩

end

/-! ## Chunks -/

/-- A chunk with the bytes of its payload. -/
def ParsedOtaChunk.shown (m : Bytes) (out : ParsedOtaChunk) : Host.ParsedOtaChunk :=
  ⟨out.sequence, out.offset, out.payload.map (View.bytes · m), out.flags, out.crc32⟩

section

variable {m : Bytes} {v : View}

theorem chunkBranches_step (out : ParsedOtaChunk) {raw : RawField} {f : Proto.Field}
    (hraw : raw.Represents m v f) :
    ∃ out', branches chunkBranches raw out = .ok (true, out') ∧ (out.shown m).take f = out'.shown m := by
  obtain ⟨number, value⟩ := f
  unfold chunkBranches
  cases value with
  | varint n =>
    have hne : (Proto.Value.varint n).wire ≠ 2 := (by decide : 0 ≠ 2)
    simp only [branches, onVarint_varint hraw, onView_of_ne hraw hne]
    by_cases h₁ : number = 1
    · subst h₁
      exact ⟨_, rfl, rfl⟩
    by_cases h₂ : number = 2
    · subst h₂
      exact ⟨_, rfl, rfl⟩
    by_cases h₄ : number = 4
    · subst h₄
      exact ⟨_, rfl, rfl⟩
    by_cases h₅ : number = 5
    · subst h₅
      exact ⟨_, rfl, rfl⟩
    refine ⟨out, by simp [h₁, h₂, h₄, h₅], ?_⟩
    simp [Host.ParsedOtaChunk.take, h₁, h₂, h₄, h₅]
  | fixed64 b =>
    have hzero : (Proto.Value.fixed64 b).wire ≠ 0 := (by decide : 1 ≠ 0)
    have htwo : (Proto.Value.fixed64 b).wire ≠ 2 := (by decide : 1 ≠ 2)
    simp only [branches, onVarint_of_ne hraw hzero, onView_of_ne hraw htwo]
    refine ⟨out, rfl, ?_⟩
    simp [Host.ParsedOtaChunk.take]
  | bytes b =>
    have hzero : (Proto.Value.bytes b).wire ≠ 0 := (by decide : 2 ≠ 0)
    obtain ⟨w, hvalue, -, hb⟩ := hraw.bytes b rfl
    simp only [branches, onVarint_of_ne hraw hzero, onView_bytes hraw, hvalue]
    by_cases h₃ : number = 3
    · subst h₃
      exact ⟨_, rfl, by rw [← hb]; rfl⟩
    refine ⟨out, by simp [h₃], ?_⟩
    simp [Host.ParsedOtaChunk.take, h₃]

/-- `parse_ota_chunk_message` on the memory and on the fields. -/
theorem parseOtaChunkMessage_refines (hv : v.Inside m) :
    ∃ r, parseOtaChunkMessage m v = .ok r ∧
      Answers (fun out t => t = out.shown m) r (Host.parseOtaChunkMessage (v.bytes m)) := by
  have hfields : Host.parseOtaChunkMessage (v.bytes m) =
      (((Proto.readFields (v.bytes m)).bind fun fs =>
        fs.foldlM (fun t f => some (Host.ParsedOtaChunk.take t f)) {}).filter (·.payload.isSome)) := by
    rw [Host.parseOtaChunkMessage]
    cases Proto.readFields (v.bytes m) with
    | none => rfl
    | some fs =>
      have hfold : fs.foldlM (fun t f => some (Host.ParsedOtaChunk.take t f)) {} =
        some (fs.foldl Host.ParsedOtaChunk.take {}) := List.foldlM_pure
      rw [Option.bind_some, hfold, Option.filter_some]
  rw [hfields]
  refine parse_refines hv (fun {raw f out t} hraw ht => ?_) rfl fun {out t} ht => ?_
  · obtain ⟨out', hbranches, htake⟩ := chunkBranches_step out hraw
    exact ⟨_, hbranches, rfl, by rw [ht, htake]⟩
  · rw [ht]
    exact (Option.isSome_map ..).symm

/-! ## Batches -/

/-- A batch with the bytes of its payloads. -/
def ParsedOtaChunkBatch.shown (m : Bytes) (out : ParsedOtaChunkBatch) : Host.ParsedOtaChunkBatch :=
  ⟨out.jobId, out.responseRequestId, out.chunks.map (ParsedOtaChunk.shown m)⟩

theorem ParsedOtaChunkBatch.shown_chunk (m : Bytes) (out : ParsedOtaChunkBatch) (chunk : ParsedOtaChunk) :
    shown m { out with chunks := out.chunks ++ [chunk] } =
      { out.shown m with chunks := (out.shown m).chunks ++ [chunk.shown m] } := by
  simp [shown]

theorem batchBranches_step {out : ParsedOtaChunkBatch} {raw : RawField} {f : Proto.Field} (hv : v.Inside m)
    (hraw : raw.Represents m v f) :
    ∃ r, branches (batchBranches m v) raw out = .ok r ∧
      Answers (fun out t => t = out.shown m) r ((out.shown m).take f) := by
  obtain ⟨number, value⟩ := f
  have hother : ∀ {value : Proto.Value}, RawField.Represents m v raw ⟨number, value⟩ → value.wire ≠ 2 →
      branches (batchBranches m v) raw out = .ok (true, out) := by
    intro value hraw hne
    simp only [batchBranches, branches, onString_of_ne hraw hne, onMessage_of_ne hraw hne]
    rfl
  cases value with
  | varint n =>
    have htake : (out.shown m).take ⟨number, .varint n⟩ = some (out.shown m) := by
      simp [Host.ParsedOtaChunkBatch.take]
    rw [htake]
    exact ⟨_, hother hraw (by decide : 0 ≠ 2), rfl, rfl⟩
  | fixed64 b =>
    have htake : (out.shown m).take ⟨number, .fixed64 b⟩ = some (out.shown m) := by
      simp [Host.ParsedOtaChunkBatch.take]
    rw [htake]
    exact ⟨_, hother hraw (by decide : 1 ≠ 2), rfl, rfl⟩
  | bytes b =>
    obtain ⟨w, hvalue, hw, hb⟩ := hraw.bytes b rfl
    simp only [batchBranches, branches, onString_bytes hv hraw, onMessage_bytes hraw hvalue]
    by_cases h₁ : number = 1
    · subst h₁
      exact ⟨_, rfl, rfl, rfl⟩
    by_cases h₂ : number = 2
    · subst h₂
      exact ⟨_, rfl, rfl, rfl⟩
    by_cases h₃ : number = 3
    · subst h₃
      obtain ⟨⟨ok, chunk⟩, hchunk, hanswers⟩ := parseOtaChunkMessage_refines (hw.inside hv)
      rw [hb] at hanswers
      rw [hchunk]
      refine ⟨if ok then (true, { out with chunks := out.chunks ++ [chunk] }) else (false, out), rfl, ?_⟩
      show Answers _ _ ((Host.parseOtaChunkMessage b).map _)
      cases hparse : Host.parseOtaChunkMessage b with
      | none =>
        rw [hparse] at hanswers
        have hok : ok = false := hanswers
        rw [hok]
        exact rfl
      | some t =>
        rw [hparse] at hanswers
        obtain ⟨hok, ht⟩ := hanswers
        have hok' : ok = true := hok
        rw [hok', ht]
        exact ⟨rfl, (out.shown_chunk m chunk).symm⟩
    have htake : (out.shown m).take ⟨number, .bytes b⟩ = some (out.shown m) := by
      simp [Host.ParsedOtaChunkBatch.take, h₁, h₂, h₃]
    rw [htake]
    exact ⟨(true, out), by simp [h₁, h₂, h₃], rfl, rfl⟩

/-- `parse_ota_chunk_batch` on the memory and on the fields. -/
theorem parseOtaChunkBatch_refines (hv : v.Inside m) :
    ∃ r, parseOtaChunkBatch m v = .ok r ∧
      Answers (fun out t => t = out.shown m) r (Host.parseOtaChunkBatch (v.bytes m)) := by
  have hfields : Host.parseOtaChunkBatch (v.bytes m) =
      (((Proto.readFields (v.bytes m)).bind fun fs => fs.foldlM Host.ParsedOtaChunkBatch.take {}).filter
        fun out => out.jobId != [] && out.responseRequestId != [] && out.chunks.length != 0) := by
    rw [Host.parseOtaChunkBatch]
    cases Proto.readFields (v.bytes m) with
    | none => rfl
    | some fs =>
      dsimp only
      rw [Option.bind_some]
      cases fs.foldlM Host.ParsedOtaChunkBatch.take {} with
      | none => rfl
      | some out =>
        rw [Option.filter_some]
        simp [and_assoc]
  rw [hfields]
  refine parse_refines hv (fun {raw f out t} hraw ht => ?_) rfl fun {out t} ht => ?_
  · rw [ht]
    exact batchBranches_step hv hraw
  · rw [ht]
    show _ = (_ && _ && (out.chunks.map (ParsedOtaChunk.shown m)).length != 0)
    rw [List.length_map]
    rfl

/-! ## Envelopes -/

/-- An envelope with the bytes of its message. -/
def ParsedEnvelope.shown (m : Bytes) (out : ParsedEnvelope) : Host.ParsedEnvelope :=
  ⟨out.apiVersion, out.msgField, (out.msgData.map (View.bytes · m)).getD []⟩

theorem envelopeBranches_step (out : ParsedEnvelope) {raw : RawField} {f : Proto.Field} (hv : v.Inside m)
    (hraw : raw.Represents m v f) :
    ∃ out', branches (envelopeBranches m v) raw out = .ok (true, out') ∧ (out.shown m).take f = out'.shown m := by
  obtain ⟨number, value⟩ := f
  unfold envelopeBranches
  cases value with
  | varint n =>
    have hne : (Proto.Value.varint n).wire ≠ 2 := (by decide : 0 ≠ 2)
    simp only [branches, onString_of_ne hraw hne, onVarint_varint hraw, onView_of_ne hraw hne]
    by_cases h₂ : number = 2
    · subst h₂
      exact ⟨_, rfl, rfl⟩
    refine ⟨out, by simp [h₂], ?_⟩
    simp [Host.ParsedEnvelope.take, h₂]
  | fixed64 b =>
    have hzero : (Proto.Value.fixed64 b).wire ≠ 0 := (by decide : 1 ≠ 0)
    have htwo : (Proto.Value.fixed64 b).wire ≠ 2 := (by decide : 1 ≠ 2)
    simp only [branches, onString_of_ne hraw htwo, onVarint_of_ne hraw hzero, onView_of_ne hraw htwo]
    exact ⟨out, rfl, rfl⟩
  | bytes b =>
    have hzero : (Proto.Value.bytes b).wire ≠ 0 := (by decide : 2 ≠ 0)
    obtain ⟨w, hvalue, -, hb⟩ := hraw.bytes b rfl
    simp only [branches, onString_bytes hv hraw, onVarint_of_ne hraw hzero, onView_bytes hraw, hvalue]
    by_cases h₁ : number = 1
    · subst h₁
      exact ⟨_, rfl, rfl⟩
    by_cases hmsg : 10 ≤ number
    · refine ⟨{ out with msgField := number, msgData := some w }, by simp [h₁, hmsg], ?_⟩
      rw [← hb]
      exact if_pos hmsg
    · exact ⟨out, by simp [h₁, hmsg], if_neg hmsg⟩

/-- `parse_envelope` on the memory and on the fields. -/
theorem parseEnvelope_refines (hv : v.Inside m) :
    ∃ r, parseEnvelope m v = .ok r ∧
      Answers (fun out t => t = out.shown m) r (Host.parseEnvelope (v.bytes m)) := by
  have hfields : Host.parseEnvelope (v.bytes m) =
      (((Proto.readFields (v.bytes m)).bind fun fs =>
        fs.foldlM (fun t f => some (Host.ParsedEnvelope.take t f)) {}).filter (·.msgField != 0)) := by
    rw [Host.parseEnvelope]
    cases Proto.readFields (v.bytes m) with
    | none => rfl
    | some fs =>
      have hfold : fs.foldlM (fun t f => some (Host.ParsedEnvelope.take t f)) {} =
        some (fs.foldl Host.ParsedEnvelope.take {}) := List.foldlM_pure
      rw [Option.bind_some, hfold, Option.filter_some]
      simp
  rw [hfields]
  refine parse_refines hv (fun {raw f out t} hraw ht => ?_) rfl fun {out t} ht => ?_
  · obtain ⟨out', hbranches, htake⟩ := envelopeBranches_step out hv hraw
    exact ⟨_, hbranches, rfl, by rw [ht, htake]⟩
  · rw [ht]
    rfl

end

/-- A batch of one chunk, with a byte before it and one behind it. -/
def bufferedBatch : Bytes :=
  [9, 0x0A, 1, 0x6A, 0x12, 1, 0x72, 0x1A, 8, 8, 5, 0x10, 0, 0x1A, 2, 0xAA, 0xBB, 7]

end Runtime

end EspTree
